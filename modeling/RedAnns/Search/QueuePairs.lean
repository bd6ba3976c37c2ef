import RedAnns.Search.Limits

/-!
How many reads a search posts on a queue pair.

A send queue takes `RC_MAX_SEND_SIZE` requests that are not polled for, and the request array
of a doorbell has `MAX_DOORBELL_SIZE` slots. Nothing in a release build compares a batch with
either of them.

* `outstanding`: the reads that are posted to a server and not polled for, as the polls of the
  batches in flight count them; `missesOn` are the keys of a batch that add to it.
* `staysInQueues_iff`: the arrays and the queues of a run do not overflow if and only if no
  call of `get_vertex_batch` misses too many keys of one server.
-/

namespace RedAnns

open GStore Distributed

/-- The reads on a queue pair that are posted and not polled for. -/
def ThdCtx.outstanding (ctx : ThdCtx) (sid : ServerId) : ℕ := (ctx.thdPolls.map (· sid)).sum

namespace GStore

variable (gs : GStore)

/-- The missed keys of a batch that are stored on a server. -/
def missesOn (keyBatch : List Item) (sid : ServerId) : List Item :=
  (gs.misses keyBatch).filter (·.first = sid)

/-- The reads that a batch has posted to a server. -/
def readsOn (b : Batch) (sid : ServerId) : List Request :=
  requestsTo gs.vertexSize (gs.fetchesOf b) sid

variable {gs} {ctx ctx' : ThdCtx} {keys : List Item} {res : List Ptr} {async : Bool}

lemma pollsOf_eq (b : Batch) (sid : ServerId) : gs.pollsOf b sid = (gs.readsOn b sid).length := by
  rw [pollsOf, batchGroup, length_signalLast]
  rfl

/-- A batch posts one read for each missed key. -/
lemma length_readsOn (h : gs.getVertexBatch ctx keys async = .ok (res, ctx')) (sid : ServerId) :
    (gs.readsOn (keys.zip res) sid).length = (gs.missesOn keys sid).length := by
  obtain ⟨rfl, -⟩ := getVertexBatch_ok h
  have hnid := (gs.gather_fetches keys ctx.bufUsedSz).2
  rw [(gs.gather_spec keys ctx.bufUsedSz).2.1] at hnid
  rw [readsOn, requestsTo, List.length_map, missesOn, ← List.countP_eq_length_filter,
    ← List.countP_eq_length_filter]
  calc (gs.fetchesOf (keys.zip (gs.gather keys ctx.bufUsedSz).1)).countP (·.nid = sid)
      = (((gs.fetchesOf (keys.zip (gs.gather keys ctx.bufUsedSz).1)).map Fetch.nid).countP
          (· = sid)) := by rw [List.countP_map]; rfl
    _ = ((gs.misses keys).map Item.first).countP (· = sid) := by rw [hnid]
    _ = (gs.misses keys).countP (·.first = sid) := by rw [List.countP_map]; rfl

end GStore

lemma ThdCtx.outstanding_of_suffix {ctx ctx' : ThdCtx} (h : ctx'.thdPolls <:+ ctx.thdPolls)
    (sid : ServerId) : ctx'.outstanding sid ≤ ctx.outstanding sid := by
  obtain ⟨polled, hpolled⟩ := h
  rw [ThdCtx.outstanding, ThdCtx.outstanding, ← hpolled, List.map_append, List.sum_append]
  exact Nat.le_add_left _ _

namespace DistributedRun

variable {δ : Type} [LinearOrder δ] [Inhabited δ] {r : DistributedRun δ} {n : ℕ}
  {s s' : DistState δ}

/-- Before the loop over the entry points nothing is outstanding. -/
lemma outstanding_start (h : r.start = .ok s) (sid : ServerId) : s.ctx.outstanding sid = 0 := by
  obtain ⟨hinv, -, -, -, -, ⟨rest, hp⟩, -⟩ :=
    inv_start serves r.thread.polls_nil r.thread.qps_idle h
  have hpolls := hinv.store.polls
  rw [hp] at hpolls
  rw [ThdCtx.outstanding, hpolls]
  rfl

/-- An expansion adds the reads of its batch. -/
lemma outstanding_expand (h : r.search n = .ok s) (hp : s.point = .head)
    (hc : s.bestLNodes.hasUnexpandedNode = true) (hstep : step r.ix r.call s = .ok s')
    (sid : ServerId) : ∃ b, s'.pushed = s.pushed ++ [b] ∧
      (r.ix.gstore.readsOn b sid).length
        = (r.ix.gstore.missesOn (traversal r.ix r.call s).itemScratch sid).length ∧
      s'.ctx.outstanding sid = s.ctx.outstanding sid + (r.ix.gstore.readsOn b sid).length := by
  obtain ⟨res, hcall, hpushed⟩ := expand_call h hp hc hstep
  refine ⟨_, hpushed, length_readsOn hcall sid, ?_⟩
  have hinv := inv_of_search h
  obtain ⟨t, ht, hinv', hmoves, -⟩ := step_spec hinv (by rw [hp]; exact Point.noConfusion)
  obtain rfl := Except.ok.inj (hstep.symm.trans ht)
  rcases hmoves.expands_or_quiet with ⟨-, -, ptrs, ctx, -, heq, hflight⟩ | hquiet
  · have hb : (traversal r.ix r.call s).itemScratch.zip res
        = (traversal r.ix r.call (tick r.ix s)).itemScratch.zip ptrs := by
      have hnew : s'.pushed
          = s.pushed ++ [(traversal r.ix r.call (tick r.ix s)).itemScratch.zip ptrs] :=
        congrArg DistState.pushed heq
      exact (List.cons.inj (List.append_cancel_left (hpushed.symm.trans hnew))).1
    have hhead : s.point.unwaited s.flight = s.flight := by rw [hp]; rfl
    have hpoint : s'.point.unwaited s'.flight = s'.flight := by rw [heq]; rfl
    have hpolls := hinv.store.polls
    have hpolls' := hinv'.store.polls
    rw [hhead] at hpolls
    rw [hpoint, hflight, ← hb, List.map_append, ← hpolls, List.map_singleton] at hpolls'
    rw [ThdCtx.outstanding, ThdCtx.outstanding, hpolls', List.map_append, List.sum_append,
      List.map_singleton, List.sum_singleton, pollsOf_eq]
  · have hlen := congrArg List.length (hpushed.symm.trans hquiet.pushed)
    rw [List.length_append] at hlen
    exact absurd hlen (by simp [tick])

end DistributedRun

section Queues

variable {δ : Type} [LinearOrder δ] [Inhabited δ] (r : DistributedRun δ)

/-- **The request arrays and the send queues of a query do not overflow**: in every state that
it reaches, no doorbell has filled more slots than there are, no more reads are outstanding on
a queue pair than it takes, and neither were when the entry points were read, all of whose
reads are posted before the first is polled for. -/
def DistributedRun.StaysInQueues : Prop :=
  ∀ n s, r.search n = .ok s → ∀ sid,
    (r.ix.gstore.readsOn r.entryBatch sid).length ≤ rcMaxSendSize ∧
      (∀ b ∈ s.pushed, (r.ix.gstore.readsOn b sid).length ≤ maxDoorbellSize) ∧
      s.ctx.outstanding sid ≤ rcMaxSendSize

variable {r}

/-- **When they do not overflow**: exactly if, at every call of `get_vertex_batch` and for every
server, the missed keys on it fit a doorbell, if there is one, and fit the send queue beside
what is outstanding. -/
theorem staysInQueues_iff : r.StaysInQueues ↔ ∀ ctx keys async, r.Calls ctx keys async → ∀ sid,
    (async = true → (r.ix.gstore.missesOn keys sid).length ≤ maxDoorbellSize) ∧
      ctx.outstanding sid + (r.ix.gstore.missesOn keys sid).length ≤ rcMaxSendSize := by
  constructor
  · intro hstays ctx keys async hcall sid
    cases hcall with
    | entry hids hlen =>
        obtain ⟨s, hs⟩ := exists_start DistributedRun.serves r.thread.polls_nil r.thread.qps_idle
          r.scratch r.stats hids hlen
        obtain ⟨ids', hids', -, res, hread, hentry, -⟩ := DistributedRun.start_call hs
        obtain rfl : _ = ids' := Except.ok.inj (hids.symm.trans hids')
        have hle := (hstays 0 s (DistributedRun.search_zero.trans hs) sid).1
        rw [hentry, length_readsOn hread] at hle
        have hzero : (resetThdCtx r.thread.ctx).outstanding sid = 0 := by
          rw [ThdCtx.outstanding, resetThdCtx, r.thread.polls_nil]
          rfl
        rw [hzero, Nat.zero_add]
        exact ⟨fun h => absurd h Bool.false_ne_true, hle⟩
    | @expand n s hs hp hc =>
        obtain ⟨s', hstep, -⟩ := DistributedRun.step_spec (DistributedRun.inv_of_search hs)
          (by rw [hp]; exact Point.noConfusion)
        obtain ⟨b, hpushed, hlen, hout⟩ := DistributedRun.outstanding_expand hs hp hc hstep sid
        have hs' := DistributedRun.search_succ hs (by rw [hp]; exact Point.noConfusion) hstep
        obtain ⟨-, hdoorbell, hsend⟩ := hstays _ s' hs' sid
        rw [hout, hlen] at hsend
        refine ⟨fun _ => ?_, hsend⟩
        rw [← hlen]
        refine hdoorbell b ?_
        rw [hpushed]
        exact List.mem_append_right _ (List.mem_singleton_self b)
  · intro hfits n s hs sid
    refine DistributedRun.search_induction (P := fun s =>
      (r.ix.gstore.readsOn r.entryBatch sid).length ≤ rcMaxSendSize ∧
        (∀ b ∈ s.pushed, (r.ix.gstore.readsOn b sid).length ≤ maxDoorbellSize) ∧
        s.ctx.outstanding sid ≤ rcMaxSendSize) (fun s hs => ?_) (fun n s s' hn _ hstep ih => ?_) hs
    · obtain ⟨ids, hids, hlen, res, hread, hentry, hpushed⟩ := DistributedRun.start_call hs
      have hle := (hfits _ _ _ (.entry hids hlen) sid).2
      rw [← length_readsOn hread, ← hentry] at hle
      refine ⟨(Nat.le_add_left _ _).trans hle, by simp [hpushed], ?_⟩
      rw [DistributedRun.outstanding_start hs]
      exact Nat.zero_le _
    · obtain ⟨hentry, hdoorbell, hsend⟩ := ih
      by_cases hp : s.point = .head ∧ s.bestLNodes.hasUnexpandedNode = true
      · obtain ⟨b, hpushed, hlen, hout⟩ :=
          DistributedRun.outstanding_expand hn hp.1 hp.2 hstep sid
        obtain ⟨hmax, hle⟩ := hfits _ _ _ (.expand hn hp.1 hp.2) sid
        refine ⟨hentry, fun b' hb' => ?_, ?_⟩
        · rw [hpushed] at hb'
          rcases List.mem_append.mp hb' with hb' | hb'
          · exact hdoorbell b' hb'
          · rw [List.mem_singleton.mp hb', hlen]
            exact hmax rfl
        · rw [hout, hlen]
          exact hle
      · have hq := DistributedRun.quiet_step hp hstep
        exact ⟨hentry, hq.pushed ▸ hdoorbell,
          (ThdCtx.outstanding_of_suffix hq.thdPolls sid).trans hsend⟩

end Queues

/-! ### A hub -/

section Hub

variable {δ : Type} [LinearOrder δ] [Inhabited δ]

/-- The first expansion of a search from one entry point, with room for another vertex. -/
lemma DistributedRun.exists_first_expansion {r : DistributedRun δ} {ep : Item}
    (hids : initIds r.ix r.call = .ok [ep]) (hrelax : r.call.relax = 0) (hL : 1 < r.scratch.L) :
    ∃ n s, r.search n = .ok s ∧ s.point = .head ∧ s.bestLNodes.hasUnexpandedNode = true ∧
      nextNode s = ep ∧ s.insertedIntoPoolRs = {ep} ∧
      s.bestLNodes.size < s.bestLNodes.capacity := by
  obtain ⟨s₀, hs₀⟩ := exists_start serves r.thread.polls_nil r.thread.qps_idle r.scratch r.stats
    hids (by rw [hrelax]; exact le_rfl)
  obtain ⟨hinv, -, hev, hexp, hpruned, ⟨rest, hp₀⟩, ids, hids', hins⟩ :=
    inv_start serves r.thread.polls_nil r.thread.qps_idle hs₀
  obtain rfl : [ep] = ids := Except.ok.inj (hids.symm.trans hids')
  have hsearch₀ : r.search 0 = .ok s₀ := search_zero.trans hs₀
  -- what is to be scored is the entry point, once
  obtain ⟨x, rfl, rfl⟩ : ∃ x, rest = [x] ∧ x.1 = ep := by
    have hpend : s₀.evaluated ++ s₀.pruned ++ s₀.point.pending r.ix.gstore.sid []
        = rest.map Prod.fst := by
      rw [hev, hpruned, hp₀, Point.pending, Point.current]
      exact List.append_nil _
    have hnodup := hinv.nodup
    have hmem := hinv.visited
    rw [hpend] at hnodup hmem
    have hperm : (rest.map Prod.fst).Perm [ep] := by
      refine (List.perm_ext_iff_of_nodup hnodup (List.nodup_singleton ep)).mpr fun w => ?_
      rw [← hmem w, hins, List.mem_toFinset]
    have hlist : rest.map Prod.fst = [ep] := List.perm_singleton.mp hperm
    obtain ⟨x, tail, rfl, hx, htail⟩ := List.map_eq_cons_iff.mp hlist
    rw [List.map_eq_nil_iff.mp htail]
    exact ⟨x, rfl, hx⟩
  have hstep₀ : step r.ix r.call s₀
      = .ok { Distributed.score r.ix r.call (tick r.ix s₀) x with point := .entry [] } := by
    rw [step, advance, show (tick r.ix s₀).point = .entry [x] from hp₀]
  set s₁ : DistState δ :=
    { Distributed.score r.ix r.call (tick r.ix s₀) x with point := .entry [] } with hs₁
  have hsearch₁ : r.search 1 = .ok s₁ :=
    search_succ hsearch₀ (by rw [hp₀]; exact Point.noConfusion) hstep₀
  have hsearch₂ : r.search 2 = .ok { tick r.ix s₁ with point := .head } :=
    search_succ hsearch₁ Point.noConfusion rfl
  have hev₂ : s₁.evaluated = [x.1] := by
    show s₀.evaluated ++ [x.1] = [x.1]
    rw [hev, List.nil_append]
  have hpool := (inv_of_search hsearch₂).pool
  change PoolInv r.ix r.call r.scratch.L _ _ s₁.bestLNodes s₁.evaluated s₀.expanded at hpool
  rw [hev₂, hexp] at hpool
  have hsize : s₁.bestLNodes.size = 1 := by
    have hcard : (keys r.ix r.call [x.1]).card = 1 := Finset.card_singleton _
    rw [hpool.holds.size_eq, hpool.capacity, hcard]
    exact min_eq_right hL.le
  have hc : s₁.bestLNodes.hasUnexpandedNode = true := by
    cases hc : s₁.bestLNodes.hasUnexpandedNode with
    | true => rfl
    | false =>
        have hall := hpool.holds.hasUnexpandedNode_eq_false.mp hc _
          (hpool.holds.key_mem_smallest (i := 0) (by omega))
        exact absurd hall (Finset.notMem_empty _)
  refine ⟨2, _, hsearch₂, rfl, hc, ?_, hins, ?_⟩
  · exact List.mem_singleton.mp (hpool.expand hc).1
  · show s₁.bestLNodes.size < s₁.bestLNodes.capacity
    rw [hsize, hpool.capacity]
    exact hL

omit [LinearOrder δ] [Inhabited δ] in
/-- While the pool has room nothing is pruned. -/
lemma Distributed.pruned_foldl {ix : ServerIndex} {c : SearchCall δ}
    {q : NeighborPriorityQueue Item δ} {entries : List (VertexId × Item)}
    (hpass : ∀ e ∈ entries, c.passes q e.1 = true) (t : Traversal) :
    (entries.foldl (visitNeighbor ix c q) t).pruned = t.pruned := by
  induction entries generalizing t with
  | nil => rfl
  | cons e entries ih =>
      rw [List.foldl_cons, ih fun e' he' => hpass e' (List.mem_cons_of_mem _ he')]
      rcases visitNeighbor_cases ix c q t e with ⟨-, heq⟩ | ⟨-, -, heq⟩ | ⟨-, -, hfail, -⟩
      · rw [heq]
      · rw [heq]
      · rw [hpass e (List.mem_cons_self ..)] at hfail
        exact absurd hfail (by decide)

omit [LinearOrder δ] [Inhabited δ] in
lemma DistributedRun.initIds_eq {r : DistributedRun δ} (hnum : r.call.adaptiveEpNum = 0) :
    initIds r.ix r.call = .ok [r.d.index.place r.d.b.baseGraphEP.toNat] := by
  rw [initIds, if_neg (by rw [hnum]; exact lt_irrefl 0)]
  exact congrArg (fun t => Except.ok [t]) Deployment.membktEP_eq

/-- **A doorbell takes what the entry point has**: all of its neighbours on another server, as
many as they are. -/
theorem DistributedRun.exists_readsOn_ge {r : DistributedRun δ} (vs : List VertexId)
    (sv : ServerId) (hnum : r.call.adaptiveEpNum = 0)
    (hrelax : r.call.relax = 0) (hL : 1 < r.scratch.L)
    (hpass : ∀ q vid, q.size < q.capacity → r.call.passes q vid = true)
    (hcache : r.d.rdmaCache.cacheTable = fun _ => none) (hnodup : vs.Nodup)
    (hvs : vs ⊆ r.d.b.adjacency r.d.b.baseGraphEP.toNat) (hsv : sv ≠ r.d.sid)
    (hplace : ∀ v ∈ vs, (r.d.index.place v.toNat).first = sv)
    (hep : ∀ v ∈ vs, v ≠ r.d.b.baseGraphEP) :
    ∃ n s, r.search n = .ok s ∧ ∃ b ∈ s.pushed, vs.length ≤ (r.ix.gstore.readsOn b sv).length := by
  obtain ⟨n, s, hs, hp, hc, hnode, hins, hroom⟩ :=
    exists_first_expansion (initIds_eq hnum) hrelax hL
  obtain ⟨s', hstep, -⟩ := step_spec (inv_of_search hs) (by rw [hp]; exact Point.noConfusion)
  obtain ⟨b, hpushed, hlen, -⟩ := outstanding_expand hs hp hc hstep sv
  refine ⟨n + 1, s', search_succ hs (by rw [hp]; exact Point.noConfusion) hstep, b,
    by rw [hpushed]; exact List.mem_append_right _ (List.mem_singleton_self b), ?_⟩
  have hlt : ∀ v ∈ vs, v.toNat < r.d.b.baseNum := fun v hv =>
    BaseSet.adjacency_lt r.d.b.entry_lt (hvs hv)
  have hinj : ∀ id < r.d.b.baseNum, ∀ id' < r.d.b.baseNum,
      r.d.index.place id = r.d.index.place id' → id = id' :=
    fun id hid id' hid' => place_injOn _ r.d.assigns hid hid'
  have hentries : r.ix.layout.neighborsDistributed (r.ix.gstore.record (nextNode s))
      = (r.d.b.adjacency r.d.b.baseGraphEP.toNat).map
          fun v => (v, r.d.index.place v.toNat) := by
    rw [hnode]
    exact (Deployment.neighborsDistributed_record (Cluster.place_mem r.d.b.entry_lt)).trans
      (Cluster.placed.neighbors_at _ r.d.b.entry_lt)
  obtain ⟨htrav, hall⟩ := traversed_traversal r.ix r.call s
  have hpruned : (traversal r.ix r.call s).pruned = [] :=
    Distributed.pruned_foldl (fun e _ => hpass s.bestLNodes.closestUnexpanded.2 e.1 hroom) _
  -- every one of the neighbours is missed
  have hsub : vs.map (fun v => r.d.index.place v.toNat)
      ⊆ r.ix.gstore.missesOn (traversal r.ix r.call s).itemScratch sv := by
    intro w hw
    obtain ⟨v, hv, rfl⟩ := List.mem_map.mp hw
    have hmem : r.d.index.place v.toNat ∈ (traversal r.ix r.call s).itemScratch := by
      have hins' : r.d.index.place v.toNat ∈ (traversal r.ix r.call s).inserted := by
        refine (hall _).mpr (Or.inr ?_)
        rw [hentries, List.map_map]
        exact List.mem_map.mpr ⟨v, hvs hv, rfl⟩
      rcases (htrav.mem_inserted _).mp hins' with hold | hnew
      · rw [hins, Finset.mem_singleton] at hold
        exact absurd (UInt32.toNat_inj.mp (hinj _ (hlt v hv) _ r.d.b.entry_lt hold)) (hep v hv)
      · rwa [hpruned, List.append_nil] at hnew
    have hmiss : r.d.index.place v.toNat
        ∈ r.ix.gstore.misses (traversal r.ix r.call s).itemScratch := by
      refine List.mem_filter.mpr ⟨hmem, ?_⟩
      have hne : (r.d.index.place v.toNat).first ≠ r.ix.gstore.sid := by
        rw [hplace v hv]
        exact hsv
      rw [decide_eq_true hne, show r.ix.gstore.rdmaCache.cacheTable = _ from hcache]
      rfl
    exact List.mem_filter.mpr ⟨hmiss, decide_eq_true (hplace v hv)⟩
  have hdistinct : (vs.map fun v => r.d.index.place v.toNat).Nodup :=
    hnodup.map_on fun v hv v' hv' heq =>
      UInt32.toNat_inj.mp (hinj _ (hlt v hv) _ (hlt v' hv') heq)
  rw [hlen, ← List.length_map (f := fun v => r.d.index.place v.toNat)]
  exact (List.subperm_of_subset hdistinct hsub).length_le

end Hub

/-- A vertex with 129 neighbours. -/
def hub : BaseSet where
  baseNum := 130
  dimension := 1
  baseData id := UInt32.ofNat id
  baseGraph := (List.range' 1 129).map UInt32.ofNat :: List.replicate 129 []
  baseGraphR := 129
  baseGraphEP := 0
  baseNum_pos := by decide
  baseNum_lt := by decide
  size_baseGraph := by decide +kernel
  degree_le := by decide +kernel
  baseGraphR_lt := by decide
  neighbor_lt := by decide +kernel
  entry_lt := by decide

/-- The vertex on one server, searched there, and its neighbours on another one. -/
def hubRun : DistributedRun ℚ where
  d :=
    { b := hub
      bucketCount := 2
      baseInBucket := 0 :: List.replicate 129 1
      elementSize_lt := by decide
      assigns := ⟨by decide, by decide +kernel⟩
      malloc := fun _ _ => 0
      mem := fun _ _ => 0
      sid := 0
      rdmaCache := ⟨fun _ => 0, fun _ => none⟩
      copies := by simp
      learnProjectionInBase := []
      projection_lt := by simp
      schedule := fun _ => [1] }
  thread := idleThread
  call := twoServersCall
  scratch := .reserve 2 Nat.two_pos
  stats := none

/-- The neighbours are on the other server. -/
lemma first_place_hub {id : ℕ} (hpos : 0 < id) (hlt : id < 130) :
    (hubRun.d.index.place id).first = 1 := by
  refine UInt8.toNat_inj.mp ?_
  calc (hubRun.d.index.place id).first.toNat
      = ((0 :: List.replicate 129 1 : List UInt32).getD id 0).toNat :=
        first_place _ hubRun.d.assigns hlt
    _ = 1 := by
        obtain ⟨k, rfl⟩ := Nat.exists_eq_add_of_le' hpos
        rw [List.getD_cons_succ, List.getD_eq_getElem _ _ (by rw [List.length_replicate]; omega),
          List.getElem_replicate]
        rfl

/-- The doorbell for the neighbours needs 129 slots. -/
theorem not_staysInQueues_hub : ¬ hubRun.StaysInQueues := by
  intro hstays
  have hlt : ∀ v ∈ (List.range' 1 129).map UInt32.ofNat, 0 < v.toNat ∧ v.toNat < 130 := by
    decide +kernel
  obtain ⟨n, s, hs, b, hb, hlen⟩ := DistributedRun.exists_readsOn_ge (r := hubRun)
    ((List.range' 1 129).map UInt32.ofNat) 1 rfl rfl (Nat.lt_succ_self 1)
    (fun q vid hroom => by
      show (decide (q.size < q.capacity) || _) = true
      rw [decide_eq_true hroom, Bool.true_or])
    rfl (by decide +kernel) (by decide +kernel) (by decide)
    (fun v hv => first_place_hub (hlt v hv).1 (hlt v hv).2)
    (fun v hv heq => by
      have hpos := (hlt v hv).1
      rw [heq] at hpos
      exact absurd hpos (by decide))
  have hle := (hstays n s hs 1).2.1 b hb
  rw [List.length_map, List.length_range'] at hlen
  exact absurd (hlen.trans hle) (by decide)

end RedAnns
