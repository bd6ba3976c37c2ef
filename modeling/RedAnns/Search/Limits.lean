import RedAnns.Search.Runs
import RedAnns.Store.Mem

/-!
What a search asks of the RDMA buffer of its thread and of its queue pairs.

`Calls` are the calls of `get_vertex_batch` that a run makes, each with the context of the
thread before it; `misses` are the keys of a batch that are neither local nor cached, those for
which a read is posted. The `assert`s of `get_vertex_batch` and of
`RdmaReadBatchDoorbellUnsignal_Async_Send` are not part of a release build.

* `slots_of_search`: the reads of a run go to consecutive slots from the start of the buffer
  on, and the cursor stands behind the last one.
* `staysInBuffer_iff`: the reads of a run stay inside the buffer if and only if every call
  leaves the cursor there.
-/

namespace RedAnns

open GStore Distributed

/-! ### The reads of a batch -/

namespace GStore

variable (gs : GStore)

/-- The keys of a batch that are neither local nor cached. -/
def misses (keyBatch : List Item) : List Item :=
  keyBatch.filter fun key =>
    decide (key.first ≠ gs.sid) && (gs.rdmaCache.cacheTable key).isNone

variable {gs} {ctx ctx' : ThdCtx} {keys : List Item} {res : List Ptr} {async : Bool}

/-- The reads of a batch go to consecutive slots, and to the servers of the missed keys. -/
lemma gather_fetches (gs : GStore) (keys : List Item) (buf : ℕ) :
    (gs.gather keys buf).2.map Fetch.localBuf
        = (List.range (gs.misses keys).length).map (fun i => buf + gs.vertexSize * i) ∧
      (gs.gather keys buf).2.map Fetch.nid = (gs.misses keys).map Item.first := by
  induction keys generalizing buf with
  | nil => exact ⟨rfl, rfl⟩
  | cons key keys ih =>
      by_cases hsid : key.first = gs.sid
      · have hmiss : gs.misses (key :: keys) = gs.misses keys :=
          List.filter_cons_of_neg (by simp [hsid])
        rw [hmiss]
        simp only [gather, if_pos hsid]
        exact ih buf
      · cases hcache : gs.rdmaCache.cacheTable key with
        | some cached =>
            have hmiss : gs.misses (key :: keys) = gs.misses keys :=
              List.filter_cons_of_neg (by simp [hcache])
            rw [hmiss]
            simp only [gather, if_neg hsid, hcache]
            exact ih buf
        | none =>
            have hmiss : gs.misses (key :: keys) = key :: gs.misses keys :=
              List.filter_cons_of_pos (by simp [hsid, hcache])
            obtain ⟨hbuf, hnid⟩ := ih (buf + gs.vertexSize)
            rw [hmiss]
            simp only [gather, if_neg hsid, hcache, List.map_cons, hbuf, hnid, List.length_cons,
              List.range_succ_eq_map, List.map_map, Nat.mul_zero, Nat.add_zero, and_true]
            refine congrArg _ (List.map_congr_left fun i _ => ?_)
            show buf + gs.vertexSize + gs.vertexSize * i = buf + gs.vertexSize * (i + 1)
            rw [Nat.mul_succ]
            omega

/-- What a call hands out, and how it moves the cursor. -/
lemma getVertexBatch_ok (h : gs.getVertexBatch ctx keys async = .ok (res, ctx')) :
    res = (gs.gather keys ctx.bufUsedSz).1 ∧
      ctx'.bufUsedSz = ctx.bufUsedSz + gs.vertexSize * (gs.misses keys).length := by
  have hlen : (gs.gather keys ctx.bufUsedSz).2.length = (gs.misses keys).length := by
    have hmap := congrArg List.length (gs.gather_fetches keys ctx.bufUsedSz).2
    rwa [List.length_map, List.length_map] at hmap
  rw [← hlen]
  rw [getVertexBatch] at h
  simp only at h
  split_ifs at h with hasync hne hne
  · obtain ⟨rfl, rfl⟩ := Prod.mk.inj (Except.ok.inj h)
    exact ⟨rfl, rfl⟩
  · obtain ⟨rfl, rfl⟩ := Prod.mk.inj (Except.ok.inj h)
    exact ⟨rfl, rfl⟩
  · cases hread : rdmaReadBatch gs.hw gs.servers gs.vertexSize (gs.gather keys ctx.bufUsedSz).2
        ctx.net with
    | error stop => rw [hread] at h; cases h
    | ok net =>
        rw [hread] at h
        obtain ⟨rfl, rfl⟩ := Prod.mk.inj (Except.ok.inj h)
        exact ⟨rfl, rfl⟩
  · obtain ⟨rfl, rfl⟩ := Prod.mk.inj (Except.ok.inj h)
    exact ⟨rfl, rfl⟩

/-- The slots that a call hands out. -/
lemma localBuf_of_getVertexBatch (h : gs.getVertexBatch ctx keys async = .ok (res, ctx')) :
    (gs.fetchesOf (keys.zip res)).map Fetch.localBuf
      = (List.range (gs.misses keys).length).map fun i => ctx.bufUsedSz + gs.vertexSize * i := by
  obtain ⟨rfl, -⟩ := getVertexBatch_ok h
  rw [← (gs.gather_spec keys ctx.bufUsedSz).2.1]
  exact (gs.gather_fetches keys ctx.bufUsedSz).1

end GStore

/-! ### The calls of a run -/

section Quiet

variable {δ : Type} [LinearOrder δ] [Inhabited δ] {ix : ServerIndex} {c : SearchCall δ}
  {s s' : DistState δ}

/-- A step that posts nothing: at most it takes the oldest polls. -/
structure PostsNothing (s s' : DistState δ) : Prop where
  pushed : s'.pushed = s.pushed
  bufUsedSz : s'.ctx.bufUsedSz = s.ctx.bufUsedSz
  thdPolls : s'.ctx.thdPolls <:+ s.ctx.thdPolls

lemma postsNothing_score (x : Item × Ptr) (p : Point) :
    PostsNothing s { Distributed.score ix c s x with point := p } := by
  have hctx : (Distributed.score ix c s x).ctx.bufUsedSz = s.ctx.bufUsedSz ∧
      (Distributed.score ix c s x).ctx.thdPolls = s.ctx.thdPolls := by
    simp only [Distributed.score]
    split_ifs
    · rw [updateThdCache]
      split_ifs
      · exact ⟨rfl, rfl⟩
      · exact ⟨rfl, rfl⟩
    · exact ⟨rfl, rfl⟩
  exact ⟨rfl, hctx.1, hctx.2 ▸ List.suffix_refl _⟩

omit [LinearOrder δ] [Inhabited δ] in
lemma postsNothing_awaitFront {draining : Bool} (h : awaitFront ix draining s = .ok s') :
    PostsNothing s s' := by
  rw [awaitFront] at h
  split at h
  · rw [getVertexBatchWait] at h
    cases hpolls : s.ctx.thdPolls with
    | nil =>
        rw [hpolls] at h
        cases h
    | cons polls thdPolls =>
        rw [hpolls] at h
        cases hwait : rdmaReadBatchUnsignalAsyncWait ix.gstore.hw ix.gstore.servers polls
            s.ctx.net with
        | error stop =>
            simp only [hwait] at h
            cases h
        | ok net =>
            simp only [hwait] at h
            obtain rfl := Except.ok.inj h
            exact ⟨rfl, rfl, hpolls ▸ List.suffix_cons polls thdPolls⟩
  · cases h

/-- **A step that expands no node posts nothing.** -/
lemma postsNothing_advance (h : advance ix c s = .ok s')
    (hp : ¬(s.point = .head ∧ s.bestLNodes.hasUnexpandedNode = true)) : PostsNothing s s' := by
  have hsame : ∀ t : DistState δ, t.pushed = s.pushed → t.ctx = s.ctx → PostsNothing s t :=
    fun t hpushed hctx => ⟨hpushed, by rw [hctx], hctx ▸ List.suffix_refl _⟩
  rw [advance] at h
  split at h
  · rw [← Except.ok.inj h]
    exact hsame _ rfl rfl
  · rw [← Except.ok.inj h]
    exact postsNothing_score _ _
  · next hhead =>
      rw [if_neg fun hc => hp ⟨hhead, hc⟩] at h
      rw [← Except.ok.inj h]
      exact hsame _ rfl rfl
  · split_ifs at h
    · rw [← Except.ok.inj h]
      exact hsame _ rfl rfl
    · exact postsNothing_awaitFront h
  · split_ifs at h
    · rw [← Except.ok.inj h]
      exact hsame _ rfl rfl
    · rw [← Except.ok.inj h]
      exact postsNothing_score _ _
  · rw [← Except.ok.inj h]
    exact hsame _ rfl rfl
  · split_ifs at h
    · rw [← Except.ok.inj h]
      exact hsame _ rfl rfl
    · rw [← Except.ok.inj h]
      exact postsNothing_score _ _
  · split_ifs at h
    · rw [← Except.ok.inj h]
      exact hsame _ rfl rfl
    · exact postsNothing_awaitFront h
  · rw [← Except.ok.inj h]
    exact hsame _ rfl rfl

end Quiet

namespace DistributedRun

variable {δ : Type} [LinearOrder δ] [Inhabited δ] (r : DistributedRun δ)

/-- **The calls of `get_vertex_batch` of a run**: with the context of the thread, the keys, and
whether the call is asynchronous. The first one reads the entry points, and every expansion of
a node makes another one. -/
inductive Calls : ThdCtx → List Item → Bool → Prop
  | entry {ids : List Item} (hids : initIds r.ix r.call = .ok ids)
      (hlen : r.call.relax + 1 ≤ ids.length) :
      Calls (resetThdCtx r.thread.ctx) (visitAll ∅ ids).2 false
  | expand {n : ℕ} {s : DistState δ} (hs : r.search n = .ok s) (hp : s.point = .head)
      (hc : s.bestLNodes.hasUnexpandedNode = true) :
      Calls (tick r.ix s).ctx (traversal r.ix r.call s).itemScratch true

/-- The batch of the entry points. -/
def entryBatch : Batch :=
  match r.start.map DistState.point with
  | .ok (.entry rest) => rest
  | _ => []

variable {r} {n : ℕ} {s s' : DistState δ}

omit [LinearOrder δ] [Inhabited δ] in
/-- A search that starts has called `get_vertex_batch` for its entry points. -/
lemma start_call (h : r.start = .ok s) : ∃ ids, initIds r.ix r.call = .ok ids ∧
    r.call.relax + 1 ≤ ids.length ∧ ∃ res,
      r.ix.gstore.getVertexBatch (resetThdCtx r.thread.ctx) (visitAll ∅ ids).2 false
        = .ok (res, s.ctx) ∧
      r.entryBatch = (visitAll ∅ ids).2.zip res ∧ s.pushed = [] := by
  have hentry : r.entryBatch = match Except.ok (ε := Stop) s.point with
      | .ok (.entry rest) => rest | _ => [] := by
    rw [entryBatch, h]
    rfl
  rw [start, Distributed.start] at h
  cases hids : initIds r.ix r.call with
  | error stop =>
      rw [hids] at h
      cases h
  | ok ids =>
      rw [hids] at h
      simp only [bind, Except.bind] at h
      split_ifs at h with hlen
      cases hread : r.ix.gstore.getVertexBatch (resetThdCtx r.thread.ctx) (visitAll ∅ ids).2
          false with
      | error stop =>
          rw [hread] at h
          cases h
      | ok x =>
          rw [hread] at h
          obtain rfl := Except.ok.inj h
          exact ⟨ids, rfl, not_lt.mp hlen, x.1, hread, hentry, rfl⟩

/-- An expansion has called `get_vertex_batch` for the neighbours. -/
lemma expand_call (h : r.search n = .ok s) (hp : s.point = .head)
    (hc : s.bestLNodes.hasUnexpandedNode = true) (hstep : step r.ix r.call s = .ok s') :
    ∃ res, r.ix.gstore.getVertexBatch (tick r.ix s).ctx (traversal r.ix r.call s).itemScratch
        true = .ok (res, s'.ctx) ∧
      s'.pushed = s.pushed ++ [(traversal r.ix r.call s).itemScratch.zip res] := by
  rw [step, advance, show (tick r.ix s).point = .head from hp] at hstep
  simp only [show (tick r.ix s).bestLNodes.hasUnexpandedNode = true from hc, if_true] at hstep
  rw [(inv_of_search h).tick.issue_eq serves hp hc] at hstep
  cases hcall : r.ix.gstore.getVertexBatch (tick r.ix s).ctx
      (traversal r.ix r.call (tick r.ix s)).itemScratch true with
  | error stop =>
      rw [hcall] at hstep
      cases hstep
  | ok x =>
      rw [hcall] at hstep
      obtain rfl := Except.ok.inj hstep
      exact ⟨x.1, hcall, rfl⟩

lemma quiet_step (hp : ¬(s.point = .head ∧ s.bestLNodes.hasUnexpandedNode = true))
    (hstep : step r.ix r.call s = .ok s') : PostsNothing s s' := by
  have h : PostsNothing (tick r.ix s) s' := postsNothing_advance hstep hp
  exact ⟨h.pushed, h.bufUsedSz, h.thdPolls⟩

/-! ### The buffer of the thread -/

/-- The reads that a search has posted. -/
def fetches (r : DistributedRun δ) (s : DistState δ) : List Fetch :=
  (r.entryBatch :: s.pushed).flatMap r.ix.gstore.fetchesOf

omit [LinearOrder δ] [Inhabited δ] in
lemma map_range_append (sz k m : ℕ) :
    (List.range k).map (sz * ·) ++ (List.range m).map (fun i => sz * k + sz * i)
      = (List.range (k + m)).map (sz * ·) := by
  rw [List.range_add, List.map_append, List.map_map]
  refine congrArg _ (List.map_congr_left fun i _ => ?_)
  exact (Nat.mul_add sz k i).symm

/-- **The slots of a run**: the reads go to consecutive slots from the start of the buffer on,
and the cursor stands behind the last one. -/
theorem slots_of_search (h : r.search n = .ok s) : ∃ k,
    (r.fetches s).map Fetch.localBuf = (List.range k).map (r.ix.gstore.vertexSize * ·) ∧
      s.ctx.bufUsedSz = r.ix.gstore.vertexSize * k := by
  refine search_induction (P := fun s => ∃ k, (r.fetches s).map Fetch.localBuf
    = (List.range k).map (r.ix.gstore.vertexSize * ·) ∧
      s.ctx.bufUsedSz = r.ix.gstore.vertexSize * k) (fun s hs => ?_)
    (fun n s s' hn _ hstep ih => ?_) h
  · obtain ⟨ids, -, -, res, hcall, hentry, hpushed⟩ := start_call hs
    refine ⟨(r.ix.gstore.misses (visitAll ∅ ids).2).length, ?_, ?_⟩
    · rw [fetches, hpushed, hentry, List.flatMap_singleton, localBuf_of_getVertexBatch hcall]
      simp only [resetThdCtx, Nat.zero_add]
    · rw [(getVertexBatch_ok hcall).2, resetThdCtx, Nat.zero_add]
  · obtain ⟨k, hslots, hused⟩ := ih
    by_cases hp : s.point = .head ∧ s.bestLNodes.hasUnexpandedNode = true
    · obtain ⟨res, hcall, hpushed⟩ := expand_call hn hp.1 hp.2 hstep
      have hcur : (tick r.ix s).ctx.bufUsedSz = r.ix.gstore.vertexSize * k := hused
      refine ⟨k + (r.ix.gstore.misses (traversal r.ix r.call s).itemScratch).length, ?_, ?_⟩
      · rw [fetches, hpushed, ← List.cons_append, List.flatMap_append, List.flatMap_singleton,
          List.map_append, ← fetches, hslots, localBuf_of_getVertexBatch hcall, hcur,
          map_range_append]
      · rw [(getVertexBatch_ok hcall).2, hcur, Nat.mul_add]
    · have hq := quiet_step hp hstep
      exact ⟨k, by rw [fetches, hq.pushed]; exact hslots, hq.bufUsedSz.trans hused⟩

end DistributedRun

open Registered

/-- Reads of `sz` bytes into the buffer of a thread stay inside it, and are apart. -/
structure InsideBuffer (mem : Mem) (tid sz : ℕ) (destinations : List ℕ) : Prop where
  inside : ∀ d ∈ destinations, (mem.buffer tid).toNat ≤ d ∧
    d + sz ≤ (mem.buffer tid).toNat + mem.bufSz.toNat
  apart : destinations.Pairwise fun d d' => d + sz ≤ d' ∨ d' + sz ≤ d

section Buffer

variable {δ : Type} [LinearOrder δ] [Inhabited δ] (r : DistributedRun δ) (mem : Mem) (tid : ℕ)

/-- The destinations of the reads that a search of the thread `tid` has posted. -/
def DistributedRun.destinations (s : DistState δ) : List ℕ :=
  (r.fetches s).map fun f => (mem.buffer tid).toNat + f.localBuf

/-- **The reads of a query stay in the buffer of its thread**: in every state that it reaches,
the destinations posted so far are inside and apart. -/
def DistributedRun.StaysInBuffer : Prop :=
  ∀ n s, r.search n = .ok s →
    InsideBuffer mem tid r.ix.gstore.vertexSize (r.destinations mem tid s)

variable {r mem tid} {n : ℕ} {s : DistState δ}

/-- The destinations are apart in any case, and they are inside as long as the cursor is. -/
lemma insideBuffer_destinations (h : r.search n = .ok s) :
    InsideBuffer mem tid r.ix.gstore.vertexSize (r.destinations mem tid s)
      ↔ s.ctx.bufUsedSz ≤ mem.bufSz.toNat := by
  obtain ⟨k, hslots, hused⟩ := DistributedRun.slots_of_search h
  have hds : r.destinations mem tid s
      = (List.range k).map fun i => (mem.buffer tid).toNat + r.ix.gstore.vertexSize * i := by
    have hmap := congrArg (List.map ((mem.buffer tid).toNat + ·)) hslots
    rwa [List.map_map, List.map_map] at hmap
  rw [hused]
  constructor
  · intro hinside
    cases k with
    | zero => exact Nat.zero_le _
    | succ k =>
        have hlast : (mem.buffer tid).toNat + r.ix.gstore.vertexSize * k ∈
            r.destinations mem tid s := by
          rw [hds]
          exact List.mem_map.mpr ⟨k, List.mem_range.mpr (Nat.lt_succ_self k), rfl⟩
        have hend := (hinside.inside _ hlast).2
        rw [Nat.mul_succ]
        omega
  · intro hle
    refine ⟨fun d hd => ?_, ?_⟩
    · rw [hds] at hd
      obtain ⟨i, hi, rfl⟩ := List.mem_map.mp hd
      have hmul := Nat.mul_le_mul_left r.ix.gstore.vertexSize
        (Nat.succ_le_of_lt (List.mem_range.mp hi))
      rw [Nat.mul_succ] at hmul
      exact ⟨Nat.le_add_right _ _, by omega⟩
    · rw [hds, List.pairwise_map]
      refine List.pairwise_lt_range.imp fun {i j} hij => Or.inl ?_
      have hmul := Nat.mul_le_mul_left r.ix.gstore.vertexSize (Nat.succ_le_of_lt hij)
      rw [Nat.mul_succ] at hmul
      omega

/-- **When the reads of a query stay in the buffer of its thread**: exactly if, at every call
of `get_vertex_batch`, the used part of the buffer and the missed keys of the batch fit. -/
theorem staysInBuffer_iff : r.StaysInBuffer mem tid ↔ ∀ ctx keys async, r.Calls ctx keys async →
    ctx.bufUsedSz + r.ix.gstore.vertexSize * (r.ix.gstore.misses keys).length ≤
      mem.bufSz.toNat := by
  constructor
  · intro hstays ctx keys async hcall
    cases hcall with
    | entry hids hlen =>
        obtain ⟨s, hs⟩ := exists_start DistributedRun.serves r.thread.polls_nil r.thread.qps_idle
          r.scratch r.stats hids hlen
        obtain ⟨ids', hids', -, res, hread, -⟩ := DistributedRun.start_call hs
        obtain rfl : _ = ids' := Except.ok.inj (hids.symm.trans hids')
        have hle := (insideBuffer_destinations (DistributedRun.search_zero.trans hs)).mp
          (hstays 0 s (DistributedRun.search_zero.trans hs))
        rwa [(getVertexBatch_ok hread).2] at hle
    | @expand n s hs hp hc =>
        obtain ⟨s', hstep, -⟩ := DistributedRun.step_spec (DistributedRun.inv_of_search hs)
          (by rw [hp]; exact Point.noConfusion)
        obtain ⟨res, hcall, -⟩ := DistributedRun.expand_call hs hp hc hstep
        have hs' := DistributedRun.search_succ hs (by rw [hp]; exact Point.noConfusion) hstep
        have hle := (insideBuffer_destinations hs').mp (hstays _ s' hs')
        rwa [(getVertexBatch_ok hcall).2] at hle
  · intro hfits n s hs
    refine (insideBuffer_destinations hs).mpr ?_
    refine DistributedRun.search_induction (P := fun s => s.ctx.bufUsedSz ≤ mem.bufSz.toNat)
      (fun s hs => ?_) (fun n s s' hn _ hstep ih => ?_) hs
    · obtain ⟨ids, hids, hlen, res, hread, -⟩ := DistributedRun.start_call hs
      rw [(getVertexBatch_ok hread).2]
      exact hfits _ _ _ (.entry hids hlen)
    · by_cases hp : s.point = .head ∧ s.bestLNodes.hasUnexpandedNode = true
      · obtain ⟨res, hcall, -⟩ := DistributedRun.expand_call hn hp.1 hp.2 hstep
        rw [(getVertexBatch_ok hcall).2]
        exact hfits _ _ _ (.expand hn hp.1 hp.2)
      · rw [(DistributedRun.quiet_step hp hstep).bufUsedSz]
        exact ih

end Buffer

/-- The two long vectors on two servers, searched from the one that does not store the entry
point. -/
def longVectorsRun : DistributedRun ℚ where
  d :=
    { b := longVectors
      bucketCount := 2
      baseInBucket := [0, 1]
      elementSize_lt := by decide
      assigns := ⟨by decide, by decide⟩
      malloc := fun _ _ => 0
      mem := fun _ _ => 0
      sid := 1
      rdmaCache := ⟨fun _ => 0, fun _ => none⟩
      copies := by simp
      learnProjectionInBase := []
      projection_lt := by simp
      schedule := fun _ => [0] }
  thread := idleThread
  call := twoServersCall
  scratch := .reserve 2 Nat.two_pos
  stats := none

/-- The memory of two servers of one thread with `rdma_buf_size_mb` 1. -/
def smallBufferMem : Mem :=
  (Mem.new (.ofGlobals ⟨true, 20, 1, 16⟩) 2 1 ⟨([] : List Empty), Nat.two_pow_pos 31⟩ Empty.elim
    fun _ => 4096).1

/-- With `rdma_buf_size_mb` 1 the record of the entry point does not fit the buffer. -/
theorem not_staysInBuffer_longVectors : ¬ longVectorsRun.StaysInBuffer smallBufferMem 0 := by
  intro hstays
  obtain ⟨s, hs⟩ := exists_start (DistributedRun.serves (r := longVectorsRun))
    longVectorsRun.thread.polls_nil longVectorsRun.thread.qps_idle longVectorsRun.scratch
    longVectorsRun.stats
    (show initIds longVectorsRun.ix twoServersCall = .ok [longVectorsRun.ix.membktEP] from rfl)
    le_rfl
  obtain ⟨ids, hids, -, res, hread, -⟩ := DistributedRun.start_call (r := longVectorsRun) hs
  obtain rfl : [longVectorsRun.ix.membktEP] = ids := Except.ok.inj hids
  have hsearch := DistributedRun.search_zero.trans hs
  have hle := (insideBuffer_destinations hsearch).mp (hstays 0 s hsearch)
  rw [(getVertexBatch_ok hread).2] at hle
  have hmiss : (longVectorsRun.ix.gstore.misses
      (visitAll ∅ [longVectorsRun.ix.membktEP]).2).length = 1 := by decide
  rw [hmiss] at hle
  revert hle
  decide

end RedAnns
