import RedAnns.Search.Runs

/-!
What the distributed search does with the records it reads.

* `DistributedRun.scoredOnce`: every vertex of a pushed batch is scored once its batch is done
  with, and none is scored twice.
* `noRecordUsedEarly`: the rings and the polls stay in lockstep, batches are waited for in the
  order in which they were pushed, what is scored has arrived, and the search leaves nothing
  outstanding.
* `thdCacheNeverMisses`: every remote entry of the pool is recorded, behind a pointer to bytes
  that stay those of its record; so no `get_vertex` of the search throws, and the labels that
  are written are those of the pool.
-/

namespace RedAnns

open GStore Distributed

section Scored

variable {δ : Type}

/-- The vertices of the pushed batches are marked once; they are scored or still to be scored,
and those of the batches that are done with are scored. -/
structure ScoredOnce (sid : ServerId) (s : DistState δ) (batches : List Batch) : Prop where
  nodup : (s.pushed.flatten.map Prod.fst).Nodup
  marked : ∀ x ∈ s.pushed.flatten,
    x.1 ∈ s.evaluated ++ s.point.pending sid batches ∧ x.1 ∈ s.insertedIntoPoolRs
  scored : ∀ x ∈ s.scored.flatten, x.1 ∈ s.evaluated

/-- The remote vertices of batches are vertices of them. -/
lemma mem_of_mem_remotes {sid : ServerId} {batches : List Batch} {w : Item}
    (h : w ∈ batches.flatMap (remotes sid)) : w ∈ batches.flatten.map Prod.fst := by
  obtain ⟨b, hb, hw⟩ := List.mem_flatMap.mp h
  obtain ⟨x, hx, rfl⟩ := List.mem_map.mp (List.mem_of_mem_filter hw)
  exact List.mem_map_of_mem (List.mem_flatten.mpr ⟨b, hb, hx⟩)

variable [LinearOrder δ] [Inhabited δ] {ix : ServerIndex} {c : SearchCall δ} {R : Finset Item}
  {L : ℕ} {s s' : DistState δ} {batches batches' : List Batch}

/-- Every step keeps it. -/
lemma ScoredOnce.moves (hinv : Inv ix R c L s batches) (hinv' : Inv ix R c L s' batches')
    (hm : Moves ix c s batches s' batches') (h : ScoredOnce ix.gstore.sid s batches) :
    ScoredOnce ix.gstore.sid s' batches' := by
  rcases hm.expands_or_quiet with ⟨hp, -, ptrs, ctx, hlen, rfl, rfl⟩ | hq
  · obtain ⟨htrav, -⟩ := traversed_traversal ix c s
    have hfst : ((traversal ix c s).itemScratch.zip ptrs).map Prod.fst
        = (traversal ix c s).itemScratch := List.map_fst_zip hlen.ge
    have hpushed : (issued ix c s ptrs ctx).pushed.flatten
        = s.pushed.flatten ++ (traversal ix c s).itemScratch.zip ptrs := by
      show (s.pushed ++ [_]).flatten = _
      rw [List.flatten_append, List.flatten_singleton]
    have hnew : ∀ w ∈ (traversal ix c s).itemScratch, w ∉ s.insertedIntoPoolRs := fun w hw =>
      htrav.fresh w (List.mem_append_left _ hw)
    refine ⟨?_, fun x hx => ?_, h.scored⟩
    · rw [hpushed, List.map_append, hfst]
      refine List.nodup_append.mpr ⟨h.nodup, (List.nodup_append.mp htrav.nodup).1, ?_⟩
      rintro w hw w' hw' rfl
      obtain ⟨x, hx, rfl⟩ := List.mem_map.mp hw
      exact hnew _ hw' (h.marked x hx).2
    · rw [hpushed] at hx
      rcases List.mem_append.mp hx with hx | hx
      · obtain ⟨hmem, hins⟩ := h.marked x hx
        rw [hp] at hmem
        refine ⟨?_, (htrav.mem_inserted x.1).mpr (Or.inl hins)⟩
        rcases List.mem_append.mp hmem with hmem | hmem
        · exact List.mem_append_left _ hmem
        · refine List.mem_append_right _ (List.mem_append_right _ ?_)
          show x.1 ∈ (batches ++ [_]).flatMap _
          rw [List.flatMap_append]
          exact List.mem_append_left _ hmem
      · have hscratch := (List.of_mem_zip hx).1
        refine ⟨List.mem_append_right _ ?_,
          (htrav.mem_inserted x.1).mpr (Or.inr (List.mem_append_left _ hscratch))⟩
        have hsplit := locals_append_remotes ix.gstore.sid ((traversal ix c s).itemScratch.zip ptrs)
        rw [hfst] at hsplit
        rcases List.mem_append.mp (hsplit.mem_iff.mpr hscratch) with hmem | hmem
        · exact List.mem_append_left _ hmem
        · refine List.mem_append_right _ ?_
          show x.1 ∈ (batches ++ [_]).flatMap _
          rw [List.flatMap_append, List.flatMap_singleton]
          exact List.mem_append_right _ hmem
  · refine ⟨hq.pushed ▸ h.nodup, fun x hx => ?_, fun x hx => ?_⟩
    · rw [hq.pushed] at hx
      rw [hq.inserted, hq.perm.mem_iff]
      exact h.marked x hx
    · have hmem : x.1 ∈ s'.evaluated ++ s'.point.pending ix.gstore.sid batches' := by
        refine hq.perm.mem_iff.mpr (h.marked x ?_).1
        rw [← hq.pushed, hinv'.log, List.flatten_append]
        exact List.mem_append_left _ hx
      rcases hq.batches_eq with heq | ⟨b, heq, hpend⟩
      · -- no batch is done with, and what was scored stays scored
        have hscored : s'.scored = s.scored := by
          have hlog := hinv'.log
          rw [hq.pushed, hinv.log, heq] at hlog
          exact (List.append_cancel_right hlog).symm
        rw [hscored] at hx
        exact hq.evaluated.subset (h.scored x hx)
      · rw [hpend] at hmem
        refine (List.mem_append.mp hmem).resolve_right fun hrem => ?_
        have hnodup := h.nodup
        rw [← hq.pushed, hinv'.log, List.flatten_append, List.map_append,
          List.nodup_append] at hnodup
        exact hnodup.2.2 _ (List.mem_map_of_mem hx) _ (mem_of_mem_remotes hrem) rfl

/-! ### Reads and batches -/

/-- The two rings, as batches. -/
def DistState.rings (s : DistState δ) : List Batch :=
  List.zipWith List.zip s.queueItemBatch s.queueVertexBatch

/-- The two rings and the polls of the thread are in lockstep, and no push overwrites a batch:
what was pushed is what was scored and what the rings hold, in this order. -/
structure InLockstep (gs : GStore) (relax : ℕ) (s : DistState δ) : Prop where
  lengths : s.queueItemBatch.map List.length = s.queueVertexBatch.map List.length
  room : s.queueItemBatch.length ≤ relax + 1
  push_room : s.point = .head → s.queueItemBatch.length < relax + 1
  fifo : s.pushed = s.scored ++ s.rings
  polls : s.ctx.thdPolls = (s.point.unwaited s.rings).map gs.pollsOf

/-- The read of a vertex is complete: the bytes behind its pointer are those of the record, its
request is posted no more, and no posted request writes there. -/
structure ReadComplete (gs : GStore) (ctx : ThdCtx) (x : Item × Ptr) : Prop where
  bytes : ∀ i < gs.vertexSize, gs.view ctx x.2 i = gs.record x.1 i
  not_posted : ∀ off, x.2 = .buffer off → ∀ sv, ∀ req ∈ (ctx.net.qps sv).posted,
    req.localBuf ≠ off
  untouched : ∀ off, x.2 = .buffer off → ∀ sv, ∀ req ∈ (ctx.net.qps sv).posted,
    ∀ i < gs.vertexSize, off + i < req.localBuf ∨ req.localBuf + req.length ≤ off + i

/-- What the loops over vertices have still to score is complete, in the loop over the remote
vertices of the front batch the whole batch is, and no remote vertex of a batch that is not
waited for has been scored. -/
structure UsesCompleteReads (gs : GStore) (s : DistState δ) : Prop where
  entry : ∀ rest, s.point = .entry rest → ∀ x ∈ rest, ReadComplete gs s.ctx x
  own : ∀ rest, s.point = .scoreLocal rest → ∀ x ∈ rest, x.1.first = gs.sid →
    ReadComplete gs s.ctx x
  front : ∀ draining rest, s.point = .scoreRemote draining rest →
    ∃ b bs, s.rings = b :: bs ∧ rest <:+ b ∧ ∀ x ∈ b, ReadComplete gs s.ctx x
  unwaited : ∀ b ∈ s.point.unwaited s.rings, ∀ x ∈ b, x.1.first ≠ gs.sid → x.1 ∉ s.evaluated

/-- Nothing is left: no polls, no posted request and no completion, no batch. -/
structure NothingLeft (s : DistState δ) : Prop where
  polls : s.ctx.thdPolls = []
  qps : ∀ sv, s.ctx.net.qps sv = CompletionQueue.idle
  items : s.queueItemBatch = []
  vertices : s.queueVertexBatch = []
  scored : s.scored = s.pushed

/-- What has arrived is complete. -/
lemma Serves.readComplete (hs : Serves ix R) {ctx : ThdCtx} {u : List Batch}
    (hstore : ix.gstore.StoreInv ctx u) {x : Item × Ptr}
    (h : ix.gstore.Arrived ctx u x.1 x.2) : ReadComplete ix.gstore ctx x := by
  have huntouched : ∀ off, x.2 = .buffer off → ∀ sv, ∀ req ∈ (ctx.net.qps sv).posted,
      ∀ i < ix.gstore.vertexSize,
      off + i < req.localBuf ∨ req.localBuf + req.length ≤ off + i := by
    intro off hoff sv req hreq i hi
    rw [hoff] at h
    exact h.not_posted hstore hreq hi
  refine ⟨fun i hi => h.view_eq hs.copies hi, fun off hoff sv req hreq heq => ?_, huntouched⟩
  have hpos : 0 < ix.gstore.vertexSize := by
    have hfit := hs.fits _ hs.entry_mem
    rw [hs.size_eq]
    omega
  obtain ⟨b, hb, y, hy, -, hlen, -⟩ := mem_groups (hstore.outstanding.mem_of_posted hreq)
  have := huntouched off hoff sv req hreq 0 hpos
  omega

namespace Distributed

lemma Inv.rings_eq (h : Inv ix R c L s batches) : s.rings = batches := by
  rw [DistState.rings, h.items, h.vertices]
  clear h
  induction batches with
  | nil => rfl
  | cons b bs ih =>
      rw [List.map_cons, List.map_cons, List.zipWith_cons_cons, zip_map_fst_snd, ih]

/-- The invariant keeps the rings and the polls in lockstep. -/
lemma Inv.inLockstep (h : Inv ix R c L s batches) : InLockstep ix.gstore c.relax s := by
  have hcount := h.countdown
  have hlength : s.queueItemBatch.length = batches.length := by rw [h.items, List.length_map]
  refine ⟨?_, ?_, fun hp => ?_, ?_, ?_⟩
  · rw [h.items, h.vertices, List.map_map, List.map_map]
    exact List.map_congr_left fun b _ => by
      show (b.map Prod.fst).length = (b.map Prod.snd).length
      rw [List.length_map, List.length_map]
  · rw [hlength]
    cases hp : s.point with
    | entry rest => rw [hp] at hcount; have := hcount.2; omega
    | head => rw [hp] at hcount; have : batches.length + s.relax = c.relax := hcount; omega
    | scoreLocal rest =>
        rw [hp] at hcount
        have : batches.length + s.relax = c.relax + 1 := hcount
        omega
    | scoreRemote draining rest =>
        rw [hp] at hcount
        cases draining with
        | false => exact hcount.2.le
        | true => exact (show batches.length ≤ c.relax from hcount).trans (Nat.le_succ _)
    | drain =>
        rw [hp] at hcount; exact (show batches.length ≤ c.relax from hcount).trans (Nat.le_succ _)
    | finished => rw [hp] at hcount; have : batches.length = 0 := hcount; omega
  · rw [hp] at hcount
    have : batches.length + s.relax = c.relax := hcount
    omega
  · rw [h.rings_eq, h.log]
  · rw [h.rings_eq, h.store.polls]

/-- The invariant keeps records from being used early. -/
lemma Inv.usesCompleteReads (hs : Serves ix R) (h : Inv ix R c L s batches) :
    UsesCompleteReads ix.gstore s := by
  have hready := h.ready
  have hstore := h.store
  refine ⟨fun rest hp x hx => ?_, fun rest hp x hx hsid => ?_, fun draining rest hp => ?_,
    fun b hb x hx hsid hev => ?_⟩
  · rw [hp] at hready hstore
    exact hs.readComplete hstore (hready x hx)
  · rw [hp] at hready hstore
    exact hs.readComplete hstore (hready.2 x hx hsid)
  · rw [hp] at hready hstore
    obtain ⟨b, bs, rfl, hsuffix, harr⟩ := hready
    exact ⟨b, bs, h.rings_eq, hsuffix, fun x hx => hs.readComplete hstore (harr x hx)⟩
  · rw [h.rings_eq] at hb
    have hpend : x.1 ∈ s.point.pending ix.gstore.sid batches := by
      refine List.mem_append_right _ (List.mem_flatMap.mpr ⟨b, hb, ?_⟩)
      exact List.mem_filter.mpr ⟨List.mem_map_of_mem hx, by simpa using hsid⟩
    exact (List.nodup_append.mp h.nodup).2.2 _ (List.mem_append_left _ hev) _ hpend rfl

/-- At the end of the search nothing is left. -/
lemma Inv.nothingLeft (h : Inv ix R c L s batches) (hp : s.point = .finished) :
    NothingLeft s := by
  have hcount := h.countdown
  have hstore := h.store
  rw [hp] at hcount hstore
  obtain rfl : batches = [] := List.length_eq_zero_iff.mp hcount
  obtain ⟨hpolls, hqps⟩ := StoreInv.idle hstore
  exact ⟨hpolls, hqps, h.items, h.vertices, by rw [h.log, List.append_nil]⟩

/-! ### Recorded pointers -/

/-- A pointer to the record of an item: the bytes behind it are those of the record. -/
def PointsTo (gs : GStore) (ctx : ThdCtx) (ptr : Ptr) (item : Item) : Prop :=
  ∀ i < gs.vertexSize, gs.view ctx ptr i = gs.record item i

/-- Whatever is recorded points to its record. -/
lemma Inv.pointsTo (hs : Serves ix R) (h : Inv ix R c L s batches) {item : Item} {ptr : Ptr}
    (hptr : s.ctx.thdCache item = some ptr) : PointsTo ix.gstore s.ctx ptr item :=
  fun _ hi => (h.pool.recorded item ptr hptr).2.view_eq hs.copies hi

/-- The record of an entry of the pool is found. -/
lemma Inv.getVertex_live (hs : Serves ix R) (h : Inv ix R c L s batches) {e : Neighbor Item δ}
    (he : e ∈ s.bestLNodes.live) :
    ∃ ptr, ix.gstore.getVertex s.ctx e.id = .ok ptr ∧ PointsTo ix.gstore s.ctx ptr e.id := by
  obtain ⟨-, hkey, hsmall⟩ := h.pool.exists_of_mem_live he
  obtain ⟨ptr, hget, harr⟩ := h.pool.getVertex (hkey ▸ hsmall)
  exact ⟨ptr, hget, fun _ hi => harr.view_eq hs.copies hi⟩

/-- The next node is an entry of the pool. -/
lemma Inv.nextNode_mem (h : Inv ix R c L s batches)
    (hc : s.bestLNodes.hasUnexpandedNode = true) :
    ∃ e ∈ s.bestLNodes.live, e.id = nextNode s := by
  have hcur : s.bestLNodes.cur < s.bestLNodes.size := of_decide_eq_true hc
  obtain ⟨hn, -⟩ := h.pool.holds.closestUnexpanded hcur
  exact ⟨_, h.pool.holds.slot_mem hcur, by rw [nextNode, hn]⟩

/-- As far as the pool reaches, the labels are those of its records. -/
lemma Inv.writeLabels_eq (hs : Serves ix R) (h : Inv ix R c L s batches) {K : ℕ}
    (hK : K ≤ s.bestLNodes.size) :
    writeLabels ix s K
      = ((s.bestLNodes.live.take K).map
          fun e => ix.layout.label (ix.gstore.record e.id), none) := by
  induction K with
  | zero => rfl
  | succ K ih =>
      have hlt : K < s.bestLNodes.live.length := by rw [h.pool.holds.length_live]; exact hK
      have hslot := h.pool.holds.getElem_live hlt
      obtain ⟨ptr, hget, hpoints⟩ := h.getVertex_live hs (h.pool.holds.slot_mem hK)
      have hagree : ix.layout.Agree (ix.gstore.view s.ctx ptr)
          (ix.gstore.record (s.bestLNodes.slot K).id) := fun i hi =>
        hpoints i (hs.size_eq ▸ hi)
      rw [writeLabels, ih (Nat.le_of_succ_le hK)]
      simp only [hget]
      rw [hagree.label, List.take_succ_eq_append_getElem hlt, List.map_append, hslot]
      rfl

omit [LinearOrder δ] in
/-- More labels begin with fewer labels. -/
lemma writeLabels_prefix (ix : ServerIndex) (s : DistState δ) {m K : ℕ} (h : m ≤ K) :
    (writeLabels ix s m).1 <+: (writeLabels ix s K).1 := by
  induction K, h using Nat.le_induction with
  | base => exact List.prefix_refl _
  | succ K _ ih =>
      refine ih.trans ?_
      rw [writeLabels]
      cases hw : writeLabels ix s K with
      | mk indices stop =>
          cases stop with
          | some stop => exact List.prefix_refl _
          | none =>
              simp only
              cases ix.gstore.getVertex s.ctx (s.bestLNodes.slot K).id with
              | ok ptr => exact List.prefix_append _ _
              | error stop => exact List.prefix_refl _

/-- **The labels that are written**: the first of them, as far as the pool reaches, are those
of its records. -/
lemma Inv.take_writeLabels (hs : Serves ix R) (h : Inv ix R c L s batches) (K : ℕ) :
    (writeLabels ix s K).1.take (min K s.bestLNodes.size)
      = (s.bestLNodes.live.take K).map fun e => ix.layout.label (ix.gstore.record e.id) := by
  have heq := h.writeLabels_eq hs (min_le_right K s.bestLNodes.size)
  have hpre := writeLabels_prefix ix s (min_le_left K s.bestLNodes.size)
  have htake : s.bestLNodes.live.take (min K s.bestLNodes.size) = s.bestLNodes.live.take K := by
    rw [← h.pool.holds.length_live, ← List.take_eq_take_min]
  have hlen : (writeLabels ix s (min K s.bestLNodes.size)).1.length
      = min K s.bestLNodes.size := by
    rw [heq, List.length_map, List.length_take, h.pool.holds.length_live]
    omega
  have hpre' := List.prefix_iff_eq_take.mp hpre
  rw [hlen] at hpre'
  rw [← hpre', heq, htake]

end Distributed

end Scored

section Runs

variable {δ : Type} [LinearOrder δ] [Inhabited δ] (r : DistributedRun δ)

/-- Every reached state has scored the batches it is done with, and every vertex once. -/
lemma DistributedRun.scoredOnce {r : DistributedRun δ} {n : ℕ} {s : DistState δ}
    (h : r.search n = .ok s) : ScoredOnce r.ix.gstore.sid s s.flight := by
  refine moves_induction (P := fun s => ScoredOnce r.ix.gstore.sid s s.flight) (fun s hs => ?_)
    (fun n s s' _ hinv hinv' hm hs => ScoredOnce.moves hinv hinv' hm
      ⟨hs.nodup, hs.marked, hs.scored⟩) h
  obtain ⟨hinv, hpushed, -⟩ := inv_start serves r.thread.polls_nil r.thread.qps_idle hs
  have hscored : s.scored = [] := by
    have hlog := hinv.log
    rw [hpushed, List.append_nil] at hlog
    exact hlog.symm
  refine ⟨?_, ?_, ?_⟩
  · rw [hpushed]
    exact List.nodup_nil
  · rw [hpushed]
    simp
  · rw [hscored]
    simp

/-- **No record is used before its read completed, and nothing is left outstanding.** A search
that has started reaches every number of steps. All along the two rings and the polls are in
lockstep, batches are waited for and scored once and in the order in which they were pushed, and
only complete reads are used. It ends, and then nothing is left of it. -/
theorem noRecordUsedEarly {s₀ : DistState δ} (h₀ : r.start = .ok s₀) (n : ℕ) :
    ∃ s, r.search n = .ok s ∧ InLockstep r.ix.gstore r.call.relax s ∧
      UsesCompleteReads r.ix.gstore s ∧
      (s.evaluated.Nodup ∧ (s.pushed.flatten.map Prod.fst).Nodup ∧
        ∀ x ∈ s.scored.flatten, x.1 ∈ s.evaluated) ∧
      (r.bound ≤ n → s.point = .finished) ∧ (s.point = .finished → NothingLeft s) := by
  obtain ⟨s, hs⟩ := DistributedRun.search_total h₀ n
  have hinv := DistributedRun.inv_of_search hs
  have honce := DistributedRun.scoredOnce hs
  have hnodup : s.evaluated.Nodup := by
    have h := hinv.nodup
    rw [List.append_assoc] at h
    exact (List.nodup_append.mp h).1
  exact ⟨s, hs, hinv.inLockstep, hinv.usesCompleteReads DistributedRun.serves,
    ⟨hnodup, honce.nodup, honce.scored⟩, fun hn => DistributedRun.point_eq_finished hn hs,
    hinv.nothingLeft⟩

/-- The search of the two points leaves nothing outstanding. -/
theorem noRecordUsedEarly_twoServers :
    ∃ s, (twoServersRun twoServersCall).search (twoServersRun twoServersCall).bound = .ok s ∧
      s.point = .finished ∧ NothingLeft s := by
  obtain ⟨s₀, h₀⟩ := exists_start_twoServers
  obtain ⟨s, hs, -, -, -, hfinished, hleft⟩ :=
    noRecordUsedEarly (twoServersRun twoServersCall) h₀ (twoServersRun twoServersCall).bound
  exact ⟨s, hs, hfinished le_rfl, hleft (hfinished le_rfl)⟩

/-- **The thread cache never misses.** In every state that a started search reaches, every
remote entry of the pool is recorded; a recorded pointer points to the record of its item, then
and in every later state; the record of every entry of the pool is found, that of the next node
as well, when its expansion begins; and the labels that are written are those of the records of
the pool, as far as it reaches. -/
theorem thdCacheNeverMisses {s₀ : DistState δ} (h₀ : r.start = .ok s₀) (n : ℕ) :
    ∃ s, r.search n = .ok s ∧
      (∀ e ∈ s.bestLNodes.live, e.id.first ≠ r.d.sid → ∃ ptr, s.ctx.thdCache e.id = some ptr) ∧
      (∀ item ptr, s.ctx.thdCache item = some ptr → ∀ m, n ≤ m →
        ∃ s', r.search m = .ok s' ∧ s'.ctx.thdCache item = some ptr ∧
          PointsTo r.ix.gstore s'.ctx ptr item) ∧
      (∀ e ∈ s.bestLNodes.live, ∃ ptr, r.ix.gstore.getVertex s.ctx e.id = .ok ptr ∧
        PointsTo r.ix.gstore s.ctx ptr e.id) ∧
      (s.bestLNodes.hasUnexpandedNode = true →
        ∃ ptr, r.ix.gstore.getVertex (tick r.ix s).ctx (nextNode s) = .ok ptr ∧
          PointsTo r.ix.gstore (tick r.ix s).ctx ptr (nextNode s)) ∧
      ∀ K, (writeLabels r.ix s K).1.take (min K s.bestLNodes.size)
          = (s.bestLNodes.live.take K).map
              (fun e => r.ix.layout.label (r.ix.gstore.record e.id)) ∧
        (K ≤ s.bestLNodes.size → (writeLabels r.ix s K).2 = none) := by
  obtain ⟨s, hs⟩ := DistributedRun.search_total h₀ n
  have hserves := DistributedRun.serves (r := r)
  have hinv := DistributedRun.inv_of_search hs
  refine ⟨s, hs, fun e he hsid => ?_, fun item ptr hptr m hm => ?_,
    fun e he => hinv.getVertex_live hserves he, fun hc => ?_,
    fun K => ⟨hinv.take_writeLabels hserves K, fun hK => ?_⟩⟩
  · obtain ⟨-, hkey, hsmall⟩ := hinv.pool.exists_of_mem_live he
    exact hinv.pool.cached e.id (hkey ▸ hsmall) hsid
  · obtain ⟨s', hs'⟩ := DistributedRun.search_total h₀ m
    have hrec : Records s s' := DistributedRun.rel_of_le (fun _ _ _ h => h)
      (fun _ _ _ h h' item ptr hptr => h' item ptr (h item ptr hptr))
      (fun t t' hinv hp hstep => by
        obtain ⟨u, hu, -, -, hrec, -⟩ := DistributedRun.step_spec hinv hp
        obtain rfl := Except.ok.inj (hstep.symm.trans hu)
        exact hrec) hm hs hs'
    have hptr' := hrec item ptr hptr
    exact ⟨s', hs', hptr', (DistributedRun.inv_of_search hs').pointsTo hserves hptr'⟩
  · obtain ⟨e, he, hid⟩ := hinv.tick.nextNode_mem hc
    have hget := hinv.tick.getVertex_live hserves he
    rwa [hid] at hget
  · rw [hinv.writeLabels_eq hserves hK]

/-- The search of the two points finds the record of every entry of its pool. -/
theorem thdCacheNeverMisses_twoServers :
    ∃ s, (twoServersRun twoServersCall).search (twoServersRun twoServersCall).bound = .ok s ∧
      ∀ e ∈ s.bestLNodes.live, ∃ ptr,
        (twoServersRun twoServersCall).ix.gstore.getVertex s.ctx e.id = .ok ptr ∧
          PointsTo (twoServersRun twoServersCall).ix.gstore s.ctx ptr e.id := by
  obtain ⟨s₀, h₀⟩ := exists_start_twoServers
  obtain ⟨s, hs, -, -, hlive, -⟩ :=
    thdCacheNeverMisses (twoServersRun twoServersCall) h₀ (twoServersRun twoServersCall).bound
  exact ⟨s, hs, hlive⟩

end Runs

end RedAnns
