import RedAnns.Search.Estimates

/-!
Why a neighbour that fails the test need not be tested again.

* `DistributedRun.lastDist_le`: once the pool is full it stays full, and the distance of its last
  entry never increases.
* `DistributedRun.Rejected`: an unvisited remote neighbour of the next node fails the test. It
  then fails every later one of the same search (`DistributedRun.Rejected.fails_later`).
* `stepRetesting`: the search with the rejected vertices unmarked before every step, so that each
  is tested again wherever it occurs; `SameButMarks` relates its states to those of the search.
* `rejectionsStand`: rejections stand, and the search that tests again is the same search.
-/

namespace RedAnns

open GStore Distributed

/-! ### The test on a pool that moves down -/

section Test

variable {K : Type} [Field K] [LinearOrder K] [IsStrictOrderedRing K] [Inhabited K]

omit [IsStrictOrderedRing K] in
/-- The test fails on a full pool whose last entry, widened by a tenth, is at most as distant. -/
lemma Pq.passes_eq_false_iff {pq : Pq K} {q : NeighborPriorityQueue Item K} {vid : VertexId} :
    pq.passes q vid = false ↔ q.capacity ≤ q.size ∧
      widened (q.slot (q.size - 1)).distance ≤ pq.computeDist vid := by
  rw [Pq.passes, Bool.or_eq_false_iff, decide_eq_false_iff_not, decide_eq_false_iff_not, not_lt,
    not_lt]
  rfl

omit [Inhabited K] in
/-- Widening keeps the order. -/
lemma widened_le {a b : K} (h : a ≤ b) : widened a ≤ widened b :=
  mul_le_mul_of_nonneg_right h (by norm_num)

end Test

/-! ### The last entry of a full pool -/

namespace DistributedRun

section Full

variable {δ : Type} [LinearOrder δ] [Inhabited δ] {r : DistributedRun δ} {m n : ℕ}
  {s s' : DistState δ}

/-- The scored vertices stay scored. -/
lemma evaluated_prefix (hmn : m ≤ n) (h : r.search m = .ok s) (h' : r.search n = .ok s') :
    s.evaluated <+: s'.evaluated := by
  refine rel_of_le (Q := fun s s' => s.evaluated <+: s'.evaluated)
    (fun s => List.prefix_refl _) (fun s t u hst htu => hst.trans htu)
    (fun s s' hinv hp hstep => ?_) hmn h h'
  obtain ⟨t, ht, -, hm, -⟩ := step_spec hinv hp
  obtain rfl := Except.ok.inj (hstep.symm.trans ht)
  rcases hm.expands_or_quiet with ⟨-, -, ptrs, ctx, -, rfl, -⟩ | hq
  · exact List.prefix_refl _
  · exact hq.evaluated

/-- **Once the pool is full it stays full**, and the distance of its last entry never
increases. -/
lemma last_le (hmn : m ≤ n) (h : r.search m = .ok s) (h' : r.search n = .ok s')
    (hfull : s.bestLNodes.size = s.bestLNodes.capacity) :
    s'.bestLNodes.size = s'.bestLNodes.capacity ∧
      (s'.bestLNodes.slot (s'.bestLNodes.size - 1)).distance
        ≤ (s.bestLNodes.slot (s.bestLNodes.size - 1)).distance := by
  have hpool := (inv_of_search h).pool
  have hpool' := (inv_of_search h').pool
  have hsub : keys r.ix r.call s.evaluated ⊆ keys r.ix r.call s'.evaluated := by
    obtain ⟨l, hl⟩ := evaluated_prefix hmn h h'
    rw [← hl, keys_append]
    exact Finset.subset_union_left
  refine hpool.holds.last_le hpool'.holds (hpool'.capacity.trans hpool.capacity.symm) hsub hfull ?_
  rw [hpool.capacity]
  exact r.scratch.pos

end Full

/-! ### Rejected neighbours -/

section Rejections

variable {δ : Type} [LinearOrder δ] [Inhabited δ] (r : DistributedRun δ)

/-- A neighbour is rejected: the next node is expanded, the neighbour is remote and not visited
yet, and the test fails for it. -/
structure Rejected (s : DistState δ) (e : VertexId × Item) : Prop where
  head : s.point = .head
  unexpanded : s.bestLNodes.hasUnexpandedNode = true
  remote : r.UnvisitedRemote s e
  fails : r.call.passes s.bestLNodes.closestUnexpanded.2 e.1 = false

omit [LinearOrder δ] in
/-- A pool the test may be made against in a state: the pool of the state, and, when a node is
expanded next, the pool with that node marked. -/
def TestedAgainst (s : DistState δ) (q : NeighborPriorityQueue Item δ) : Prop :=
  q = s.bestLNodes ∨ s.point = .head ∧ s.bestLNodes.hasUnexpandedNode = true ∧
    q = s.bestLNodes.closestUnexpanded.2

variable {r} {m n : ℕ} {s s' : DistState δ} {e : VertexId × Item}

omit [LinearOrder δ] [Inhabited δ] in
/-- What the loop over neighbours prunes: unvisited remote neighbours for which the test fails. -/
lemma exists_of_mem_pruned {ix : ServerIndex} {c : SearchCall δ}
    {q : NeighborPriorityQueue Item δ} {entries : List (VertexId × Item)} {t : Traversal}
    {w : Item} (hw : w ∈ (entries.foldl (visitNeighbor ix c q) t).pruned) :
    w ∈ t.pruned ∨ ∃ e ∈ entries, e.2 = w ∧ e.2.first ≠ ix.gstore.sid ∧ w ∉ t.inserted ∧
      c.passes q e.1 = false := by
  induction entries generalizing t with
  | nil => exact Or.inl hw
  | cons e entries ih =>
      rcases ih hw with hold | ⟨e', he', heq, hsid, hnot, hfails⟩
      · rcases visitNeighbor_cases ix c q t e with ⟨-, hstep⟩ | ⟨-, -, hstep⟩ |
          ⟨hnot, hsid, hf, hstep⟩
        · exact Or.inl (hstep ▸ hold)
        · exact Or.inl (by rwa [hstep] at hold)
        · rw [hstep] at hold
          rcases List.mem_append.mp hold with hold | hold
          · exact Or.inl hold
          · rw [List.mem_singleton] at hold
            exact Or.inr ⟨e, List.mem_cons_self, hold.symm, hsid, hold ▸ hnot, hf⟩
      · rw [visitNeighbor_inserted] at hnot
        exact Or.inr ⟨e', List.mem_cons_of_mem _ he', heq, hsid,
          fun hmem => hnot (Finset.mem_insert_of_mem hmem), hfails⟩

/-- The pruned vertices were rejected before. -/
lemma exists_rejected (h : r.search n = .ok s) {w : Item} (hw : w ∈ s.pruned) :
    ∃ m < n, ∃ s', r.search m = .ok s' ∧ ∃ e, e.2 = w ∧ r.Rejected s' e := by
  induction n generalizing s with
  | zero =>
      rw [search_zero] at h
      obtain ⟨-, -, -, -, hpruned, -⟩ := inv_start serves r.thread.polls_nil r.thread.qps_idle h
      rw [hpruned] at hw
      exact absurd hw List.not_mem_nil
  | succ n ih =>
      have hearlier : ∀ {s₁ : DistState δ}, r.search n = .ok s₁ → w ∈ s₁.pruned →
          ∃ m < n + 1, ∃ s', r.search m = .ok s' ∧ ∃ e, e.2 = w ∧ r.Rejected s' e := by
        intro s₁ h₁ hw₁
        obtain ⟨m, hm, hrest⟩ := ih h₁ hw₁
        exact ⟨m, Nat.lt_succ_of_lt hm, hrest⟩
      rw [search_add] at h
      cases hn : r.search n with
      | error stop =>
          rw [hn] at h
          exact absurd h (by simp [bind, Except.bind])
      | ok s₁ =>
          rw [hn] at h
          change run r.ix r.call 1 s₁ = .ok s at h
          by_cases hfin : s₁.point = .finished
          · rw [run_of_finished hfin] at h
            exact hearlier hn (by rwa [Except.ok.inj h])
          · rw [run_one hfin] at h
            obtain ⟨t, ht, -, hm, -⟩ := step_spec (inv_of_search hn) hfin
            obtain rfl := Except.ok.inj (h.symm.trans ht)
            rcases hm.expands_or_quiet with ⟨hp, hc, ptrs, ctx, -, rfl, -⟩ | hq
            · rcases List.mem_append.mp hw with hw | hw
              · exact hearlier hn hw
              · rcases exists_of_mem_pruned hw with hold | ⟨e, he, heq, hsid, hnot, hfails⟩
                · exact absurd hold List.not_mem_nil
                · exact ⟨n, Nat.lt_succ_self n, s₁, hn, e, heq, hp, hc,
                    ⟨he, hsid, heq ▸ hnot⟩, hfails⟩
            · exact hearlier hn (hq.pruned ▸ hw)

omit [LinearOrder δ] [Inhabited δ] in
/-- Entries of one vertex have one id. -/
lemma id_eq_of_mem_entries {t t' : Item} (ht : t ∈ r.d.items) (ht' : t' ∈ r.d.items)
    {e' : VertexId × Item}
    (he : e ∈ r.ix.layout.neighborsDistributed (r.ix.gstore.record t))
    (he' : e' ∈ r.ix.layout.neighborsDistributed (r.ix.gstore.record t'))
    (heq : e.2 = e'.2) : e.1 = e'.1 := by
  obtain ⟨hlt, hplace⟩ := Deployment.exists_of_mem_entries ht he
  obtain ⟨hlt', hplace'⟩ := Deployment.exists_of_mem_entries ht' he'
  refine UInt32.toNat_inj.mp (place_injOn r.d.malloc r.d.assigns hlt hlt' ?_)
  exact hplace.symm.trans (heq.trans hplace')

/-- The node that is expanded next is an item of the cluster. -/
lemma nextNode_mem (h : r.search n = .ok s) (hc : s.bestLNodes.hasUnexpandedNode = true) :
    nextNode s ∈ r.d.items := by
  have hinv := inv_of_search h
  exact hinv.inserted_subset (hinv.mem_inserted (hinv.pool.expand hc).1)

end Rejections

section Stand

variable {K : Type} [Field K] [LinearOrder K] [IsStrictOrderedRing K] [Inhabited K]
  {r : DistributedRun K} {pq : Pq K} {m n : ℕ} {s s' : DistState K} {e : VertexId × Item}

omit [IsStrictOrderedRing K] in
/-- Marking the next node does not matter to the test. -/
lemma passes_closestUnexpanded (h : r.search n = .ok s)
    (hc : s.bestLNodes.hasUnexpandedNode = true) (vid : VertexId) :
    pq.passes s.bestLNodes.closestUnexpanded.2 vid = pq.passes s.bestLNodes vid := by
  rw [Pq.passes, Pq.passes, lastDist_closestUnexpanded h hc]
  rfl

/-- **A rejected neighbour fails every later test** of the same search. -/
theorem Rejected.fails_later (hpasses : r.call.passes = pq.passes) (hmn : m ≤ n)
    (h : r.search m = .ok s) (h' : r.search n = .ok s') (he : r.Rejected s e)
    {q : NeighborPriorityQueue Item K} (hq : TestedAgainst s' q) :
    r.call.passes q e.1 = false := by
  have hfails := he.fails
  rw [hpasses, passes_closestUnexpanded h he.unexpanded, Pq.passes_eq_false_iff] at hfails
  obtain ⟨hfull, hfar⟩ := hfails
  have hsize := (inv_of_search h).pool.holds.size_le
  obtain ⟨hfull', hle⟩ := last_le hmn h h' (le_antisymm hsize hfull)
  have hlater : pq.passes s'.bestLNodes e.1 = false :=
    Pq.passes_eq_false_iff.mpr ⟨hfull'.ge, (widened_le hle).trans hfar⟩
  rw [hpasses]
  rcases hq with rfl | ⟨-, hc, rfl⟩
  · exact hlater
  · rw [passes_closestUnexpanded h' hc]
    exact hlater

/-- An entry of the next node whose vertex is pruned fails the test. -/
lemma passes_eq_false_of_mem_pruned (hpasses : r.call.passes = pq.passes)
    (h : r.search n = .ok s) (hp : s.point = .head) (hc : s.bestLNodes.hasUnexpandedNode = true)
    (he : e ∈ r.ix.layout.neighborsDistributed (r.ix.gstore.record (nextNode s)))
    (hw : e.2 ∈ s.pruned) :
    e.2.first ≠ r.d.sid ∧ r.call.passes s.bestLNodes.closestUnexpanded.2 e.1 = false := by
  obtain ⟨m, hm, s₁, h₁, e₁, heq, hrej⟩ := exists_rejected h hw
  have hid : e₁.1 = e.1 := id_eq_of_mem_entries (nextNode_mem h₁ hrej.unexpanded)
    (nextNode_mem h hc) hrej.remote.1 he heq
  refine ⟨heq ▸ hrej.remote.2.1, ?_⟩
  rw [← hid]
  exact hrej.fails_later hpasses hm.le h₁ h (Or.inr ⟨hp, hc, rfl⟩)

end Stand

end DistributedRun

/-! ### Testing again -/

namespace Distributed

section Retesting

variable {δ : Type} [LinearOrder δ] [Inhabited δ] (ix : ServerIndex) (c : SearchCall δ)

omit [LinearOrder δ] [Inhabited δ] in
/-- The rejected vertices are no longer marked as visited. -/
def forgetRejected (s : DistState δ) : DistState δ :=
  { s with insertedIntoPoolRs := s.insertedIntoPoolRs \ s.pruned.toFinset }

/-- A step of the search that tests a rejected vertex again wherever it occurs. -/
def stepRetesting (s : DistState δ) : Except Stop (DistState δ) := step ix c (forgetRejected s)

/-- The steps from a state on, `n` at most, with rejected vertices tested again. -/
def runRetesting (n : ℕ) (s : DistState δ) : Except Stop (DistState δ) :=
  whileLoopM (fun s => decide (s.point ≠ .finished)) (stepRetesting ix c) n s

omit [LinearOrder δ] [Inhabited δ] in
/-- A state with given marks. -/
def marked (s : DistState δ) (inserted : Finset Item) (pruned : List Item) : DistState δ :=
  { s with insertedIntoPoolRs := inserted, pruned := pruned }

/-- **The same state but for the marks**: the rejected vertices are the same, and so are the
visited ones among the others. -/
structure SameButMarks (s s' : DistState δ) : Prop where
  rest : s' = marked s s'.insertedIntoPoolRs s'.pruned
  pruned : ∀ w, w ∈ s'.pruned ↔ w ∈ s.pruned
  inserted : ∀ w, w ∉ s.pruned → (w ∈ s'.insertedIntoPoolRs ↔ w ∈ s.insertedIntoPoolRs)

variable {ix c} {s s' : DistState δ}

omit [LinearOrder δ] [Inhabited δ] in
lemma SameButMarks.refl (s : DistState δ) : SameButMarks s s :=
  ⟨rfl, fun _ => Iff.rfl, fun _ _ => Iff.rfl⟩

omit [LinearOrder δ] [Inhabited δ] in
/-- Waiting for the front batch does not look at the marks. -/
lemma awaitFront_marked (draining : Bool) (inserted : Finset Item) (pruned : List Item) :
    awaitFront ix draining (marked s inserted pruned)
      = (awaitFront ix draining s).map fun s' => marked s' inserted pruned := by
  have hitems : (marked s inserted pruned).queueItemBatch = s.queueItemBatch := rfl
  have hvertices : (marked s inserted pruned).queueVertexBatch = s.queueVertexBatch := rfl
  have hctx : (marked s inserted pruned).ctx = s.ctx := rfl
  rw [awaitFront, awaitFront, hitems, hvertices, hctx]
  cases s.queueItemBatch with
  | nil => rfl
  | cons items _ =>
      cases s.queueVertexBatch with
      | nil => rfl
      | cons vertices _ =>
          cases ix.gstore.getVertexBatchWait s.ctx with
          | error stop => rfl
          | ok ctx => rfl

/-- A step that expands no node does not look at the marks. -/
lemma advance_marked (h : ¬ (s.point = .head ∧ s.bestLNodes.hasUnexpandedNode = true))
    (inserted : Finset Item) (pruned : List Item) :
    advance ix c (marked s inserted pruned)
      = (advance ix c s).map fun s' => marked s' inserted pruned := by
  have hpoint : (marked s inserted pruned).point = s.point := rfl
  rw [advance, advance, hpoint]
  cases hp : s.point with
  | entry rest => cases rest <;> rfl
  | head =>
      have hc : s.bestLNodes.hasUnexpandedNode = false := by
        cases hc : s.bestLNodes.hasUnexpandedNode with
        | true => exact absurd ⟨hp, hc⟩ h
        | false => rfl
      have hc' : (marked s inserted pruned).bestLNodes.hasUnexpandedNode = false := hc
      simp only [hc, hc', Bool.false_eq_true, if_false]
      rfl
  | scoreLocal rest =>
      cases rest with
      | nil =>
          have hrelax : (marked s inserted pruned).relax = s.relax := rfl
          simp only [hrelax, awaitFront_marked]
          split_ifs <;> rfl
      | cons x rest =>
          simp only
          split_ifs <;> rfl
  | scoreRemote draining rest =>
      cases rest with
      | nil => rfl
      | cons x rest =>
          simp only
          split_ifs <;> rfl
  | drain =>
      have hqueue : (marked s inserted pruned).queueItemBatch = s.queueItemBatch := rfl
      simp only [hqueue, awaitFront_marked]
      split_ifs <;> rfl
  | finished => rfl

/-- Two loops over the neighbours of a node agree on the vertices outside `P` and on the kept ones;
the first finds the vertices of `P` marked. -/
structure SameKept (P : List Item) (t t' : Traversal) : Prop where
  itemScratch : t'.itemScratch = t.itemScratch
  pruned : ∀ w, w ∉ P → (w ∈ t'.pruned ↔ w ∈ t.pruned)
  inserted : ∀ w, w ∉ P → (w ∈ t'.inserted ↔ w ∈ t.inserted)
  marked : ∀ w ∈ P, w ∈ t.inserted

omit [LinearOrder δ] [Inhabited δ] in
/-- One round: a vertex of `P` that the second loop finds unmarked fails the test there. -/
lemma SameKept.visitNeighbor {P : List Item} {t t' : Traversal} (h : SameKept P t t')
    {q : NeighborPriorityQueue Item δ} {e : VertexId × Item}
    (hP : e.2 ∈ P → e.2.first ≠ ix.gstore.sid ∧ c.passes q e.1 = false) :
    SameKept P (visitNeighbor ix c q t e) (visitNeighbor ix c q t' e) := by
  by_cases hmem : e.2 ∈ P
  · obtain ⟨hsid, hfails⟩ := hP hmem
    have hstay : Distributed.visitNeighbor ix c q t e = t := by
      rw [Distributed.visitNeighbor, if_pos (h.marked _ hmem)]
    have hne : ∀ w, w ∉ P → w ≠ e.2 := fun w hw heq => hw (heq ▸ hmem)
    rw [hstay]
    rcases visitNeighbor_cases ix c q t' e with ⟨-, heq⟩ | ⟨-, hor, -⟩ | ⟨-, -, -, heq⟩
    · rwa [heq]
    · rcases hor with hlocal | hpass
      · exact absurd hlocal hsid
      · rw [hfails] at hpass
        exact absurd hpass Bool.false_ne_true
    · rw [heq]
      refine ⟨h.itemScratch, fun w hw => ?_, fun w hw => ?_, h.marked⟩
      · rw [← h.pruned w hw, List.mem_append, List.mem_singleton, or_iff_left (hne w hw)]
      · rw [← h.inserted w hw, Finset.mem_insert, or_iff_right (hne w hw)]
  · have hiff := h.inserted e.2 hmem
    have hmarked : ∀ w ∈ P, w ∈ insert e.2 t.inserted := fun w hw =>
      Finset.mem_insert_of_mem (h.marked w hw)
    have hinserted : ∀ w, w ∉ P → (w ∈ insert e.2 t'.inserted ↔ w ∈ insert e.2 t.inserted) :=
      fun w hw => by rw [Finset.mem_insert, Finset.mem_insert, h.inserted w hw]
    rw [Distributed.visitNeighbor, Distributed.visitNeighbor]
    by_cases hin : e.2 ∈ t.inserted
    · rwa [if_pos hin, if_pos (hiff.mpr hin)]
    · rw [if_neg hin, if_neg (mt hiff.mp hin)]
      simp only
      split_ifs
      · exact ⟨by rw [h.itemScratch], h.pruned, hinserted, hmarked⟩
      · refine ⟨h.itemScratch, fun w hw => ?_, hinserted, hmarked⟩
        rw [List.mem_append, List.mem_append, h.pruned w hw]
      · exact ⟨by rw [h.itemScratch], h.pruned, hinserted, hmarked⟩

omit [LinearOrder δ] [Inhabited δ] in
/-- The whole loop. -/
lemma SameKept.foldl {P : List Item} {q : NeighborPriorityQueue Item δ}
    {entries : List (VertexId × Item)}
    (hP : ∀ e ∈ entries, e.2 ∈ P → e.2.first ≠ ix.gstore.sid ∧ c.passes q e.1 = false)
    {t t' : Traversal} (h : SameKept P t t') :
    SameKept P (entries.foldl (Distributed.visitNeighbor ix c q) t)
      (entries.foldl (Distributed.visitNeighbor ix c q) t') := by
  induction entries generalizing t t' with
  | nil => exact h
  | cons e entries ih =>
      exact ih (fun e' he' => hP e' (List.mem_cons_of_mem _ he'))
        (h.visitNeighbor (hP e List.mem_cons_self))

omit [LinearOrder δ] in
/-- With the same kept neighbours an expansion leads to the same state but for the marks. -/
lemma issued_marked {inserted : Finset Item} {pruned : List Item} {ptrs : List Ptr} {ctx : ThdCtx}
    (h : (traversal ix c (marked s inserted pruned)).itemScratch
      = (traversal ix c s).itemScratch) :
    issued ix c (marked s inserted pruned) ptrs ctx
      = marked (issued ix c s ptrs ctx) (traversal ix c (marked s inserted pruned)).inserted
          (pruned ++ (traversal ix c (marked s inserted pruned)).pruned) := by
  unfold issued
  rw [h]
  rfl

/-- **Expanding a node** with the rejected vertices unmarked: the kept neighbours are the same, if
those that were rejected before fail the test again. -/
lemma issue_retesting {R : Finset Item} {L : ℕ} {batches : List Batch} (hs : Serves ix R)
    (h : Inv ix R c L s batches) (hc : s.bestLNodes.hasUnexpandedNode = true)
    (hsame : SameButMarks s s')
    (hP : ∀ e ∈ ix.layout.neighborsDistributed (ix.gstore.record (nextNode s)), e.2 ∈ s.pruned →
      e.2.first ≠ ix.gstore.sid ∧ c.passes s.bestLNodes.closestUnexpanded.2 e.1 = false)
    {u : DistState δ} (hu : issue ix c s = .ok u) :
    ∃ u', issue ix c (forgetRejected s') = .ok u' ∧ SameButMarks u u' := by
  obtain ⟨hmem, -, -, ⟨ptr, hget, harr⟩, -⟩ := h.pool.expand hc
  have hentries : ix.layout.neighborsDistributed (ix.gstore.view s.ctx ptr)
      = ix.layout.neighborsDistributed (ix.gstore.record (nextNode s)) :=
    hs.neighborsDistributed_eq harr (h.inserted_subset (h.mem_inserted hmem))
  have hforget : forgetRejected s'
      = marked s (s'.insertedIntoPoolRs \ s'.pruned.toFinset) s'.pruned := by
    rw [forgetRejected, hsame.rest]
    rfl
  set I := s'.insertedIntoPoolRs \ s'.pruned.toFinset with hI
  have hkept : SameKept s.pruned (traversal ix c s) (traversal ix c (marked s I s'.pruned)) := by
    refine SameKept.foldl hP ⟨rfl, fun w _ => Iff.rfl, fun w hw => ?_, fun w hw => ?_⟩
    · show w ∈ I ↔ w ∈ s.insertedIntoPoolRs
      rw [hI, Finset.mem_sdiff, List.mem_toFinset, hsame.pruned, hsame.inserted w hw]
      exact and_iff_left hw
    · show w ∈ s.insertedIntoPoolRs
      rw [h.visited w]
      exact List.mem_append_left _ (List.mem_append_right _ hw)
  rw [issue_eq hget hentries] at hu
  rw [hforget, issue_eq (s := marked s I s'.pruned) hget hentries, hkept.itemScratch]
  change (ix.gstore.getVertexBatch s.ctx (traversal ix c s).itemScratch true).map _ = _ at hu
  cases hread : ix.gstore.getVertexBatch s.ctx (traversal ix c s).itemScratch true with
  | error stop =>
      rw [hread] at hu
      exact absurd hu (by simp [Except.map])
  | ok x =>
      rw [hread] at hu
      obtain rfl := Except.ok.inj hu
      refine ⟨issued ix c (marked s I s'.pruned) x.1 x.2, ?_, ?_, fun w => ?_, fun w hw => ?_⟩
      · show (ix.gstore.getVertexBatch s.ctx (traversal ix c s).itemScratch true).map _ = _
        rw [hread]
        rfl
      · exact issued_marked hkept.itemScratch
      · show w ∈ s'.pruned ++ _ ↔ w ∈ s.pruned ++ _
        rw [List.mem_append, List.mem_append, hsame.pruned w]
        by_cases hw : w ∈ s.pruned
        · simp only [hw, true_or]
        · rw [hkept.pruned w hw]
      · exact hkept.inserted w fun hmem => hw (List.mem_append_left _ hmem)

end Retesting

end Distributed

section Stands

variable {K : Type} [Field K] [LinearOrder K] [IsStrictOrderedRing K] [Inhabited K]

namespace DistributedRun

variable (r : DistributedRun K)

omit [IsStrictOrderedRing K] [Field K] in
/-- The search that tests rejected vertices again, cut off after `n` steps. -/
def searchRetesting (n : ℕ) : Except Stop (DistState K) :=
  r.start >>= runRetesting r.ix r.call n

variable {r} {pq : Pq K} {n : ℕ} {s s' t : DistState K}

/-- One step, with and without testing again. -/
lemma step_retesting (hpasses : r.call.passes = pq.passes) (h : r.search n = .ok s)
    (hp : s.point ≠ .finished) (hstep : step r.ix r.call s = .ok t) (hsame : SameButMarks s s') :
    ∃ t', stepRetesting r.ix r.call s' = .ok t' ∧ SameButMarks t t' := by
  have hinv := inv_of_search h
  obtain ⟨t₁, ht₁, -, hm, -⟩ := step_spec hinv hp
  obtain rfl := Except.ok.inj (hstep.symm.trans ht₁)
  by_cases hissue : s.point = .head ∧ s.bestLNodes.hasUnexpandedNode = true
  · obtain ⟨hhead, hc⟩ := hissue
    have htick : SameButMarks (tick r.ix s) (tick r.ix s') := by
      refine ⟨?_, hsame.pruned, hsame.inserted⟩
      have hrest := congrArg (tick r.ix) hsame.rest
      exact hrest
    have hadvance : ∀ u : DistState K, u.point = .head → u.bestLNodes.hasUnexpandedNode = true →
        advance r.ix r.call u = issue r.ix r.call u := by
      intro u hu hcu
      rw [advance, hu]
      exact if_pos hcu
    have hpoint' : s'.point = .head := by
      rw [hsame.rest]
      exact hhead
    have hc' : s'.bestLNodes.hasUnexpandedNode = true := by
      rw [hsame.rest]
      exact hc
    have hu : issue r.ix r.call (tick r.ix s) = .ok t :=
      (hadvance (tick r.ix s) hhead hc).symm.trans hstep
    have hfails : ∀ e ∈ r.ix.layout.neighborsDistributed (r.ix.gstore.record (nextNode s)),
        e.2 ∈ s.pruned → e.2.first ≠ r.ix.gstore.sid ∧
          r.call.passes s.bestLNodes.closestUnexpanded.2 e.1 = false :=
      fun e he hw => passes_eq_false_of_mem_pruned hpasses h hhead hc he hw
    obtain ⟨t', ht', hsame'⟩ := issue_retesting serves hinv.tick hc htick hfails hu
    exact ⟨t', (hadvance (tick r.ix (forgetRejected s')) hpoint' hc').trans ht', hsame'⟩
  · rcases hm.expands_or_quiet with ⟨hhead, hc, -⟩ | hq
    · exact absurd ⟨hhead, hc⟩ hissue
    · have hforget : tick r.ix (forgetRejected s')
          = marked (tick r.ix s) (s'.insertedIntoPoolRs \ s'.pruned.toFinset) s'.pruned := by
        rw [forgetRejected, hsame.rest]
        rfl
      refine ⟨marked t (s'.insertedIntoPoolRs \ s'.pruned.toFinset) s'.pruned, ?_, rfl,
        fun w => ?_, fun w hw => ?_⟩
      · have hmarked : advance r.ix r.call (tick r.ix (forgetRejected s'))
            = (advance r.ix r.call (tick r.ix s)).map fun u =>
                marked u (s'.insertedIntoPoolRs \ s'.pruned.toFinset) s'.pruned := by
          have hquiet : ¬ ((tick r.ix s).point = .head ∧
              (tick r.ix s).bestLNodes.hasUnexpandedNode = true) := hissue
          rw [hforget]
          exact advance_marked hquiet _ _
        rw [stepRetesting, step, hmarked, show advance r.ix r.call (tick r.ix s) = _ from hstep]
        rfl
      · rw [hq.pruned]
        exact hsame.pruned w
      · have hold : w ∉ s.pruned := hq.pruned ▸ hw
        show w ∈ s'.insertedIntoPoolRs \ s'.pruned.toFinset ↔ w ∈ t.insertedIntoPoolRs
        rw [hq.inserted, Finset.mem_sdiff, List.mem_toFinset, hsame.pruned, hsame.inserted w hold]
        exact and_iff_left hold

/-- **Testing again changes nothing** but the marks. -/
lemma searchRetesting_eq (hpasses : r.call.passes = pq.passes) (h : r.search n = .ok s) :
    ∃ s', r.searchRetesting n = .ok s' ∧ SameButMarks s s' := by
  obtain ⟨s₀, hs₀⟩ := start_of_search h
  have hstart : r.search 0 = .ok s₀ := search_zero.trans hs₀
  obtain ⟨u, u', hu, hu', -, hsame⟩ : ∃ u u', run r.ix r.call n s₀ = .ok u ∧
      runRetesting r.ix r.call n s₀ = .ok u' ∧ (∃ m, r.search m = .ok u) ∧ SameButMarks u u' := by
    refine whileLoopM_simulates (R := fun s s' => (∃ m, r.search m = .ok s) ∧ SameButMarks s s')
      (fun s s' hR => ?_) (fun s s' hR hc => ?_) ⟨⟨0, hstart⟩, SameButMarks.refl s₀⟩ n
    · rw [hR.2.rest]
      rfl
    · obtain ⟨⟨m, hm⟩, hsame⟩ := hR
      have hp : s.point ≠ .finished := of_decide_eq_true hc
      obtain ⟨t, ht, -⟩ := step_spec (inv_of_search hm) hp
      obtain ⟨t', ht', hsame'⟩ := step_retesting hpasses hm hp ht hsame
      exact ⟨t, t', ht, ht', ⟨m + 1, search_succ hm hp ht⟩, hsame'⟩
  rw [search_eq hs₀] at h
  obtain rfl := Except.ok.inj (h.symm.trans hu)
  refine ⟨u', ?_, hsame⟩
  rw [searchRetesting, hs₀]
  exact hu'

end DistributedRun

/-- **Rejections stand**: a full pool stays full and its last entry never moves up, every
pruned vertex was rejected by the test, a rejected neighbour fails the test in every later state of
the search, and a search that tests rejected vertices again goes as the search does. -/
structure RejectionsStand (r : DistributedRun K) : Prop where
  last_le : ∀ m n s s', m ≤ n → r.search m = .ok s → r.search n = .ok s' →
    s.bestLNodes.size = s.bestLNodes.capacity →
      s'.bestLNodes.size = s'.bestLNodes.capacity ∧
        DistributedRun.lastDist s' ≤ DistributedRun.lastDist s
  pruned : ∀ n s, r.search n = .ok s → ∀ w ∈ s.pruned,
    ∃ m < n, ∃ s', r.search m = .ok s' ∧ ∃ e, e.2 = w ∧ r.Rejected s' e
  fails_later : ∀ m n s s' e q, m ≤ n → r.search m = .ok s → r.search n = .ok s' →
    r.Rejected s e → DistributedRun.TestedAgainst s' q → r.call.passes q e.1 = false
  retesting : ∀ n s, r.search n = .ok s →
    ∃ s', r.searchRetesting n = .ok s' ∧ SameButMarks s s'

/-- **Pruning for good is sound** with respect to the test, in every search. -/
theorem rejectionsStand (r : DistributedRun K) {pq : Pq K} (hpasses : r.call.passes = pq.passes) :
    RejectionsStand r where
  last_le _ _ _ _ hmn h h' hfull := DistributedRun.last_le hmn h h' hfull
  pruned _ _ h _ hw := DistributedRun.exists_rejected h hw
  fails_later _ _ _ _ _ _ hmn h h' he hq := he.fails_later hpasses hmn h h' hq
  retesting _ _ h := DistributedRun.searchRetesting_eq hpasses h

end Stands

/-- The two points on two servers by inner products, where the second point is rejected. -/
theorem rejectionsStand_ipServers : RejectionsStand ipServersRun ∧
    ∃ s, ipServersRun.search 12 = .ok s ∧ s.pruned = [⟨1, 0⟩] := by
  refine ⟨rejectionsStand ipServersRun
    (show _ = (⟨false, fun _ => 0⟩ : Pq ℚ).passes from rfl), ?_⟩
  exact exists_of_check (x := ipServersRun.search 12) (p := fun s => s.pruned = [⟨1, 0⟩])
    (by decide +kernel)

end RedAnns
