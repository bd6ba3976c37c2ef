import RedAnns.Search.Serving

/-!
The batches in flight, through the steps of the distributed search.

`Inv ix R c L s batches` says, of a state at any of its loop heads, which batches are pushed
and not done with: the two rings hold them, the polls of the thread and its outstanding reads
are those of the batches not waited for yet, the countdown of `relax` leaves room for one more,
and a vertex that was marked is scored, pruned, or still to be scored, and only one of these.

* `Inv.move`, `Inv.scored`, `Inv.awaitFront`, `Inv.popFront` and `Inv.issue` are the kinds of
  steps, and `Moves` lists what a step can do.
* `Inv.step` puts them together: no step fails, and every step is one of `Moves`, keeps the
  invariant and lowers `stepsLeft`.
-/

namespace RedAnns

open GStore

/-! ### What a point of the search stands for -/

/-- The remote vertices of a batch. -/
def remotes (sid : ServerId) (b : Batch) : List Item := (b.map Prod.fst).filter (·.first ≠ sid)

/-- The local vertices of a batch. -/
def locals (sid : ServerId) (b : Batch) : List Item := (b.map Prod.fst).filter (·.first = sid)

namespace Point

/-- The batches that are not waited for, of those not done with. -/
def unwaited : Point → List Batch → List Batch
  | .scoreRemote _ _, batches => batches.tail
  | _, batches => batches

/-- The vertices that the loop at this point has still to score. -/
def current (sid : ServerId) : Point → List Item
  | .entry rest => rest.map Prod.fst
  | .scoreLocal rest => locals sid rest
  | .scoreRemote _ rest => remotes sid rest
  | _ => []

/-- All vertices still to be scored: those of the loop at this point and the remote ones of the
batches that are not waited for. -/
def pending (sid : ServerId) (p : Point) (batches : List Batch) : List Item :=
  p.current sid ++ (p.unwaited batches).flatMap (remotes sid)

/-- The countdown of `relax`: how many batches there are at this point. -/
def Countdown (relaxed relax batches : ℕ) : Point → Prop
  | .entry _ => relax = relaxed ∧ batches = 0
  | .head => batches + relax = relaxed
  | .scoreLocal _ => batches + relax = relaxed + 1
  | .scoreRemote false _ => relax = 0 ∧ batches = relaxed + 1
  | .scoreRemote true _ => batches ≤ relaxed
  | .drain => batches ≤ relaxed
  | .finished => batches = 0

/-- What the loop at this point scores belongs to a batch and has arrived; in a loop over the
remote vertices of the front batch, all of that batch has. -/
def Ready (gs : GStore) (ctx : ThdCtx) (batches : List Batch) : Point → Prop
  | .entry rest => ∀ x ∈ rest, gs.Arrived ctx batches x.1 x.2
  | .scoreLocal rest => (∃ b ∈ batches, rest <:+ b) ∧
      ∀ x ∈ rest, x.1.first = gs.sid → gs.Arrived ctx batches x.1 x.2
  | .scoreRemote _ rest => ∃ b bs, batches = b :: bs ∧ rest <:+ b ∧
      ∀ x ∈ b, gs.Arrived ctx bs x.1 x.2
  | _ => True

/-- How far the loop at this point is from its end. -/
def cost : Point → ℕ
  | .entry rest => rest.length + 3
  | .head => 2
  | .scoreLocal rest => rest.length + 3
  | .scoreRemote _ rest => rest.length + 3
  | .drain => 1
  | .finished => 0

end Point

/-- What is ready stays ready. -/
lemma Point.Ready.keep {gs : GStore} {ctx ctx' : ThdCtx} {p : Point} {batches : List Batch}
    (h : p.Ready gs ctx batches)
    (hkeep : gs.Keeps ctx (p.unwaited batches) ctx' (p.unwaited batches)) :
    p.Ready gs ctx' batches := by
  cases p with
  | entry rest => exact fun x hx => (h x hx).keep hkeep
  | scoreLocal rest => exact ⟨h.1, fun x hx hsid => (h.2 x hx hsid).keep hkeep⟩
  | scoreRemote draining rest =>
      obtain ⟨b, bs, rfl, hsuffix, harr⟩ := h
      exact ⟨b, bs, rfl, hsuffix, fun x hx => (harr x hx).keep hkeep⟩
  | head => trivial
  | drain => trivial
  | finished => trivial

namespace Distributed

section Invariant

variable {δ : Type} [LinearOrder δ] [Inhabited δ]

/-- **The invariant of the search**, with the batches that are pushed and not done with. -/
structure Inv (ix : ServerIndex) (R : Finset Item) (c : SearchCall δ) (L : ℕ) (s : DistState δ)
    (batches : List Batch) : Prop where
  items : s.queueItemBatch = batches.map fun b => b.map Prod.fst
  vertices : s.queueVertexBatch = batches.map fun b => b.map Prod.snd
  log : s.pushed = s.scored ++ batches
  countdown : s.point.Countdown c.relax s.relax batches.length
  store : ix.gstore.StoreInv s.ctx (s.point.unwaited batches)
  pool : PoolInv ix c L s.ctx (s.point.unwaited batches) s.bestLNodes s.evaluated s.expanded
  ready : s.point.Ready ix.gstore s.ctx batches
  visited : ∀ w, w ∈ s.insertedIntoPoolRs ↔
    w ∈ s.evaluated ++ s.pruned ++ s.point.pending ix.gstore.sid batches
  nodup : (s.evaluated ++ s.pruned ++ s.point.pending ix.gstore.sid batches).Nodup
  inserted_subset : s.insertedIntoPoolRs ⊆ R
  neighbors : ∀ t ∈ s.expanded, ∀ w ∈ ix.store.neighbors (ix.store.getVertex t),
    w ∈ s.insertedIntoPoolRs
  expanded_nodup : s.expanded.Nodup

/-- How far the search is from its end. -/
def stepsLeft (R : Finset Item) (batches : List Batch) (s : DistState δ) : ℕ :=
  (R.card - s.expanded.length) * (2 * R.card + 5) + s.point.cost
    + ((s.point.unwaited batches).map fun b => b.length + 3).sum

variable {ix : ServerIndex} {c : SearchCall δ} {R : Finset Item} {L : ℕ} {s s' : DistState δ}
  {batches : List Batch} {p : Point}

/-- Progress of the hardware keeps the invariant. -/
lemma Inv.tick (h : Inv ix R c L s batches) : Inv ix R c L (tick ix s) batches := by
  obtain ⟨hstore, hkeep⟩ := h.store.progress
  exact { h with
    store := hstore
    pool := h.pool.keep hkeep rfl
    ready := h.ready.keep hkeep }

/-- A step to a point with the same batches in flight and the same vertices to be scored. -/
lemma Inv.move (h : Inv ix R c L s batches) {relax : ℕ}
    (hun : p.unwaited batches = s.point.unwaited batches)
    (hpend : p.pending ix.gstore.sid batches = s.point.pending ix.gstore.sid batches)
    (hcount : p.Countdown c.relax relax batches.length)
    (hready : p.Ready ix.gstore s.ctx batches) :
    Inv ix R c L { s with point := p, relax := relax } batches where
  items := h.items
  vertices := h.vertices
  log := h.log
  countdown := hcount
  store := hun.symm ▸ h.store
  pool := hun.symm ▸ h.pool
  ready := hready
  visited := hpend.symm ▸ h.visited
  nodup := hpend.symm ▸ h.nodup
  inserted_subset := h.inserted_subset
  neighbors := h.neighbors
  expanded_nodup := h.expanded_nodup

/-- A step that scores the next vertex. -/
lemma Inv.scored (hs : Serves ix R) (hL : 0 < L) (h : Inv ix R c L s batches) {x : Item × Ptr}
    (hun : p.unwaited batches = s.point.unwaited batches)
    (hpend : s.point.pending ix.gstore.sid batches = x.1 :: p.pending ix.gstore.sid batches)
    (hcount : p.Countdown c.relax s.relax batches.length)
    (hready : p.Ready ix.gstore s.ctx batches)
    (harr : ix.gstore.Arrived s.ctx (s.point.unwaited batches) x.1 x.2) :
    Inv ix R c L { score ix c s x with point := p } batches ∧
      ∀ item ptr, s.ctx.thdCache item = some ptr →
        (score ix c s x).ctx.thdCache item = some ptr := by
  have hnodup := h.nodup
  rw [hpend] at hnodup
  have hnew : x.1 ∉ s.evaluated := fun hmem =>
    (List.nodup_append.mp hnodup).2.2 x.1 (List.mem_append_left _ hmem) x.1 (by simp) rfl
  obtain ⟨hpool, hstore, hkeep, hmono⟩ := h.pool.score hs hL h.store harr hnew
  have hperm : (s.evaluated ++ [x.1] ++ s.pruned ++ p.pending ix.gstore.sid batches).Perm
      (s.evaluated ++ s.pruned ++ x.1 :: p.pending ix.gstore.sid batches) := by
    simp only [List.append_assoc, List.singleton_append]
    exact List.Perm.append_left _ List.perm_middle.symm
  refine ⟨?_, hmono⟩
  exact
    { items := h.items
      vertices := h.vertices
      log := h.log
      countdown := hcount
      store := hun.symm ▸ hstore
      pool := hun.symm ▸ hpool
      ready := hready.keep (hun.symm ▸ hkeep)
      visited := fun w => by
        rw [show (score ix c s x).insertedIntoPoolRs = s.insertedIntoPoolRs from rfl, h.visited w,
          hpend]
        exact hperm.mem_iff.symm
      nodup := hperm.nodup_iff.mpr hnodup
      inserted_subset := h.inserted_subset
      neighbors := h.neighbors
      expanded_nodup := h.expanded_nodup }

lemma zip_map_fst_snd (b : Batch) : (b.map Prod.fst).zip (b.map Prod.snd) = b := by
  induction b with
  | nil => rfl
  | cons x b ih => rw [List.map_cons, List.map_cons, List.zip_cons_cons, ih]

/-- A step that waits for the front batch: it ends, and the batch has arrived. -/
lemma Inv.awaitFront (hs : Serves ix R) {b : Batch} {bs : List Batch}
    (h : Inv ix R c L s (b :: bs)) (hcur : s.point.current ix.gstore.sid = [])
    (hun : s.point.unwaited (b :: bs) = b :: bs) {draining : Bool}
    (hcount : (Point.scoreRemote draining b).Countdown c.relax s.relax (b :: bs).length) :
    ∃ ctx, awaitFront ix draining s
        = .ok { s with ctx := ctx, point := .scoreRemote draining b } ∧
      ctx.thdCache = s.ctx.thdCache ∧
      Inv ix R c L { s with ctx := ctx, point := .scoreRemote draining b } (b :: bs) := by
  obtain ⟨ctx, hwait, hstore, hkeep, hcache, harr⟩ := (hun ▸ h.store).wait hs.servers_le
  have hpend : (Point.scoreRemote draining b).pending ix.gstore.sid (b :: bs)
      = s.point.pending ix.gstore.sid (b :: bs) := by
    rw [Point.pending, Point.pending, hcur, hun, List.flatMap_cons]
    rfl
  refine ⟨ctx, ?_, hcache, ?_⟩
  · rw [Distributed.awaitFront, h.items, h.vertices]
    simp only [List.map_cons, hwait, zip_map_fst_snd]
    rfl
  · exact
      { items := h.items
        vertices := h.vertices
        log := h.log
        countdown := hcount
        store := hstore
        pool := (hun ▸ h.pool).keep hkeep hcache
        ready := ⟨b, bs, rfl, List.suffix_refl b, harr⟩
        visited := hpend.symm ▸ h.visited
        nodup := hpend.symm ▸ h.nodup
        inserted_subset := h.inserted_subset
        neighbors := h.neighbors
        expanded_nodup := h.expanded_nodup }

/-- A step that is done with the front batch. -/
lemma Inv.popFront {b : Batch} {bs : List Batch} {draining : Bool}
    (h : Inv ix R c L s (b :: bs)) (hp : s.point = .scoreRemote draining [])
    (hun : p.unwaited bs = bs) (hcur : p.current ix.gstore.sid = [])
    (hcount : p.Countdown c.relax s.relax bs.length) (hready : p.Ready ix.gstore s.ctx bs) :
    Inv ix R c L { popFront s with point := p } bs := by
  have hstore := h.store
  have hpool := h.pool
  have hvisited := h.visited
  have hnodup := h.nodup
  have hpend : p.pending ix.gstore.sid bs
      = (Point.scoreRemote draining []).pending ix.gstore.sid (b :: bs) := by
    rw [Point.pending, hun, hcur]
    rfl
  rw [hp] at hstore hpool hvisited hnodup
  exact
    { items := by
        show s.queueItemBatch.tail = _
        rw [h.items, List.map_cons, List.tail_cons]
      vertices := by
        show s.queueVertexBatch.tail = _
        rw [h.vertices, List.map_cons, List.tail_cons]
      log := by
        show s.pushed = s.scored ++ [(s.queueItemBatch.headD []).zip
          (s.queueVertexBatch.headD [])] ++ bs
        rw [h.log, h.items, h.vertices, List.map_cons, List.map_cons, List.headD_cons,
          List.headD_cons, zip_map_fst_snd, List.append_assoc, List.singleton_append]
      countdown := hcount
      store := hun.symm ▸ hstore
      pool := hun.symm ▸ hpool
      ready := hready
      visited := hpend.symm ▸ hvisited
      nodup := hpend.symm ▸ hnodup
      inserted_subset := h.inserted_subset
      neighbors := h.neighbors
      expanded_nodup := h.expanded_nodup }

/-! ### Expanding a node -/

/-- The node that is expanded next. -/
def nextNode (s : DistState δ) : Item := s.bestLNodes.closestUnexpanded.1.id

/-- The loop over the neighbours of the next node, on its record. -/
def traversal (ix : ServerIndex) (c : SearchCall δ) (s : DistState δ) : Traversal :=
  (ix.layout.neighborsDistributed (ix.gstore.record (nextNode s))).foldl
    (visitNeighbor ix c s.bestLNodes.closestUnexpanded.2) ⟨s.insertedIntoPoolRs, [], []⟩

/-- The state after the next node was expanded, with the pointers and the context that
`get_vertex_batch` has returned. -/
def issued (ix : ServerIndex) (c : SearchCall δ) (s : DistState δ) (ptrs : List Ptr)
    (ctx : ThdCtx) : DistState δ :=
  { s with
    point := .scoreLocal ((traversal ix c s).itemScratch.zip ptrs)
    bestLNodes := s.bestLNodes.closestUnexpanded.2
    insertedIntoPoolRs := (traversal ix c s).inserted
    ctx := ctx
    queueItemBatch := pushBack (c.relax + 1) s.queueItemBatch (traversal ix c s).itemScratch
    queueVertexBatch := pushBack (c.relax + 1) s.queueVertexBatch ptrs
    stats := s.stats.map fun stats => stats.update ix.gstore.sid (traversal ix c s).itemScratch
    expanded := s.expanded ++ [nextNode s]
    pruned := s.pruned ++ (traversal ix c s).pruned
    pushed := s.pushed ++ [(traversal ix c s).itemScratch.zip ptrs] }

omit [LinearOrder δ] in
/-- The marked vertices after the loop over the neighbours of the next node. -/
lemma traversed_traversal (ix : ServerIndex) (c : SearchCall δ) (s : DistState δ) :
    Traversed s.insertedIntoPoolRs (traversal ix c s) ∧
      ∀ w, w ∈ (traversal ix c s).inserted ↔ w ∈ s.insertedIntoPoolRs ∨
        w ∈ (ix.layout.neighborsDistributed (ix.gstore.record (nextNode s))).map Prod.snd :=
  traversed_foldl ix c s.bestLNodes.closestUnexpanded.2 s.insertedIntoPoolRs _

omit [LinearOrder δ] in
/-- The body of the main loop, from what it reads of the next node. -/
lemma issue_eq {ptr : Ptr} (hget : ix.gstore.getVertex s.ctx (nextNode s) = .ok ptr)
    (hentries : ix.layout.neighborsDistributed (ix.gstore.view s.ctx ptr)
      = ix.layout.neighborsDistributed (ix.gstore.record (nextNode s))) :
    issue ix c s = (ix.gstore.getVertexBatch s.ctx (traversal ix c s).itemScratch true).map
      fun x => issued ix c s x.1 x.2 := by
  have hissue : issue ix c s = (do
      let ptr ← ix.gstore.getVertex s.ctx (nextNode s)
      let t := (ix.layout.neighborsDistributed (ix.gstore.view s.ctx ptr)).foldl
        (visitNeighbor ix c s.bestLNodes.closestUnexpanded.2) ⟨s.insertedIntoPoolRs, [], []⟩
      let x ← ix.gstore.getVertexBatch s.ctx t.itemScratch true
      .ok { s with
        point := .scoreLocal (t.itemScratch.zip x.1)
        bestLNodes := s.bestLNodes.closestUnexpanded.2
        insertedIntoPoolRs := t.inserted
        ctx := x.2
        queueItemBatch := pushBack (c.relax + 1) s.queueItemBatch t.itemScratch
        queueVertexBatch := pushBack (c.relax + 1) s.queueVertexBatch x.1
        stats := s.stats.map fun stats => stats.update ix.gstore.sid t.itemScratch
        expanded := s.expanded ++ [nextNode s]
        pruned := s.pruned ++ t.pruned
        pushed := s.pushed ++ [t.itemScratch.zip x.1] }) := rfl
  rw [hissue, hget]
  simp only [bind, Except.bind]
  rw [hentries, show List.foldl _ _ _ = traversal ix c s from rfl]
  cases ix.gstore.getVertexBatch s.ctx (traversal ix c s).itemScratch true with
  | error stop => rfl
  | ok x => rfl

lemma Inv.mem_inserted (h : Inv ix R c L s batches) {w : Item} (hw : w ∈ s.evaluated) :
    w ∈ s.insertedIntoPoolRs :=
  (h.visited w).mpr (List.mem_append_left _ (List.mem_append_left _ hw))

lemma pushBack_of_lt {α : Type*} {capacity : ℕ} {q : List α} (h : q.length < capacity) (a : α) :
    pushBack capacity q a = q ++ [a] := if_pos h

/-- A batch is its local and its remote vertices. -/
lemma locals_append_remotes (sid : ServerId) (b : Batch) :
    (locals sid b ++ remotes sid b).Perm (b.map Prod.fst) := by
  have hperm := List.filter_append_perm (fun t : Item => decide (t.first = sid)) (b.map Prod.fst)
  have heq : remotes sid b = (b.map Prod.fst).filter (fun t => !decide (t.first = sid)) :=
    List.filter_congr fun t _ => by rw [decide_not]
  rw [heq]
  exact hperm

/-- The body of the main loop under the invariant: the record of the next node is found, and
what is left to it is the request for the records of its neighbours. -/
lemma Inv.issue_eq (hs : Serves ix R) (h : Inv ix R c L s batches) (hp : s.point = .head)
    (hc : s.bestLNodes.hasUnexpandedNode = true) :
    Distributed.issue ix c s
      = (ix.gstore.getVertexBatch s.ctx (traversal ix c s).itemScratch true).map
          fun x => issued ix c s x.1 x.2 := by
  have hpool := h.pool
  rw [hp] at hpool
  obtain ⟨hmem, -, -, ⟨ptr, hget, harr⟩, -⟩ := hpool.expand hc
  exact Distributed.issue_eq hget
    (hs.neighborsDistributed_eq harr (h.inserted_subset (h.mem_inserted hmem)))

/-- **A step that expands a node**: it does not fail, its records are requested behind the
batches in flight, and neither ring loses a batch. -/
lemma Inv.issue (hs : Serves ix R) (h : Inv ix R c L s batches) (hp : s.point = .head)
    (hc : s.bestLNodes.hasUnexpandedNode = true) :
    ∃ ptrs ctx, issue ix c s = .ok (issued ix c s ptrs ctx) ∧
      ptrs.length = (traversal ix c s).itemScratch.length ∧ ctx.thdCache = s.ctx.thdCache ∧
      Inv ix R c L (issued ix c s ptrs ctx)
        (batches ++ [(traversal ix c s).itemScratch.zip ptrs]) ∧
      nextNode s ∈ R ∧ nextNode s ∉ s.expanded := by
  have hpool := h.pool
  have hstore := h.store
  have hcount := h.countdown
  have hvisited := h.visited
  have hnodup := h.nodup
  rw [hp] at hpool hstore hcount hvisited hnodup
  obtain ⟨hmem, hnot, -, -, hpool'⟩ := hpool.expand hc
  have hR : nextNode s ∈ R := h.inserted_subset (h.mem_inserted hmem)
  obtain ⟨htrav, hall⟩ := traversed_traversal ix c s
  have hsub : (traversal ix c s).inserted ⊆ R := fun w hw => by
    rcases (hall w).mp hw with hw | hw
    · exact h.inserted_subset hw
    · obtain ⟨e, he, rfl⟩ := List.mem_map.mp hw
      exact hs.neighbor_mem _ hR e he
  obtain ⟨ptrs, ctx, hbatch, hlen, hstore', hkeep, hcache, hlocal⟩ := hstore.send hs.servers_le
    (traversal ix c s).itemScratch fun w hw => hs.server_mem w (hsub
      ((htrav.mem_inserted w).mpr (Or.inr (List.mem_append_left _ hw))))
  set b : Batch := (traversal ix c s).itemScratch.zip ptrs with hb
  have hfst : b.map Prod.fst = (traversal ix c s).itemScratch := List.map_fst_zip hlen.ge
  have hsnd : b.map Prod.snd = ptrs := List.map_snd_zip hlen.le
  have hroom : batches.length < c.relax + 1 := by
    have : batches.length + s.relax = c.relax := hcount
    omega
  -- what is visited now is what was visited before, with the kept and the pruned neighbours
  have hperm : (s.evaluated ++ (s.pruned ++ (traversal ix c s).pruned)
        ++ (Point.scoreLocal b).pending ix.gstore.sid (batches ++ [b])).Perm
      (s.evaluated ++ s.pruned ++ Point.head.pending ix.gstore.sid batches
        ++ ((traversal ix c s).itemScratch ++ (traversal ix c s).pruned)) := by
    have hsplit := locals_append_remotes ix.gstore.sid b
    rw [hfst] at hsplit
    have hnew : (Point.scoreLocal b).pending ix.gstore.sid (batches ++ [b])
        = locals ix.gstore.sid b
          ++ (batches.flatMap (remotes ix.gstore.sid) ++ remotes ix.gstore.sid b) := by
      show locals ix.gstore.sid b ++ (batches ++ [b]).flatMap (remotes ix.gstore.sid) = _
      rw [List.flatMap_append, List.flatMap_singleton]
    have hold : Point.head.pending ix.gstore.sid batches
        = batches.flatMap (remotes ix.gstore.sid) := rfl
    rw [hnew, hold, List.perm_iff_count]
    intro w
    have hcountw := hsplit.count_eq w
    simp only [List.count_append] at hcountw ⊢
    omega
  refine ⟨ptrs, ctx, ?_, hlen, hcache, ?_, hR, hnot⟩
  · rw [h.issue_eq hs hp hc, hbatch]
    rfl
  · exact
      { items := by
          show pushBack (c.relax + 1) s.queueItemBatch _ = _
          rw [pushBack_of_lt (by rw [h.items, List.length_map]; exact hroom), h.items,
            List.map_append, List.map_singleton, hfst]
        vertices := by
          show pushBack (c.relax + 1) s.queueVertexBatch _ = _
          rw [pushBack_of_lt (by rw [h.vertices, List.length_map]; exact hroom), h.vertices,
            List.map_append, List.map_singleton, hsnd]
        log := by
          show s.pushed ++ [b] = s.scored ++ (batches ++ [b])
          rw [h.log, List.append_assoc]
        countdown := by
          show (batches ++ [b]).length + s.relax = c.relax + 1
          have : batches.length + s.relax = c.relax := hcount
          rw [List.length_append, List.length_singleton]
          omega
        store := hstore'
        pool := hpool'.keep hkeep hcache
        ready := by
          have hlast : b ∈ batches ++ [b] :=
            List.mem_append_right _ (List.mem_singleton_self b)
          refine ⟨⟨b, hlast, List.suffix_refl b⟩, fun x hx hsid => ?_⟩
          have hissued := hstore'.issued b hlast x hx
          refine hissued.arrived fun off heq => ?_
          rw [hlocal x hx hsid] at heq
          exact absurd heq (by simp)
        visited := fun w => by
          show w ∈ (traversal ix c s).inserted ↔ _
          rw [htrav.mem_inserted w, hvisited w, ← List.mem_append]
          exact hperm.mem_iff.symm
        nodup := by
          refine hperm.nodup_iff.mpr (List.nodup_append.mpr ⟨hnodup, htrav.nodup, ?_⟩)
          rintro w hw w' hw' rfl
          exact htrav.fresh w hw' ((hvisited w).mpr hw)
        inserted_subset := hsub
        neighbors := fun t ht w hw => by
          show w ∈ (traversal ix c s).inserted
          rcases List.mem_append.mp ht with ht | ht
          · exact (hall w).mpr (Or.inl (h.neighbors t ht w hw))
          · rw [List.mem_singleton.mp ht] at hw
            exact (hall w).mpr (Or.inr hw)
        expanded_nodup := by
          rw [show (issued ix c s ptrs ctx).expanded = s.expanded ++ [nextNode s] from rfl,
            List.nodup_append]
          refine ⟨h.expanded_nodup, List.nodup_singleton _, ?_⟩
          rintro w hw w' hw' rfl
          rw [List.mem_singleton.mp hw'] at hw
          exact hnot hw }

/-! ### One step -/

/-- **What a step can do**, with the batches that are pushed and not done with before and after
it. -/
inductive Moves (ix : ServerIndex) (c : SearchCall δ) (s : DistState δ) :
    List Batch → DistState δ → List Batch → Prop
  | entered {batches : List Batch} (hp : s.point = .entry []) :
      Moves ix c s batches { s with point := .head } batches
  | scoredEntry {batches : List Batch} {x : Item × Ptr} {rest : Batch}
      (hp : s.point = .entry (x :: rest)) :
      Moves ix c s batches { score ix c s x with point := .entry rest } batches
  | expanded {batches : List Batch} {ptrs : List Ptr} {ctx : ThdCtx} (hp : s.point = .head)
      (hc : s.bestLNodes.hasUnexpandedNode = true)
      (hlen : ptrs.length = (traversal ix c s).itemScratch.length) :
      Moves ix c s batches (issued ix c s ptrs ctx)
        (batches ++ [(traversal ix c s).itemScratch.zip ptrs])
  | exhausted {batches : List Batch} (hp : s.point = .head)
      (hc : s.bestLNodes.hasUnexpandedNode = false) :
      Moves ix c s batches { s with point := .drain } batches
  | scoredLocal {batches : List Batch} {x : Item × Ptr} {rest : Batch}
      (hp : s.point = .scoreLocal (x :: rest)) (hsid : x.1.first = ix.gstore.sid) :
      Moves ix c s batches { score ix c s x with point := .scoreLocal rest } batches
  | passedRemote {batches : List Batch} {x : Item × Ptr} {rest : Batch}
      (hp : s.point = .scoreLocal (x :: rest)) (hsid : x.1.first ≠ ix.gstore.sid) :
      Moves ix c s batches { s with point := .scoreLocal rest } batches
  | relaxed {batches : List Batch} (hp : s.point = .scoreLocal []) (hrelax : 0 < s.relax) :
      Moves ix c s batches { s with relax := s.relax - 1, point := .head } batches
  | awaited {b : Batch} {bs : List Batch} {draining : Bool} {ctx : ThdCtx}
      (hp : s.point = if draining then .drain else .scoreLocal []) :
      Moves ix c s (b :: bs) { s with ctx := ctx, point := .scoreRemote draining b } (b :: bs)
  | scoredRemote {batches : List Batch} {draining : Bool} {x : Item × Ptr} {rest : Batch}
      (hp : s.point = .scoreRemote draining (x :: rest)) (hsid : x.1.first ≠ ix.gstore.sid) :
      Moves ix c s batches { score ix c s x with point := .scoreRemote draining rest } batches
  | passedLocal {batches : List Batch} {draining : Bool} {x : Item × Ptr} {rest : Batch}
      (hp : s.point = .scoreRemote draining (x :: rest)) (hsid : x.1.first = ix.gstore.sid) :
      Moves ix c s batches { s with point := .scoreRemote draining rest } batches
  | popped {b : Batch} {bs : List Batch} {draining : Bool}
      (hp : s.point = .scoreRemote draining []) :
      Moves ix c s (b :: bs) { popFront s with point := if draining then .drain else .head } bs
  | drained (hp : s.point = .drain) : Moves ix c s [] { s with point := .finished } []

/-- What is recorded for the thread stays recorded. -/
def Records (s s' : DistState δ) : Prop :=
  ∀ item ptr, s.ctx.thdCache item = some ptr → s'.ctx.thdCache item = some ptr

/-- A step of the search under its invariant: the state it leads to has the invariant and is
nearer to the end. -/
def Leads (ix : ServerIndex) (R : Finset Item) (c : SearchCall δ) (L : ℕ) (s : DistState δ)
    (batches : List Batch) (s' : DistState δ) : Prop :=
  ∃ batches', Moves ix c s batches s' batches' ∧ Inv ix R c L s' batches' ∧
    stepsLeft R batches' s' < stepsLeft R batches s ∧ Records s s'

/-- A vertex of a loop that is not scored there is passed over. -/
lemma current_scoreLocal_cons {x : Item × Ptr} {rest : Batch} {sid : ServerId} :
    (Point.scoreLocal (x :: rest)).current sid
      = if x.1.first = sid then x.1 :: (Point.scoreLocal rest).current sid
        else (Point.scoreLocal rest).current sid := by
  simp only [Point.current, locals, List.map_cons, List.filter_cons, decide_eq_true_eq]

lemma current_scoreRemote_cons {x : Item × Ptr} {rest : Batch} {sid : ServerId}
    {draining : Bool} :
    (Point.scoreRemote draining (x :: rest)).current sid
      = if x.1.first = sid then (Point.scoreRemote draining rest).current sid
        else x.1 :: (Point.scoreRemote draining rest).current sid := by
  simp only [Point.current, remotes, List.map_cons, List.filter_cons, decide_eq_true_eq]
  by_cases hsid : x.1.first = sid
  · rw [if_pos hsid, if_neg (not_not.mpr hsid)]
  · rw [if_neg hsid, if_pos hsid]

/-- A step that expands no node: it moves vertices from those to be scored to the scored ones,
and at most it is done with the front batch. -/
structure Quiet (sid : ServerId) (s : DistState δ) (batches : List Batch) (s' : DistState δ)
    (batches' : List Batch) : Prop where
  inserted : s'.insertedIntoPoolRs = s.insertedIntoPoolRs
  expanded : s'.expanded = s.expanded
  pruned : s'.pruned = s.pruned
  pushed : s'.pushed = s.pushed
  perm : (s'.evaluated ++ s'.point.pending sid batches').Perm
    (s.evaluated ++ s.point.pending sid batches)
  evaluated : s.evaluated <+: s'.evaluated
  batches_eq : batches' = batches ∨ ∃ b, batches = b :: batches' ∧
    s'.point.pending sid batches' = batches'.flatMap (remotes sid)

/-- **A step expands the next node, or it is quiet.** -/
theorem Moves.expands_or_quiet {batches' : List Batch} (h : Moves ix c s batches s' batches') :
    (s.point = .head ∧ s.bestLNodes.hasUnexpandedNode = true ∧
      ∃ ptrs ctx, ptrs.length = (traversal ix c s).itemScratch.length ∧
        s' = issued ix c s ptrs ctx ∧
        batches' = batches ++ [(traversal ix c s).itemScratch.zip ptrs]) ∨
    Quiet ix.gstore.sid s batches s' batches' := by
  -- a step to another point with the same vertices to be scored
  have hmove : ∀ {p : Point} {relax : ℕ} {ctx : ThdCtx} {batches : List Batch},
      p.pending ix.gstore.sid batches = s.point.pending ix.gstore.sid batches →
      Quiet ix.gstore.sid s batches { s with point := p, relax := relax, ctx := ctx } batches :=
    fun hpend => ⟨rfl, rfl, rfl, rfl, by rw [hpend], List.prefix_refl _, Or.inl rfl⟩
  -- a step that scores the first of the vertices to be scored
  have hscore : ∀ {p : Point} {x : Item × Ptr} {batches : List Batch},
      s.point.pending ix.gstore.sid batches = x.1 :: p.pending ix.gstore.sid batches →
      Quiet ix.gstore.sid s batches { score ix c s x with point := p } batches :=
    fun {p x batches} hpend => ⟨rfl, rfl, rfl, rfl, by
      rw [hpend]
      show (s.evaluated ++ [x.1] ++ p.pending ix.gstore.sid batches).Perm _
      rw [List.append_assoc]
      exact List.Perm.refl _, List.prefix_append _ _, Or.inl rfl⟩
  cases h with
  | entered hp => exact Or.inr (hmove (by rw [hp]; rfl))
  | scoredEntry hp => exact Or.inr (hscore (by rw [hp]; rfl))
  | expanded hp hc hlen => exact Or.inl ⟨hp, hc, _, _, hlen, rfl, rfl⟩
  | exhausted hp hc => exact Or.inr (hmove (by rw [hp]; rfl))
  | scoredLocal hp hsid =>
      refine Or.inr (hscore ?_)
      rw [hp, Point.pending, current_scoreLocal_cons, if_pos hsid]
      rfl
  | passedRemote hp hsid =>
      refine Or.inr (hmove ?_)
      rw [hp, Point.pending, Point.pending, current_scoreLocal_cons, if_neg hsid]
      rfl
  | relaxed hp hrelax => exact Or.inr (hmove (by rw [hp]; rfl))
  | awaited hp =>
      refine Or.inr (hmove ?_)
      rw [hp, Point.pending, Point.pending]
      split_ifs
      · rfl
      · rfl
  | scoredRemote hp hsid =>
      refine Or.inr (hscore ?_)
      rw [hp, Point.pending, current_scoreRemote_cons, if_neg hsid]
      rfl
  | passedLocal hp hsid =>
      refine Or.inr (hmove ?_)
      rw [hp, Point.pending, Point.pending, current_scoreRemote_cons, if_pos hsid]
      rfl
  | @popped b _ draining hp =>
      have hpend : (if draining then Point.drain else .head).pending ix.gstore.sid batches'
          = batches'.flatMap (remotes ix.gstore.sid) := by
        split_ifs
        · rfl
        · rfl
      refine Or.inr ⟨rfl, rfl, rfl, rfl, ?_, List.prefix_refl _, Or.inr ⟨b, rfl, hpend⟩⟩
      rw [hp]
      show (s.evaluated
          ++ (if draining then Point.drain else .head).pending ix.gstore.sid batches').Perm
        (s.evaluated ++ batches'.flatMap (remotes ix.gstore.sid))
      rw [hpend]
  | drained hp => exact Or.inr (hmove (by rw [hp]; rfl))

/-- A step to a point that is nearer to the end, with the same batches in flight. -/
lemma Leads.of_move (h : Inv ix R c L s batches) {relax : ℕ}
    (hun : p.unwaited batches = s.point.unwaited batches)
    (hcur : p.current ix.gstore.sid = s.point.current ix.gstore.sid)
    (hcount : p.Countdown c.relax relax batches.length)
    (hready : p.Ready ix.gstore s.ctx batches) (hcost : p.cost < s.point.cost)
    (hmoves : Moves ix c s batches { s with point := p, relax := relax } batches) :
    Leads ix R c L s batches { s with point := p, relax := relax } := by
  have hpend : p.pending ix.gstore.sid batches = s.point.pending ix.gstore.sid batches := by
    rw [Point.pending, Point.pending, hun, hcur]
  refine ⟨batches, hmoves, h.move hun hpend hcount hready, ?_, fun _ _ hptr => hptr⟩
  simp only [stepsLeft, hun]
  omega

/-- A step that scores the next vertex. -/
lemma Leads.of_scored (hs : Serves ix R) (hL : 0 < L) (h : Inv ix R c L s batches)
    {x : Item × Ptr} (hun : p.unwaited batches = s.point.unwaited batches)
    (hcur : s.point.current ix.gstore.sid = x.1 :: p.current ix.gstore.sid)
    (hcount : p.Countdown c.relax s.relax batches.length)
    (hready : p.Ready ix.gstore s.ctx batches)
    (harr : ix.gstore.Arrived s.ctx (s.point.unwaited batches) x.1 x.2)
    (hcost : p.cost < s.point.cost)
    (hmoves : Moves ix c s batches { score ix c s x with point := p } batches) :
    Leads ix R c L s batches { score ix c s x with point := p } := by
  have hpend : s.point.pending ix.gstore.sid batches
      = x.1 :: p.pending ix.gstore.sid batches := by
    rw [Point.pending, Point.pending, hun, hcur, List.cons_append]
  obtain ⟨hinv, hrec⟩ := h.scored hs hL hun hpend hcount hready harr
  refine ⟨batches, hmoves, hinv, ?_, hrec⟩
  have hexp : (score ix c s x).expanded = s.expanded := rfl
  simp only [stepsLeft, hun, hexp]
  omega

/-- A step that waits for the front batch. -/
lemma Leads.of_awaitFront (hs : Serves ix R) {b : Batch} {bs : List Batch}
    (h : Inv ix R c L s (b :: bs)) (hcur : s.point.current ix.gstore.sid = [])
    (hun : s.point.unwaited (b :: bs) = b :: bs) {draining : Bool}
    (hcount : (Point.scoreRemote draining b).Countdown c.relax s.relax (b :: bs).length)
    (hcost : 0 < s.point.cost) (hp : s.point = if draining then .drain else .scoreLocal []) :
    ∃ s', awaitFront ix draining s = .ok s' ∧ Leads ix R c L s (b :: bs) s' := by
  obtain ⟨ctx, hrun, hcache, hinv⟩ := h.awaitFront hs hcur hun hcount
  refine ⟨_, hrun, b :: bs, .awaited hp, hinv, ?_, fun item ptr hptr => ?_⟩
  · rw [stepsLeft, stepsLeft, hun]
    show (R.card - s.expanded.length) * (2 * R.card + 5) + (b.length + 3)
      + (bs.map fun b => b.length + 3).sum < _
    rw [List.map_cons, List.sum_cons]
    omega
  · rw [← hcache] at hptr
    exact hptr

/-- A step that is done with the front batch. -/
lemma Leads.of_popFront {b : Batch} {bs : List Batch} {draining : Bool}
    (h : Inv ix R c L s (b :: bs)) (hp : s.point = .scoreRemote draining [])
    (hun : p.unwaited bs = bs) (hcur : p.current ix.gstore.sid = [])
    (hcount : p.Countdown c.relax s.relax bs.length) (hready : p.Ready ix.gstore s.ctx bs)
    (hcost : p.cost < 3)
    (hmoves : Moves ix c s (b :: bs) { popFront s with point := p } bs) :
    Leads ix R c L s (b :: bs) { popFront s with point := p } := by
  refine ⟨bs, hmoves, h.popFront hp hun hcur hcount hready, ?_, fun _ _ hptr => hptr⟩
  rw [stepsLeft, stepsLeft, hun, hp]
  show (R.card - s.expanded.length) * (2 * R.card + 5) + p.cost + _
    < _ + 3 + (bs.map fun b => b.length + 3).sum
  omega

/-- A step that expands a node. -/
lemma Leads.of_issue (hs : Serves ix R) (h : Inv ix R c L s batches) (hp : s.point = .head)
    (hc : s.bestLNodes.hasUnexpandedNode = true) :
    ∃ ptrs ctx, issue ix c s = .ok (issued ix c s ptrs ctx) ∧
      Leads ix R c L s batches (issued ix c s ptrs ctx) := by
  obtain ⟨ptrs, ctx, hrun, hlen, hcache, hinv, hR, hnot⟩ := h.issue hs hp hc
  refine ⟨ptrs, ctx, hrun, _, .expanded hp hc hlen, hinv, ?_, fun item ptr hptr => ?_⟩
  · have hexp : (s.expanded ++ [nextNode s]).length ≤ R.card := by
      have hnd : (s.expanded ++ [nextNode s]).Nodup := hinv.expanded_nodup
      rw [← List.toFinset_card_of_nodup hnd]
      refine Finset.card_le_card fun w hw => ?_
      rcases List.mem_append.mp (List.mem_toFinset.mp hw) with hw | hw
      · exact h.inserted_subset (h.mem_inserted (h.pool.expanded_subset hw))
      · rwa [List.mem_singleton.mp hw]
    have hbatch : ((traversal ix c s).itemScratch.zip ptrs).length ≤ R.card := by
      obtain ⟨htrav, -⟩ := traversed_traversal ix c s
      have hscratch : (traversal ix c s).itemScratch.length ≤ R.card := by
        have hnd : (traversal ix c s).itemScratch.Nodup := (List.nodup_append.mp htrav.nodup).1
        rw [← List.toFinset_card_of_nodup hnd]
        refine Finset.card_le_card fun w hw => hinv.inserted_subset ?_
        exact (htrav.mem_inserted w).mpr
          (Or.inr (List.mem_append_left _ (List.mem_toFinset.mp hw)))
      rw [List.length_zip]
      omega
    rw [List.length_append, List.length_singleton] at hexp
    have hsucc : R.card - s.expanded.length = R.card - (s.expanded.length + 1) + 1 := by omega
    have hlength : (issued ix c s ptrs ctx).expanded.length = s.expanded.length + 1 := by
      rw [← List.length_singleton (a := nextNode s), ← List.length_append]
      rfl
    rw [stepsLeft, stepsLeft, hlength, hsucc, hp,
      Nat.succ_mul (R.card - (s.expanded.length + 1)) (2 * R.card + 5)]
    show _ + (((traversal ix c s).itemScratch.zip ptrs).length + 3)
      + ((batches ++ [(traversal ix c s).itemScratch.zip ptrs]).map fun b => b.length + 3).sum
      < _ + 2 + (batches.map fun b => b.length + 3).sum
    rw [List.map_append, List.sum_append, List.map_singleton, List.sum_singleton]
    omega
  · rw [← hcache] at hptr
    exact hptr

/-! ### From one loop head to the next -/

/-- **No step fails**, and every step but the last keeps the invariant and brings the search
nearer to its end. -/
theorem Inv.advance (hs : Serves ix R) (hL : 0 < L) (h : Inv ix R c L s batches)
    (hp : s.point ≠ .finished) :
    ∃ s', advance ix c s = .ok s' ∧ Leads ix R c L s batches s' := by
  have hcount := h.countdown
  have hready := h.ready
  rw [Distributed.advance]
  cases hpoint : s.point with
  | entry rest =>
      rw [hpoint] at hcount hready
      cases rest with
      | nil =>
          refine ⟨_, rfl, Leads.of_move h (by rw [hpoint]; rfl) (by rw [hpoint]; rfl) ?_ trivial
            (by rw [hpoint]; decide) (.entered hpoint)⟩
          show batches.length + s.relax = c.relax
          rw [hcount.1, hcount.2, Nat.zero_add]
      | cons x rest =>
          refine ⟨_, rfl, Leads.of_scored hs hL h (by rw [hpoint]; rfl) (by rw [hpoint]; rfl)
            hcount (fun y hy => hready y (List.mem_cons_of_mem _ hy)) ?_
            (by rw [hpoint]; exact Nat.lt_succ_self _) (.scoredEntry hpoint)⟩
          rw [hpoint]
          exact hready x (by simp)
  | head =>
      rw [hpoint] at hcount
      cases hc : s.bestLNodes.hasUnexpandedNode with
      | true =>
          obtain ⟨ptrs, ctx, hrun, hleads⟩ := Leads.of_issue hs h hpoint hc
          exact ⟨_, hrun, hleads⟩
      | false =>
          refine ⟨_, rfl, Leads.of_move h (by rw [hpoint]; rfl) (by rw [hpoint]; rfl) ?_ trivial
            (by rw [hpoint]; decide) (.exhausted hpoint hc)⟩
          have : batches.length + s.relax = c.relax := hcount
          show batches.length ≤ c.relax
          omega
  | scoreLocal rest =>
      rw [hpoint] at hcount hready
      have hlen : batches.length + s.relax = c.relax + 1 := hcount
      cases rest with
      | nil =>
          by_cases hrelax : s.relax > 0
          · simp only [if_pos hrelax]
            refine ⟨_, rfl, Leads.of_move h (by rw [hpoint]; rfl) (by rw [hpoint]; rfl) ?_ trivial
              (by rw [hpoint]; decide) (.relaxed hpoint hrelax)⟩
            show batches.length + (s.relax - 1) = c.relax
            omega
          · simp only [if_neg hrelax]
            cases batches with
            | nil =>
                rw [List.length_nil] at hlen
                omega
            | cons b bs =>
                exact Leads.of_awaitFront hs h (by rw [hpoint]; rfl) (by rw [hpoint]; rfl)
                  ⟨by omega, by omega⟩ (by rw [hpoint]; decide) (by rw [hpoint]; rfl)
      | cons x rest =>
          obtain ⟨⟨b, hb, hsuffix⟩, harr⟩ := hready
          have hrest : (Point.scoreLocal rest).Ready ix.gstore s.ctx batches :=
            ⟨⟨b, hb, (List.suffix_cons x rest).trans hsuffix⟩,
              fun y hy => harr y (List.mem_cons_of_mem _ hy)⟩
          by_cases hsid : x.1.first = ix.gstore.sid
          · simp only [if_neg (not_not.mpr hsid)]
            refine ⟨_, rfl, Leads.of_scored hs hL h (by rw [hpoint]; rfl) ?_ hcount hrest ?_
              (by rw [hpoint]; exact Nat.lt_succ_self _) (.scoredLocal hpoint hsid)⟩
            · rw [hpoint, current_scoreLocal_cons, if_pos hsid]
            · rw [hpoint]
              exact harr x (by simp) hsid
          · simp only [if_pos hsid]
            refine ⟨_, rfl, Leads.of_move h (by rw [hpoint]; rfl) ?_ hcount hrest
              (by rw [hpoint]; exact Nat.lt_succ_self _) (.passedRemote hpoint hsid)⟩
            rw [hpoint, current_scoreLocal_cons, if_neg hsid]
  | scoreRemote draining rest =>
      rw [hpoint] at hcount hready
      obtain ⟨b, bs, rfl, hsuffix, harr⟩ := hready
      cases rest with
      | nil =>
          refine ⟨_, rfl, ?_⟩
          cases draining with
          | true =>
              refine Leads.of_popFront h hpoint rfl rfl ?_ trivial (by decide) (.popped hpoint)
              have : (b :: bs).length ≤ c.relax := hcount
              show bs.length ≤ c.relax
              exact (Nat.le_succ _).trans this
          | false =>
              refine Leads.of_popFront h hpoint rfl rfl ?_ trivial (by decide) (.popped hpoint)
              have hlen : (b :: bs).length = c.relax + 1 := hcount.2
              rw [List.length_cons] at hlen
              show bs.length + s.relax = c.relax
              rw [hcount.1]
              omega
      | cons x rest =>
          have hrest : (Point.scoreRemote draining rest).Ready ix.gstore s.ctx (b :: bs) :=
            ⟨b, bs, rfl, (List.suffix_cons x rest).trans hsuffix, harr⟩
          have hcount' : (Point.scoreRemote draining rest).Countdown c.relax s.relax
              (b :: bs).length := by
            cases draining <;> exact hcount
          by_cases hsid : x.1.first = ix.gstore.sid
          · simp only [if_pos hsid]
            refine ⟨_, rfl, Leads.of_move h (by rw [hpoint]; rfl) ?_ hcount' hrest
              (by rw [hpoint]; exact Nat.lt_succ_self _) (.passedLocal hpoint hsid)⟩
            rw [hpoint, current_scoreRemote_cons, if_pos hsid]
          · simp only [if_neg hsid]
            refine ⟨_, rfl, Leads.of_scored hs hL h (by rw [hpoint]; rfl) ?_ hcount' hrest ?_
              (by rw [hpoint]; exact Nat.lt_succ_self _) (.scoredRemote hpoint hsid)⟩
            · rw [hpoint, current_scoreRemote_cons, if_neg hsid]
            · rw [hpoint]
              exact harr x (hsuffix.subset (by simp))
  | drain =>
      rw [hpoint] at hcount
      cases batches with
      | nil =>
          have hempty : s.queueItemBatch.isEmpty = true := by rw [h.items]; rfl
          simp only [hempty, if_true]
          exact ⟨_, rfl, Leads.of_move h (by rw [hpoint]; rfl) (by rw [hpoint]; rfl) rfl trivial
            (by rw [hpoint]; decide) (.drained hpoint)⟩
      | cons b bs =>
          have hempty : s.queueItemBatch.isEmpty = false := by rw [h.items]; rfl
          simp only [hempty]
          exact Leads.of_awaitFront hs h (by rw [hpoint]; rfl) (by rw [hpoint]; rfl) hcount
            (by rw [hpoint]; decide) (by rw [hpoint]; rfl)
  | finished => exact absurd hpoint hp

/-- **No step fails**, whatever progress the hardware makes meanwhile. -/
theorem Inv.step (hs : Serves ix R) (hL : 0 < L) (h : Inv ix R c L s batches)
    (hp : s.point ≠ .finished) :
    ∃ s', step ix c s = .ok s' ∧ Leads ix R c L (Distributed.tick ix s) batches s' :=
  h.tick.advance hs hL hp

end Invariant

end Distributed

end RedAnns
