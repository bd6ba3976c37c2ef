import RedAnns.Search.Distributed

/-!
The pool and the cache of the thread, through the steps of the distributed search.

* `Serves ix R`: the items `R` are stored on servers of the cluster, closed under
  out-neighbours, with records that fit their slots; the entry points are among them.
* `PoolInv`: the pool holds the scored vertices; what the thread has recorded are scored
  vertices behind arrived pointers, and every remote vertex of the pool is recorded.
* `PoolInv.score`, `PoolInv.expand`, `PoolInv.keep`: what scoring a vertex, expanding a node
  and the operations of the store make of it. Recorded pointers are never replaced.
* `traversed_foldl`: the loop over the neighbours of a node sorts them into visited before,
  kept and pruned.
-/

namespace RedAnns

open GStore

/-- **What a server needs to run the search** over the items `R`. -/
structure Serves (ix : ServerIndex) (R : Finset Item) : Prop where
  servers_le : ix.gstore.numServers ≤ 256
  size_eq : ix.gstore.vertexSize = ix.layout.elementSize
  copies : ix.gstore.TrueCopies
  server_mem : ∀ t ∈ R, t.first ∈ ix.gstore.servers
  entry_mem : ix.membktEP ∈ R
  adaptive_mem : ∀ vs ∈ ix.learnProjectionInBase, ∀ v ∈ vs,
    placeOf ix.baseInBucket ix.baseToLid v.toNat ∈ R
  neighbor_mem : ∀ t ∈ R, ∀ e ∈ ix.layout.neighborsDistributed (ix.gstore.record t), e.2 ∈ R
  fits : ∀ t ∈ R, ix.layout.neighborOffset + 4
    + 9 * ((ix.gstore.record t).readWord ix.layout.neighborOffset).toNat ≤ ix.layout.elementSize

/-- The records of the cluster, as the search reads them. -/
def ServerIndex.store (ix : ServerIndex) : RecordStore Item where
  getVertex := ix.gstore.record
  base := ix.layout.base
  neighbors v := (ix.layout.neighborsDistributed v).map Prod.snd
  label := ix.layout.label

section Arrived

variable {ix : ServerIndex} {R : Finset Item} {ctx : ThdCtx} {u : List Batch} {item : Item}
  {ptr : Ptr}

lemma Serves.agree (hs : Serves ix R) (h : ix.gstore.Arrived ctx u item ptr) :
    ix.layout.Agree (ix.gstore.view ctx ptr) (ix.gstore.record item) :=
  fun _ hi => h.view_eq hs.copies (hs.size_eq ▸ hi)

/-- The entries read behind an arrived pointer are those of the record. -/
lemma Serves.neighborsDistributed_eq (hs : Serves ix R) (h : ix.gstore.Arrived ctx u item ptr)
    (hR : item ∈ R) : ix.layout.neighborsDistributed (ix.gstore.view ctx ptr)
      = ix.layout.neighborsDistributed (ix.gstore.record item) :=
  (hs.agree h).neighborsDistributed (hs.fits item hR)

end Arrived

namespace Distributed

section Pool

variable {δ : Type} [LinearOrder δ] [Inhabited δ]

/-- The pairs of a list of vertices. -/
def keys (ix : ServerIndex) (c : SearchCall δ) (l : List Item) : Finset (δ ×ₗ Item) :=
  l.toFinset.image (ix.store.key c.distance c.query)

/-- **The pool and the thread cache**: `evaluated` are the scored vertices, `expanded` the
expanded ones, and `u` the batches that are not waited for. -/
structure PoolInv (ix : ServerIndex) (c : SearchCall δ) (L : ℕ) (ctx : ThdCtx) (u : List Batch)
    (q : NeighborPriorityQueue Item δ) (evaluated expanded : List Item) : Prop where
  capacity : q.capacity = L
  holds : q.Holds (keys ix c evaluated) (keys ix c expanded)
  expanded_subset : expanded ⊆ evaluated
  recorded : ∀ item ptr, ctx.thdCache item = some ptr →
    item ∈ evaluated ∧ ix.gstore.Arrived ctx u item ptr
  cached : ∀ item, ix.store.key c.distance c.query item ∈ smallest L (keys ix c evaluated) →
    item.first ≠ ix.gstore.sid → ∃ ptr, ctx.thdCache item = some ptr

variable {ix : ServerIndex} {c : SearchCall δ} {R : Finset Item} {L : ℕ} {ctx ctx' : ThdCtx}
  {u u' : List Batch} {q : NeighborPriorityQueue Item δ} {evaluated expanded l : List Item}

omit [Inhabited δ] in
lemma mem_keys {item : Item} : ix.store.key c.distance c.query item ∈ keys ix c l ↔ item ∈ l := by
  rw [keys, Finset.mem_image]
  constructor
  · rintro ⟨w, hw, heq⟩
    rw [RecordStore.key_injective heq] at hw
    exact List.mem_toFinset.mp hw
  · exact fun h => ⟨item, List.mem_toFinset.mpr h, rfl⟩

omit [Inhabited δ] in
lemma exists_of_mem_keys {k : δ ×ₗ Item} (h : k ∈ keys ix c l) :
    ∃ item ∈ l, k = ix.store.key c.distance c.query item := by
  obtain ⟨item, hitem, rfl⟩ := Finset.mem_image.mp h
  exact ⟨item, List.mem_toFinset.mp hitem, rfl⟩

omit [Inhabited δ] in
lemma keys_append_singleton (item : Item) :
    keys ix c (l ++ [item]) = insert (ix.store.key c.distance c.query item) (keys ix c l) := by
  rw [keys, List.toFinset_append, List.toFinset_cons, List.toFinset_nil, insert_empty_eq,
    Finset.union_singleton, Finset.image_insert]
  rfl

omit [Inhabited δ] in
lemma keys_append (l l' : List Item) : keys ix c (l ++ l') = keys ix c l ∪ keys ix c l' := by
  rw [keys, List.toFinset_append, Finset.image_union]
  rfl

omit [Inhabited δ] in
lemma keys_eq_of_perm {l' : List Item} (h : l.Perm l') : keys ix c l = keys ix c l' := by
  rw [keys, List.toFinset_eq_of_perm l l' h]
  rfl

omit [Inhabited δ] in
lemma disjoint_keys {l' : List Item} (h : l.Disjoint l') :
    Disjoint (keys ix c l) (keys ix c l') := by
  refine Finset.disjoint_left.mpr fun k hk hk' => ?_
  obtain ⟨item, hitem, rfl⟩ := exists_of_mem_keys hk
  exact h hitem (mem_keys.mp hk')

/-- The operations of the store keep the pool and what is recorded. -/
lemma PoolInv.keep (h : PoolInv ix c L ctx u q evaluated expanded)
    (hkeep : ix.gstore.Keeps ctx u ctx' u') (hcache : ctx'.thdCache = ctx.thdCache) :
    PoolInv ix c L ctx' u' q evaluated expanded where
  capacity := h.capacity
  holds := h.holds
  expanded_subset := h.expanded_subset
  recorded item ptr hptr := by
    rw [hcache] at hptr
    obtain ⟨hmem, harr⟩ := h.recorded item ptr hptr
    exact ⟨hmem, harr.keep hkeep⟩
  cached item hmem hne := by
    rw [hcache]
    exact h.cached item hmem hne

/-- **No thread cache miss.** The record of a vertex of the pool is found, and it has
arrived. -/
lemma PoolInv.getVertex (h : PoolInv ix c L ctx u q evaluated expanded) {item : Item}
    (hmem : ix.store.key c.distance c.query item ∈ smallest L (keys ix c evaluated)) :
    ∃ ptr, ix.gstore.getVertex ctx item = .ok ptr ∧ ix.gstore.Arrived ctx u item ptr := by
  rw [GStore.getVertex]
  by_cases hsid : item.first = ix.gstore.sid
  · rw [if_pos hsid]
    exact ⟨_, rfl, ⟨hsid, rfl⟩, fun off heq => absurd heq (by simp)⟩
  · rw [if_neg hsid]
    obtain ⟨ptr, hptr⟩ := h.cached item hmem hsid
    rw [hptr]
    exact ⟨ptr, rfl, (h.recorded item ptr hptr).2⟩

/-- The entries of the pool are scored vertices with their distances. -/
lemma PoolInv.exists_of_mem_live (h : PoolInv ix c L ctx u q evaluated expanded)
    {n : Neighbor Item δ} (hn : n ∈ q.live) :
    n.id ∈ evaluated ∧ n.key = ix.store.key c.distance c.query n.id ∧
      n.key ∈ smallest L (keys ix c evaluated) := by
  have hmem : n.key ∈ smallest L (keys ix c evaluated) := by
    rw [← h.capacity, ← h.holds.keys]
    exact List.mem_map_of_mem hn
  obtain ⟨item, hitem, heq⟩ := exists_of_mem_keys (mem_of_mem_smallest hmem)
  have hid : n.id = item := congrArg (fun k => (ofLex k).2) heq
  exact ⟨hid ▸ hitem, hid ▸ heq, hmem⟩

/-- **Scoring a vertex** whose record has arrived and that was not scored before adds it to
the scored ones; whatever was recorded stays recorded. -/
theorem PoolInv.score (hs : Serves ix R) (hL : 0 < L) {s : DistState δ}
    (h : PoolInv ix c L s.ctx u s.bestLNodes s.evaluated s.expanded)
    (hstore : ix.gstore.StoreInv s.ctx u)
    {x : Item × Ptr} (harr : ix.gstore.Arrived s.ctx u x.1 x.2) (hx : x.1 ∉ s.evaluated) :
    PoolInv ix c L (score ix c s x).ctx u (score ix c s x).bestLNodes
        (score ix c s x).evaluated s.expanded ∧
      ix.gstore.StoreInv (score ix c s x).ctx u ∧
      ix.gstore.Keeps s.ctx u (score ix c s x).ctx u ∧
      ∀ item ptr, s.ctx.thdCache item = some ptr →
        (score ix c s x).ctx.thdCache item = some ptr := by
  set n : Neighbor Item δ := ⟨x.1, ix.store.dist c.distance c.query x.1, false⟩ with hn
  have hkey : n.key = ix.store.key c.distance c.query x.1 := rfl
  have hscore : Distributed.score ix c s x = { s with
      bestLNodes := (s.bestLNodes.insert n).2
      ctx := if (s.bestLNodes.insert n).1 then ix.gstore.updateThdCache s.ctx x.1 x.2 else s.ctx
      evaluated := s.evaluated ++ [x.1] } := by
    have hdist : c.distance.compare (ix.layout.base (ix.gstore.view s.ctx x.2)) c.query
        = ix.store.dist c.distance c.query x.1 :=
      congrArg (c.distance.compare · c.query) (hs.agree harr).base
    rw [Distributed.score, hdist]
  have hnot : n.key ∉ keys ix c s.evaluated := fun hmem => hx (mem_keys.mp (hkey ▸ hmem))
  obtain ⟨hholds, hsucc, hcap⟩ := h.holds.insert (by rw [h.capacity]; exact hL) n
    (fun k hk hid => by
      obtain ⟨item, -, rfl⟩ := exists_of_mem_keys hk
      rw [show item = x.1 from hid]
      rfl)
    fun hmem => by
      obtain ⟨item, hitem, heq⟩ := exists_of_mem_keys hmem
      rw [heq]
      exact mem_keys.mpr (h.expanded_subset hitem)
  rw [hkey, ← keys_append_singleton] at hholds
  rw [h.capacity, hkey, ← keys_append_singleton] at hsucc
  rw [hscore]
  set ctx' := if (s.bestLNodes.insert n).1 then ix.gstore.updateThdCache s.ctx x.1 x.2
    else s.ctx with hctx'
  have hfacts : ix.gstore.StoreInv ctx' u ∧ ix.gstore.Keeps s.ctx u ctx' u := by
    rw [hctx']
    split_ifs
    · exact hstore.updateThdCache x.1 x.2
    · exact ⟨hstore, .refl⟩
  -- the thread cache afterwards: at most the scored vertex is new
  have hcache : ∀ item, ctx'.thdCache item
      = if (s.bestLNodes.insert n).1 = true ∧ x.1.first ≠ ix.gstore.sid ∧ item = x.1 then some x.2
        else s.ctx.thdCache item := by
    intro item
    rw [hctx']
    by_cases hb : (s.bestLNodes.insert n).1 = true
    · rw [if_pos hb, thdCache_updateThdCache]
      simp only [hb, true_and]
    · rw [if_neg hb, if_neg fun hall => hb hall.1]
  have hmono : ∀ item ptr, s.ctx.thdCache item = some ptr → ctx'.thdCache item = some ptr := by
    intro item ptr hptr
    rw [hcache, if_neg]
    · exact hptr
    · rintro ⟨-, -, rfl⟩
      exact hx (h.recorded x.1 ptr hptr).1
  refine ⟨⟨hcap.trans h.capacity, hholds,
    fun _ hmem => List.mem_append_left _ (h.expanded_subset hmem), fun item ptr hptr => ?_,
    fun item hmem hne => ?_⟩, hfacts.1, hfacts.2, hmono⟩
  · rw [hcache] at hptr
    split_ifs at hptr with hnew
    · obtain ⟨-, -, rfl⟩ := hnew
      rw [← Option.some.inj hptr]
      exact ⟨by simp, harr.keep hfacts.2⟩
    · obtain ⟨hmem, harr'⟩ := h.recorded item ptr hptr
      exact ⟨List.mem_append_left _ hmem, harr'.keep hfacts.2⟩
  · by_cases hitem : item = x.1
    · subst hitem
      refine ⟨x.2, ?_⟩
      rw [hcache, if_pos ⟨hsucc.mpr ⟨hnot, hmem⟩, hne, rfl⟩]
    · have hold : item ∈ s.evaluated := by
        have hall := mem_keys.mp (mem_of_mem_smallest hmem)
        simpa [hitem] using hall
      have hsub : keys ix c s.evaluated ⊆ keys ix c (s.evaluated ++ [x.1]) := by
        rw [keys_append_singleton]
        exact Finset.subset_insert _ _
      obtain ⟨ptr, hptr⟩ := h.cached item
        (mem_smallest_of_subset hsub hmem (mem_keys.mpr hold)) hne
      exact ⟨ptr, hmono item ptr hptr⟩

/-- **Expanding a node**: the one under the cursor is a scored vertex that was not expanded,
its record is found, and it joins the expanded ones. -/
theorem PoolInv.expand (h : PoolInv ix c L ctx u q evaluated expanded)
    (hc : q.hasUnexpandedNode = true) :
    let id := q.closestUnexpanded.1.id
    id ∈ evaluated ∧ id ∉ expanded ∧
      ((smallest L (keys ix c evaluated)).find? (· ∉ keys ix c expanded)
        = some (ix.store.key c.distance c.query id)) ∧
      (∃ ptr, ix.gstore.getVertex ctx id = .ok ptr ∧ ix.gstore.Arrived ctx u id ptr) ∧
      PoolInv ix c L ctx u q.closestUnexpanded.2 evaluated (expanded ++ [id]) := by
  have hcur : q.cur < q.size := of_decide_eq_true hc
  obtain ⟨hn, hholds, hcap⟩ := h.holds.closestUnexpanded hcur
  obtain ⟨hmem, hkey, hsmall⟩ := h.exists_of_mem_live (h.holds.slot_mem hcur)
  have hfind := h.holds.find?_smallest hcur
  rw [h.capacity] at hfind
  have hid : q.closestUnexpanded.1.id = (q.slot q.cur).id := by rw [hn]
  simp only [hid]
  refine ⟨hmem, fun hexp => ?_, hkey ▸ hfind, h.getVertex (hkey ▸ hsmall),
    hcap.trans h.capacity, ?_, ?_, h.recorded, h.cached⟩
  · have hflag := (h.holds.flags _ (h.holds.slot_mem hcur)).mpr (hkey ▸ mem_keys.mpr hexp)
    rw [h.holds.at_cur hcur] at hflag
    exact absurd hflag (by simp)
  · rw [keys_append_singleton, ← hkey]
    exact hholds
  · intro item hitem
    rcases List.mem_append.mp hitem with hitem | hitem
    · exact h.expanded_subset hitem
    · rw [List.mem_singleton.mp hitem]
      exact hmem

end Pool

/-! ### The loop over neighbours -/

section Traversal

variable {δ : Type} {ix : ServerIndex} {c : SearchCall δ} {q : NeighborPriorityQueue Item δ}
  {inserted : Finset Item} {t : Traversal}

/-- What the loop over neighbours keeps: the marked vertices are those marked before and the
kept and the pruned ones, each of these once. -/
structure Traversed (inserted : Finset Item) (t : Traversal) : Prop where
  mem_inserted : ∀ w, w ∈ t.inserted ↔ w ∈ inserted ∨ w ∈ t.itemScratch ++ t.pruned
  nodup : (t.itemScratch ++ t.pruned).Nodup
  fresh : ∀ w ∈ t.itemScratch ++ t.pruned, w ∉ inserted

/-- What one round can do: nothing for a marked vertex, and otherwise keep or prune it. -/
lemma visitNeighbor_cases (ix : ServerIndex) (c : SearchCall δ) (q : NeighborPriorityQueue Item δ)
    (t : Traversal) (e : VertexId × Item) :
    (e.2 ∈ t.inserted ∧ visitNeighbor ix c q t e = t) ∨
    (e.2 ∉ t.inserted ∧ (e.2.first = ix.gstore.sid ∨ c.passes q e.1 = true) ∧
      visitNeighbor ix c q t e
        = ⟨insert e.2 t.inserted, t.itemScratch ++ [e.2], t.pruned⟩) ∨
    (e.2 ∉ t.inserted ∧ e.2.first ≠ ix.gstore.sid ∧ c.passes q e.1 = false ∧
      visitNeighbor ix c q t e = ⟨insert e.2 t.inserted, t.itemScratch, t.pruned ++ [e.2]⟩) := by
  rw [visitNeighbor]
  by_cases hmem : e.2 ∈ t.inserted
  · exact Or.inl ⟨hmem, by rw [if_pos hmem]⟩
  · rw [if_neg hmem]
    by_cases hsid : e.2.first = ix.gstore.sid
    · exact Or.inr (Or.inl ⟨hmem, Or.inl hsid, by rw [if_neg (not_not.mpr hsid)]⟩)
    · rw [if_pos hsid]
      cases hpass : c.passes q e.1 with
      | true => exact Or.inr (Or.inl ⟨hmem, Or.inr rfl, rfl⟩)
      | false => exact Or.inr (Or.inr ⟨hmem, hsid, rfl, rfl⟩)

lemma visitNeighbor_inserted (t : Traversal) (e : VertexId × Item) :
    (visitNeighbor ix c q t e).inserted = insert e.2 t.inserted := by
  rcases visitNeighbor_cases ix c q t e with ⟨hmem, heq⟩ | ⟨-, -, heq⟩ | ⟨-, -, -, heq⟩
  · rw [heq, Finset.insert_eq_of_mem hmem]
  · rw [heq]
  · rw [heq]

lemma Traversed.visitNeighbor (h : Traversed inserted t) (e : VertexId × Item) :
    Traversed inserted (visitNeighbor ix c q t e) := by
  have hnew : e.2 ∉ t.inserted → e.2 ∉ inserted ∧ e.2 ∉ t.itemScratch ++ t.pruned := fun hmem =>
    not_or.mp fun hor => hmem ((h.mem_inserted e.2).mpr hor)
  rcases visitNeighbor_cases ix c q t e with ⟨-, heq⟩ | ⟨hmem, -, heq⟩ | ⟨hmem, -, -, heq⟩
  · rwa [heq]
  · have hperm : (t.itemScratch ++ [e.2] ++ t.pruned).Perm
        (e.2 :: (t.itemScratch ++ t.pruned)) := by
      rw [List.append_assoc, List.singleton_append]
      exact List.perm_middle
    rw [heq]
    refine ⟨fun w => ?_, hperm.nodup_iff.mpr (List.nodup_cons.mpr ⟨(hnew hmem).2, h.nodup⟩),
      fun w hw => ?_⟩
    · rw [Finset.mem_insert, h.mem_inserted w, hperm.mem_iff, List.mem_cons]
      exact or_left_comm
    · rcases List.mem_cons.mp (hperm.mem_iff.mp hw) with rfl | hw
      · exact (hnew hmem).1
      · exact h.fresh w hw
  · have hperm : (t.itemScratch ++ (t.pruned ++ [e.2])).Perm
        (e.2 :: (t.itemScratch ++ t.pruned)) := by
      rw [← List.append_assoc]
      exact List.perm_append_singleton _ _
    rw [heq]
    refine ⟨fun w => ?_, hperm.nodup_iff.mpr (List.nodup_cons.mpr ⟨(hnew hmem).2, h.nodup⟩),
      fun w hw => ?_⟩
    · rw [Finset.mem_insert, h.mem_inserted w, hperm.mem_iff, List.mem_cons]
      exact or_left_comm
    · rcases List.mem_cons.mp (hperm.mem_iff.mp hw) with rfl | hw
      · exact (hnew hmem).1
      · exact h.fresh w hw

/-- **The loop over neighbours** marks all of them; those that were not marked before are kept
or pruned, once each. -/
theorem traversed_foldl (ix : ServerIndex) (c : SearchCall δ) (q : NeighborPriorityQueue Item δ)
    (inserted : Finset Item) (entries : List (VertexId × Item)) :
    Traversed inserted (entries.foldl (visitNeighbor ix c q) ⟨inserted, [], []⟩) ∧
      ∀ w, w ∈ (entries.foldl (visitNeighbor ix c q) ⟨inserted, [], []⟩).inserted ↔
        w ∈ inserted ∨ w ∈ entries.map Prod.snd := by
  have key : ∀ (entries : List (VertexId × Item)) (t : Traversal), Traversed inserted t →
      Traversed inserted (entries.foldl (visitNeighbor ix c q) t) ∧
        ∀ w, w ∈ (entries.foldl (visitNeighbor ix c q) t).inserted ↔
          w ∈ t.inserted ∨ w ∈ entries.map Prod.snd := by
    intro entries
    induction entries with
    | nil => exact fun t h => ⟨h, by simp⟩
    | cons e entries ih =>
        intro t h
        obtain ⟨hrest, hmem⟩ := ih _ (h.visitNeighbor e)
        refine ⟨hrest, fun w => ?_⟩
        rw [List.foldl_cons, hmem w, visitNeighbor_inserted, Finset.mem_insert, List.map_cons,
          List.mem_cons, or_left_comm, or_assoc]
  exact key entries ⟨inserted, [], []⟩ ⟨by simp, by simp, by simp⟩

end Traversal

end Distributed

end RedAnns
