import RedAnns.Core.Distance
import RedAnns.Core.NeighborQueue
import RedAnns.Lib.Memory

/-!
The beam search that `search_base_index` and `search_base_index_on_buckets` share.

The two functions of `src/index.cpp` differ in how a vertex is named, in how its record is
found and in how the record is read; `RecordStore` is what they differ in, and the search
itself is written once over it.

* `visitAll` is the loop over the neighbours of an expanded vertex, `score` the loop over the
  fresh ones, `expand` the body of the main loop and `greedySearch` the main loop.
* `Simulates`: the state of the search stands for a state of the abstract best-first search
  `Beam`, over (distance, id) pairs. `simulates_greedySearch` is the refinement, and
  `grows_greedySearch` says what a search leaves alone.
* `InMemQueryScratch`: the candidate pool a thread keeps between queries, with stale slots.
-/

namespace RedAnns

/-- How a search finds and reads the record of a vertex. -/
structure RecordStore (ι : Type*) where
  getVertex : ι → Bytes
  base : Bytes → List UInt32
  neighbors : Bytes → List ι
  label : Bytes → VertexId

/-- The part of `InMemQueryScratch` that outlives a query: a pool of capacity `L ≥ 1`
(`resize_for_new_L` refuses a zero `L`) whose slots hold what earlier queries left. -/
structure InMemQueryScratch (ι δ : Type*) where
  bestLNodes : NeighborPriorityQueue ι δ
  room : bestLNodes.data.length = bestLNodes.capacity + 1
  pos : 0 < bestLNodes.capacity

/-- The capacity of the pool. -/
def InMemQueryScratch.L {ι δ : Type*} (scratch : InMemQueryScratch ι δ) : ℕ :=
  scratch.bestLNodes.capacity

/-- `reserve` on an empty pool. -/
def InMemQueryScratch.reserve {ι δ : Type*} [Inhabited ι] [Inhabited δ] (L : ℕ) (h : 0 < L) :
    InMemQueryScratch ι δ :=
  ⟨⟨0, L, 0, List.replicate (L + 1) default⟩, by simp, h⟩

/-- A fresh scratch object. -/
def InMemQueryScratch.init {ι δ : Type*} [Inhabited ι] [Inhabited δ] (searchL : ℕ) :
    Except String (InMemQueryScratch ι δ) :=
  if h : 0 < searchL then .ok (.reserve searchL h)
  else .error "error@resize_for_new_L: resize failed."

/-- The state of a search: the pool, the visited vertices, the fresh ones of the last
expansion and the counters of `QueryStats`. The last field is not in the source: it records
in order the vertices whose distance was computed. -/
structure GreedyState (ι δ : Type*) where
  bestLNodes : NeighborPriorityQueue ι δ
  insertedIntoPool : Finset ι
  idScratch : List ι
  nHops : ℕ
  nCmps : ℕ
  evaluated : List ι

section Model

variable {ι δ : Type*} [LinearOrder ι] [LinearOrder δ] [Inhabited ι] [Inhabited δ]

/-- One round of the loop over neighbours: a vertex not visited yet is marked and kept. -/
def visit (s : Finset ι × List ι) (id : ι) : Finset ι × List ι :=
  if id ∈ s.1 then s else (insert id s.1, s.2 ++ [id])

/-- The loop over neighbours. -/
def visitAll (inserted : Finset ι) (ids : List ι) : Finset ι × List ι :=
  ids.foldl visit (inserted, [])

variable (g : RecordStore ι) (distance : Distance δ) (query : List UInt32)

/-- The distance of a vertex to the query. -/
def RecordStore.dist (id : ι) : δ := distance.compare (g.base (g.getVertex id)) query

/-- The loop over fresh vertices: distances are computed and inserted. -/
def score (q : NeighborPriorityQueue ι δ) (ids : List ι) : NeighborPriorityQueue ι δ :=
  ids.foldl (fun q id => (q.insert ⟨id, g.dist distance query id, false⟩).2) q

/-- Visiting a list of vertices: mark, count, compute. -/
def hop (s : GreedyState ι δ) (ids : List ι) : GreedyState ι δ :=
  let (inserted, idScratch) := visitAll s.insertedIntoPool ids
  { bestLNodes := score g distance query s.bestLNodes idScratch
    insertedIntoPool := inserted
    idScratch := idScratch
    nHops := s.nHops + 1
    nCmps := s.nCmps + idScratch.length
    evaluated := s.evaluated ++ idScratch }

/-- The body of the main loop. -/
def expand (s : GreedyState ι δ) : GreedyState ι δ :=
  let (n, q) := s.bestLNodes.closestUnexpanded
  hop g distance query { s with bestLNodes := q } (g.neighbors (g.getVertex n.id))

/-- The state at the head of the main loop, the entry point visited. -/
def greedyStart (ep : ι) (scratch : InMemQueryScratch ι δ) : GreedyState ι δ :=
  hop g distance query ⟨scratch.bestLNodes.clear, ∅, [], 0, 0, []⟩ [ep]

/-- The main loop, `fuel` expansions at most. -/
def greedySearch (ep : ι) (scratch : InMemQueryScratch ι δ) (fuel : ℕ) : GreedyState ι δ :=
  whileLoop (fun s => s.bestLNodes.hasUnexpandedNode) (expand g distance query) fuel
    (greedyStart g distance query ep scratch)

/-- The output loop: the label and the distance in each of the first `K` slots. -/
def output (s : GreedyState ι δ) (K : ℕ) : List (VertexId × δ) :=
  (List.range K).map fun i =>
    (g.label (g.getVertex (s.bestLNodes.slot i).id), (s.bestLNodes.slot i).distance)

end Model

/-! ### Visiting -/

section Visit

variable {ι : Type*} [LinearOrder ι]

/-- What the loop over neighbours keeps: every new vertex once, in order of appearance. -/
lemma visitAll_spec (inserted : Finset ι) (ids : List ι) :
    (visitAll inserted ids).1 = inserted ∪ ids.toFinset ∧
      (visitAll inserted ids).2.Nodup ∧
      (visitAll inserted ids).2.toFinset = ids.toFinset \ inserted := by
  have key : ∀ (ids : List ι) (s : Finset ι × List ι),
      s.2.Nodup → inserted ⊆ s.1 → s.2.toFinset = s.1 \ inserted →
      (ids.foldl visit s).1 = s.1 ∪ ids.toFinset ∧ (ids.foldl visit s).2.Nodup ∧
        (ids.foldl visit s).2.toFinset = (s.1 ∪ ids.toFinset) \ inserted := by
    intro ids
    induction ids with
    | nil =>
        intro s hnd _ heq
        simp [hnd, heq]
    | cons id ids ih =>
        intro s hnd hsub heq
        rw [List.foldl_cons, List.toFinset_cons]
        by_cases hid : id ∈ s.1
        · rw [visit, if_pos hid, Finset.union_insert, ← Finset.insert_union,
            Finset.insert_eq_of_mem hid]
          exact ih s hnd hsub heq
        · have hnot : id ∉ s.2 := fun h => by
            rw [← List.mem_toFinset, heq, Finset.mem_sdiff] at h
            exact hid h.1
          rw [visit, if_neg hid, Finset.union_insert, ← Finset.insert_union]
          refine ih (insert id s.1, s.2 ++ [id]) ?_ (hsub.trans (Finset.subset_insert id s.1)) ?_
          · rw [List.nodup_append_comm]
            exact List.nodup_cons.mpr ⟨hnot, hnd⟩
          · rw [List.toFinset_append, heq, Finset.insert_sdiff_of_notMem _ fun h => hid (hsub h)]
            ext x
            simp
  have h := key ids (inserted, []) List.nodup_nil (Finset.Subset.refl _) (by simp)
  refine ⟨h.1, h.2.1, h.2.2.trans ?_⟩
  rw [Finset.union_sdiff_distrib, Finset.sdiff_self, Finset.empty_union]

end Visit

/-! ### The refinement -/

section Refinement

variable {ι δ : Type*} [LinearOrder ι] [LinearOrder δ] [Inhabited ι] [Inhabited δ]

variable (g : RecordStore ι) (distance : Distance δ) (query : List UInt32)

/-- The pair a vertex is ordered by. -/
def RecordStore.key (id : ι) : δ ×ₗ ι := toLex (g.dist distance query id, id)

/-- The out-neighbours of a vertex, on the pairs of the pool. -/
def RecordStore.nbr (k : δ ×ₗ ι) : Finset (δ ×ₗ ι) :=
  (g.neighbors (g.getVertex (ofLex k).2)).toFinset.image (g.key distance query)

variable {g distance query}

omit [LinearOrder ι] [LinearOrder δ] [Inhabited ι] [Inhabited δ] in
lemma RecordStore.key_injective : Function.Injective (g.key distance query) := fun _ _ h =>
  (Prod.mk.inj (congrArg ofLex h)).2

omit [LinearOrder ι] [LinearOrder δ] [Inhabited ι] [Inhabited δ] in
@[simp] lemma RecordStore.id_key (id : ι) : (ofLex (g.key distance query id)).2 = id := rfl

open NeighborPriorityQueue in
/-- Scoring adds the scored vertices to what the pool holds, and leaves the slots behind the
live entries alone. -/
lemma holds_score {q : NeighborPriorityQueue ι δ} {V : Finset ι} {X : Finset (δ ×ₗ ι)}
    (hcap : 0 < q.capacity) (hX : X ⊆ V.image (g.key distance query))
    (h : Holds q (V.image (g.key distance query)) X) (ids : List ι) :
    Holds (score g distance query q ids) ((V ∪ ids.toFinset).image (g.key distance query)) X ∧
      Grows q (score g distance query q ids) := by
  induction ids generalizing q V with
  | nil =>
      rw [List.toFinset_nil, Finset.union_empty]
      exact ⟨h, Grows.refl q⟩
  | cons id ids ih =>
      have hins := h.insert hcap ⟨id, g.dist distance query id, false⟩
        (fun k hk hid => by
          obtain ⟨v, _, rfl⟩ := Finset.mem_image.mp hk
          obtain rfl : v = id := hid
          rfl)
        fun hx => hX hx
      obtain ⟨hholds, -, hcap'⟩ := hins
      have hset : insert (g.key distance query id) (V.image (g.key distance query))
          = (insert id V).image (g.key distance query) := (Finset.image_insert _ _ _).symm
      change Holds _ (insert (g.key distance query id) (V.image (g.key distance query))) X
        at hholds
      rw [hset] at hholds
      have hrest := ih (by rw [hcap']; exact hcap)
        (hX.trans (Finset.image_subset_image (Finset.subset_insert id V))) hholds
      rw [List.toFinset_cons, Finset.union_insert, ← Finset.insert_union]
      exact ⟨hrest.1, (h.grows_insert hcap _).trans hrest.2⟩

/-- **The simulation**: the pool holds the seen pairs with the expanded ones marked, the
visited vertices are the seen ones, and each had its distance computed once. -/
structure Simulates (g : RecordStore ι) (distance : Distance δ) (query : List UInt32) (L : ℕ)
    (s : GreedyState ι δ) (t : Beam (δ ×ₗ ι)) : Prop where
  holds : s.bestLNodes.Holds t.seen t.expanded
  capacity : s.bestLNodes.capacity = L
  seen : t.seen = s.insertedIntoPool.image (g.key distance query)
  expanded : t.expanded ⊆ t.seen
  nodup : s.evaluated.Nodup
  evaluated : s.evaluated.toFinset = s.insertedIntoPool

variable {L : ℕ} {s : GreedyState ι δ} {t : Beam (δ ×ₗ ι)}

/-- Visiting a list of vertices makes them seen, and the pool grows. -/
lemma Simulates.hop (h : Simulates g distance query L s t) (hL : 0 < L) (ids : List ι) :
    Simulates g distance query L (hop g distance query s ids)
        ⟨t.seen ∪ ids.toFinset.image (g.key distance query), t.expanded⟩ ∧
      s.bestLNodes.Grows (RedAnns.hop g distance query s ids).bestLNodes := by
  obtain ⟨h1, h2, h3⟩ := visitAll_spec s.insertedIntoPool ids
  have hunion : s.insertedIntoPool ∪ (visitAll s.insertedIntoPool ids).2.toFinset
      = s.insertedIntoPool ∪ ids.toFinset := by rw [h3, Finset.union_sdiff_self_eq_union]
  have hholds := h.holds
  rw [h.seen] at hholds
  obtain ⟨hscore, hgrows⟩ := holds_score (by rw [h.capacity]; exact hL)
    (h.seen ▸ h.expanded) hholds (visitAll s.insertedIntoPool ids).2
  have hseen : t.seen ∪ ids.toFinset.image (g.key distance query)
      = (s.insertedIntoPool ∪ ids.toFinset).image (g.key distance query) := by
    rw [h.seen, Finset.image_union]
  refine ⟨⟨?_, hgrows.capacity.trans h.capacity, ?_, h.expanded.trans Finset.subset_union_left,
    ?_, ?_⟩, hgrows⟩
  · show NeighborPriorityQueue.Holds _ (t.seen ∪ _) t.expanded
    rw [hseen, ← hunion]
    exact hscore
  · show t.seen ∪ _ = (visitAll s.insertedIntoPool ids).1.image _
    rw [h1, hseen]
  · refine h.nodup.append h2 fun x hx hx' => ?_
    change x ∈ (visitAll s.insertedIntoPool ids).2 at hx'
    rw [← List.mem_toFinset, h.evaluated] at hx
    rw [← List.mem_toFinset, h3, Finset.mem_sdiff] at hx'
    exact hx'.2 hx
  · show (s.evaluated ++ (visitAll s.insertedIntoPool ids).2).toFinset
      = (visitAll s.insertedIntoPool ids).1
    rw [List.toFinset_append, h.evaluated, hunion, h1]

/-- The search before its first expansion. -/
lemma simulates_greedyStart (g : RecordStore ι) (distance : Distance δ) (query : List UInt32)
    (ep : ι) (scratch : InMemQueryScratch ι δ) :
    Simulates g distance query scratch.L (greedyStart g distance query ep scratch)
        (Beam.start {g.key distance query ep}) ∧
      scratch.bestLNodes.clear.Grows (greedyStart g distance query ep scratch).bestLNodes := by
  have hclear : Simulates g distance query scratch.L
      ⟨scratch.bestLNodes.clear, ∅, [], 0, 0, []⟩ ⟨∅, ∅⟩ :=
    ⟨NeighborPriorityQueue.holds_clear scratch.room ∅, rfl, rfl, Finset.Subset.refl _,
      List.nodup_nil, rfl⟩
  have h := hclear.hop scratch.pos [ep]
  rwa [Finset.empty_union, List.toFinset_cons, List.toFinset_nil, insert_empty_eq,
    Finset.image_singleton] at h

/-- The loop condition is the existence of a frontier. -/
lemma Simulates.hasUnexpandedNode_eq_false (h : Simulates g distance query L s t) :
    s.bestLNodes.hasUnexpandedNode = false ↔ t.frontier L = none := by
  rw [h.holds.hasUnexpandedNode_eq_false, Beam.frontier_eq_none, h.capacity]

/-- The vertex under the cursor is the frontier. -/
lemma Simulates.frontier (h : Simulates g distance query L s t)
    (hc : s.bestLNodes.hasUnexpandedNode = true) :
    t.frontier L = some (s.bestLNodes.slot s.bestLNodes.cur).key := by
  have hcur : s.bestLNodes.cur < s.bestLNodes.size := of_decide_eq_true hc
  rw [Beam.frontier, ← h.capacity, ← h.holds.find?_smallest hcur]

/-- **One expansion follows one step**, and the pool grows. -/
lemma Simulates.expand (h : Simulates g distance query L s t) (hL : 0 < L)
    (hc : s.bestLNodes.hasUnexpandedNode = true) :
    Simulates g distance query L (expand g distance query s)
        (Beam.step L (g.nbr distance query) t) ∧
      s.bestLNodes.Grows (RedAnns.expand g distance query s).bestLNodes := by
  have hcur : s.bestLNodes.cur < s.bestLNodes.size := of_decide_eq_true hc
  obtain ⟨hn, hholds, hcap⟩ := h.holds.closestUnexpanded hcur
  have hfront := h.frontier hc
  have hmem : (s.bestLNodes.slot s.bestLNodes.cur).key ∈ t.seen :=
    mem_of_mem_smallest (Beam.mem_of_frontier hfront).1
  have hmarked : Simulates g distance query L
      { s with bestLNodes := s.bestLNodes.closestUnexpanded.2 }
      ⟨t.seen, insert (s.bestLNodes.slot s.bestLNodes.cur).key t.expanded⟩ :=
    ⟨hholds, hcap.trans h.capacity, h.seen, Finset.insert_subset hmem h.expanded, h.nodup,
      h.evaluated⟩
  have hid : s.bestLNodes.closestUnexpanded.1.id = (s.bestLNodes.slot s.bestLNodes.cur).id := by
    rw [hn]
  have hgrows := h.holds.grows_closestUnexpanded hcur
  rw [Beam.step_of_some hfront, RedAnns.expand]
  have hhop := hmarked.hop hL (g.neighbors (g.getVertex s.bestLNodes.closestUnexpanded.1.id))
  simp only [hid] at hhop ⊢
  exact ⟨hhop.1, hgrows.trans hhop.2⟩

/-- The search follows the abstract best-first search, and the cleared pool grows. -/
lemma follows_greedySearch (g : RecordStore ι) (distance : Distance δ) (query : List UInt32)
    (ep : ι) (scratch : InMemQueryScratch ι δ) (fuel : ℕ) :
    Simulates g distance query scratch.L (greedySearch g distance query ep scratch fuel)
        ((Beam.step scratch.L (g.nbr distance query))^[fuel]
          (Beam.start {g.key distance query ep})) ∧
      scratch.bestLNodes.clear.Grows
        (greedySearch g distance query ep scratch fuel).bestLNodes :=
  whileLoop_refines
    (R := fun s t => Simulates g distance query scratch.L s t ∧
      scratch.bestLNodes.clear.Grows s.bestLNodes)
    (fun _ _ h hc =>
      let hexpand := h.1.expand scratch.pos hc
      ⟨hexpand.1, h.2.trans hexpand.2⟩)
    (fun _ _ h hc => Beam.step_of_none (h.1.hasUnexpandedNode_eq_false.mp hc))
    (simulates_greedyStart g distance query ep scratch) fuel

/-- **The search refines the abstract best-first search.** -/
theorem simulates_greedySearch (g : RecordStore ι) (distance : Distance δ) (query : List UInt32)
    (ep : ι) (scratch : InMemQueryScratch ι δ) (fuel : ℕ) :
    Simulates g distance query scratch.L (greedySearch g distance query ep scratch fuel)
      ((Beam.step scratch.L (g.nbr distance query))^[fuel]
        (Beam.start {g.key distance query ep})) :=
  (follows_greedySearch g distance query ep scratch fuel).1

/-- **A search leaves the slots behind its pool alone.** -/
theorem grows_greedySearch (g : RecordStore ι) (distance : Distance δ) (query : List UInt32)
    (ep : ι) (scratch : InMemQueryScratch ι δ) (fuel : ℕ) :
    scratch.bestLNodes.clear.Grows (greedySearch g distance query ep scratch fuel).bestLNodes :=
  (follows_greedySearch g distance query ep scratch fuel).2

/-! ### At the exit -/

/-- The output loop writes the smallest pairs, as far as the pool reaches. -/
lemma Simulates.output_eq (h : Simulates g distance query L s t) {K : ℕ}
    (hK : K ≤ s.bestLNodes.size) :
    output g s K = (smallest K t.seen).map
      fun k => (g.label (g.getVertex (ofLex k).2), (ofLex k).1) := by
  have hlen := h.holds.length_live
  have hKL : K ≤ L := by
    have := h.holds.size_le
    rw [h.capacity] at this
    omega
  have hslots : output g s K = (s.bestLNodes.live.take K).map
      fun n => (g.label (g.getVertex n.id), n.distance) := by
    refine List.ext_getElem (by simp [output, hlen, hK]) fun i hi hi' => ?_
    simp only [output, List.length_map, List.length_range] at hi
    simp only [output, List.getElem_map, List.getElem_range, List.getElem_take,
      h.holds.getElem_live]
  have hkeys : smallest K t.seen = (s.bestLNodes.live.take K).map Neighbor.key := by
    rw [← take_smallest hKL, ← h.capacity, ← h.holds.keys, List.map_take]
  rw [hslots, hkeys, List.map_map]
  rfl

omit [LinearOrder ι] [LinearOrder δ] in
/-- Fewer outputs are the first of more outputs. -/
lemma take_output (g : RecordStore ι) (s : GreedyState ι δ) {k K : ℕ} (h : k ≤ K) :
    (output g s K).take k = output g s k := by
  rw [output, output, ← List.map_take, List.take_range, min_eq_left h]

omit [Inhabited ι] [Inhabited δ] in
/-- The out-neighbours on pairs, for a vertex. -/
lemma RecordStore.mem_nbr_key {id w : ι} :
    g.key distance query w ∈ g.nbr distance query (g.key distance query id) ↔
      w ∈ g.neighbors (g.getVertex id) := by
  rw [RecordStore.nbr, Finset.mem_image]
  constructor
  · rintro ⟨v, hv, heq⟩
    rw [RecordStore.key_injective heq] at hv
    exact List.mem_toFinset.mp hv
  · exact fun hw => ⟨w, List.mem_toFinset.mpr hw, rfl⟩

omit [Inhabited ι] [Inhabited δ] in
/-- A set of vertices that is closed under out-neighbours, on pairs. -/
lemma RecordStore.nbr_subset {R : Finset ι}
    (hcl : ∀ v ∈ R, ∀ w ∈ g.neighbors (g.getVertex v), w ∈ R) :
    ∀ k ∈ R.image (g.key distance query),
      g.nbr distance query k ⊆ R.image (g.key distance query) := by
  intro k hk
  obtain ⟨v, hv, rfl⟩ := Finset.mem_image.mp hk
  refine Finset.image_subset_image fun w hw => ?_
  exact hcl v hv w (List.mem_toFinset.mp hw)

variable {ep : ι} {scratch : InMemQueryScratch ι δ} {fuel : ℕ}

/-- **The search terminates**: as many expansions as a closed set around the entry point has
members exhaust the pool. -/
theorem hasUnexpandedNode_greedySearch {R : Finset ι} (hep : ep ∈ R)
    (hcl : ∀ v ∈ R, ∀ w ∈ g.neighbors (g.getVertex v), w ∈ R) (hfuel : R.card ≤ fuel) :
    (greedySearch g distance query ep scratch fuel).bestLNodes.hasUnexpandedNode = false := by
  rw [(simulates_greedySearch g distance query ep scratch fuel).hasUnexpandedNode_eq_false]
  have hsub : {g.key distance query ep} ⊆ R.image (g.key distance query) :=
    Finset.singleton_subset_iff.mpr (Finset.mem_image_of_mem _ hep)
  exact Beam.frontier_iterate_eq_none
    (fun k hk => hk.mem_of_closed hsub (RecordStore.nbr_subset hcl))
    (Finset.card_image_le.trans hfuel)

omit [Inhabited ι] [Inhabited δ] in
/-- The reachable vertices, on pairs. -/
lemma reach_iff {k : δ ×ₗ ι} :
    Beam.Reach (g.nbr distance query) {g.key distance query ep} k ↔
      ∃ v, k = g.key distance query v ∧
        Relation.ReflTransGen (fun a b => b ∈ g.neighbors (g.getVertex a)) ep v := by
  constructor
  · rintro ⟨x, hx, hxk⟩
    rw [Finset.mem_singleton] at hx
    subst hx
    induction hxk with
    | refl => exact ⟨ep, rfl, .refl⟩
    | tail _ hbc ih =>
        obtain ⟨v, rfl, hv⟩ := ih
        obtain ⟨w, -, rfl⟩ := Finset.mem_image.mp hbc
        exact ⟨w, rfl, hv.tail (RecordStore.mem_nbr_key.mp hbc)⟩
  · rintro ⟨v, rfl, hv⟩
    refine ⟨_, Finset.mem_singleton_self _, ?_⟩
    induction hv with
    | refl => exact .refl
    | tail _ hbc ih => exact ih.tail (RecordStore.mem_nbr_key.mpr hbc)

/-- **A complete search**: nothing is left to expand, no distance was computed twice, the
pool is the list of the smallest pairs of the evaluated vertices, and the evaluated vertices
hold the entry point and the out-neighbours of the whole pool. -/
structure IsComplete (g : RecordStore ι) (distance : Distance δ) (query : List UInt32) (ep : ι)
    (L : ℕ) (s : GreedyState ι δ) : Prop where
  exhausted : s.bestLNodes.hasUnexpandedNode = false
  expanded : ∀ n ∈ s.bestLNodes.live, n.expanded = true
  nodup : s.evaluated.Nodup
  pool : s.bestLNodes.live.map Neighbor.key
    = smallest L (s.evaluated.toFinset.image (g.key distance query))
  entry_mem : ep ∈ s.evaluated
  neighbors_mem : ∀ n ∈ s.bestLNodes.live, ∀ w ∈ g.neighbors (g.getVertex n.id), w ∈ s.evaluated

/-- A vertex whose pair was seen was evaluated. -/
lemma Simulates.mem_evaluated (h : Simulates g distance query L s t) {v : ι}
    (hv : g.key distance query v ∈ t.seen) : v ∈ s.evaluated := by
  rw [h.seen, ← h.evaluated] at hv
  obtain ⟨w, hw, heq⟩ := Finset.mem_image.mp hv
  rw [RecordStore.key_injective heq] at hw
  exact List.mem_toFinset.mp hw

/-- **An exhausted search is complete.** -/
theorem isComplete_greedySearch
    (hexit : (greedySearch g distance query ep scratch fuel).bestLNodes.hasUnexpandedNode = false) :
    IsComplete g distance query ep scratch.L
      (greedySearch g distance query ep scratch fuel) := by
  have h := simulates_greedySearch g distance query ep scratch fuel
  have hinv := Beam.inv_iterate scratch.L (g.nbr distance query) {g.key distance query ep} fuel
  have hfront := h.hasUnexpandedNode_eq_false.mp hexit
  have hmem : ∀ n ∈ (greedySearch g distance query ep scratch fuel).bestLNodes.live,
      n.key ∈ smallest scratch.L ((Beam.step scratch.L (g.nbr distance query))^[fuel]
        (Beam.start {g.key distance query ep})).seen := fun n hn => by
    have hkey := List.mem_map_of_mem (f := Neighbor.key) hn
    rwa [h.holds.keys, h.capacity] at hkey
  refine
    { exhausted := hexit
      expanded := fun n hn =>
        (h.holds.flags n hn).mpr (Beam.frontier_eq_none.mp hfront _ (hmem n hn))
      nodup := h.nodup
      pool := by rw [h.holds.keys, h.capacity, h.seen, h.evaluated]
      entry_mem := h.mem_evaluated (hinv.entry_subset (Finset.mem_singleton_self _))
      neighbors_mem := fun n hn w hw => h.mem_evaluated ?_ }
  have hkey : g.key distance query w ∈ g.nbr distance query n.key :=
    Finset.mem_image_of_mem _ (List.mem_toFinset.mpr hw)
  exact hinv.nbr_subset_of_halted hfront (hmem n hn) hkey

/-- **Exactness**: a pool with room for all reachable vertices ends with the nearest ones in
its first slots. -/
theorem output_greedySearch {R : Finset ι}
    (hR : ∀ v, v ∈ R ↔ Relation.ReflTransGen (fun a b => b ∈ g.neighbors (g.getVertex a)) ep v)
    (hL : R.card ≤ scratch.L) (hfuel : R.card ≤ fuel) {K : ℕ} (hK : K ≤ R.card) :
    output g (greedySearch g distance query ep scratch fuel) K
      = (smallest K (R.image (g.key distance query))).map
          fun k => (g.label (g.getVertex (ofLex k).2), (ofLex k).1) := by
  have h := simulates_greedySearch g distance query ep scratch fuel
  have hinv := Beam.inv_iterate scratch.L (g.nbr distance query) {g.key distance query ep} fuel
  have hexit : (greedySearch g distance query ep scratch fuel).bestLNodes.hasUnexpandedNode
      = false :=
    hasUnexpandedNode_greedySearch ((hR ep).mpr .refl)
      (fun v hv w hw => (hR w).mpr (((hR v).mp hv).tail hw)) hfuel
  have hcard : (R.image (g.key distance query)).card = R.card :=
    Finset.card_image_of_injective _ RecordStore.key_injective
  have hseen := Beam.seen_eq_of_halted (fun k => by
    rw [reach_iff, Finset.mem_image]
    refine exists_congr fun v => ?_
    rw [hR v, and_comm, eq_comm]) (hcard.trans_le hL) hinv (h.hasUnexpandedNode_eq_false.mp hexit)
  have hsize : K ≤ (greedySearch g distance query ep scratch fuel).bestLNodes.size := by
    rw [h.holds.size_eq, h.capacity, hseen, hcard]
    omega
  rw [h.output_eq hsize, hseen]

end Refinement

end RedAnns
