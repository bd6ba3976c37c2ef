import RedAnns.Index.Readers
import RedAnns.Search.Greedy

/-!
The single-machine search `search_base_index` over the index in one piece.

`StoredGraph` says that the ids in a stored index are in range and that labels are ids, as
`generate_base_index` leaves them (`storedGraph_generateBaseIndex`). Over such an index the
search terminates and is complete, and a pool with room for every reachable vertex returns
the nearest ones (`searchBaseIndex_complete`).
-/

namespace RedAnns

open Bytes

section

variable {δ : Type*} [LinearOrder δ] [Inhabited δ]

/-- How `search_base_index` reaches the records in `_base_index`. -/
def flatStore (L : Layout) (baseIndex : Bytes) : RecordStore VertexId where
  getVertex := getVertexFlat L baseIndex
  base := L.base
  neighbors := L.neighbors
  label := L.label

/-- `search_base_index`: the labels and distances written to `indices` and `distances`. -/
def searchBaseIndex (L : Layout) (baseIndex : Bytes) (ep : VertexId) (distance : Distance δ)
    (query : List UInt32) (K : ℕ) (scratch : InMemQueryScratch VertexId δ) (fuel : ℕ) :
    List (VertexId × δ) :=
  output (flatStore L baseIndex)
    (greedySearch (flatStore L baseIndex) distance query ep scratch fuel) K

/-- A stored graph with ids in range. -/
structure StoredGraph (L : Layout) (baseIndex : Bytes) (elementNum : ℕ) (ep : VertexId) :
    Prop where
  entry_lt : ep.toNat < elementNum
  neighbor_lt : ∀ id : VertexId, id.toNat < elementNum →
    ∀ v ∈ L.neighbors (getVertexFlat L baseIndex id), v.toNat < elementNum
  label_eq : ∀ id : VertexId, id.toNat < elementNum →
    L.label (getVertexFlat L baseIndex id) = id

/-- `generate_base_index` stores a graph with ids in range. -/
theorem storedGraph_generateBaseIndex (b : BaseSet) (hR : 1 + b.baseGraphR < 2 ^ 32)
    (malloc : Bytes) :
    StoredGraph b.flatLayout (generateBaseIndex b malloc) b.baseNum b.baseGraphEP where
  entry_lt := b.entry_lt
  neighbor_lt id hid v hv := by
    rw [← UInt32.ofNat_toNat (x := id), neighbors_generateBaseIndex hR malloc hid] at hv
    exact BaseSet.adjacency_lt hid hv
  label_eq id hid := by
    have h := Layout.label_of_stands (L := b.flatLayout) (b.length_vector id.toNat)
      (getVertexFlat_generateBaseIndex hR malloc hid)
    rwa [UInt32.ofNat_toNat] at h

/-- The ids in range. -/
def idsBelow (n : ℕ) : Finset VertexId := (Finset.range n).image UInt32.ofNat

lemma mem_idsBelow {n : ℕ} {v : VertexId} (h : v.toNat < n) : v ∈ idsBelow n :=
  Finset.mem_image.mpr ⟨v.toNat, Finset.mem_range.mpr h, UInt32.ofNat_toNat⟩

lemma lt_of_mem_idsBelow {n : ℕ} {v : VertexId} (h : v ∈ idsBelow n) : v.toNat < n := by
  obtain ⟨i, hi, rfl⟩ := Finset.mem_image.mp h
  rw [UInt32.toNat_ofNat']
  exact lt_of_le_of_lt (Nat.mod_le _ _) (Finset.mem_range.mp hi)

lemma card_idsBelow_le (n : ℕ) : (idsBelow n).card ≤ n :=
  Finset.card_image_le.trans_eq (Finset.card_range n)

/-- **Beam search is complete for its pool.** Over a stored graph with ids in range the
search terminates; at its exit the pool is expanded, holds the smallest (distance, id) pairs
of the evaluated vertices, and these are closed under the out-neighbours of the pool. With
room for all reachable vertices the outputs are the nearest ones in order. -/
theorem searchBaseIndex_complete (L : Layout) (baseIndex : Bytes) (elementNum : ℕ)
    (ep : VertexId) (hg : StoredGraph L baseIndex elementNum ep) (distance : Distance δ)
    (query : List UInt32) (scratch : InMemQueryScratch VertexId δ) :
    ∃ N, ∀ fuel, N ≤ fuel →
      greedySearch (flatStore L baseIndex) distance query ep scratch fuel
        = greedySearch (flatStore L baseIndex) distance query ep scratch N ∧
      IsComplete (flatStore L baseIndex) distance query ep scratch.L
        (greedySearch (flatStore L baseIndex) distance query ep scratch fuel) ∧
      ∀ R : Finset VertexId,
        (∀ v, v ∈ R ↔ Relation.ReflTransGen
          (fun a b => b ∈ L.neighbors (getVertexFlat L baseIndex a)) ep v) →
        R.card ≤ scratch.L → ∀ K ≤ R.card,
          searchBaseIndex L baseIndex ep distance query K scratch fuel
            = (smallest K (R.image ((flatStore L baseIndex).key distance query))).map
                fun k => ((ofLex k).2, (ofLex k).1) := by
  have hcl : ∀ v ∈ idsBelow elementNum, ∀ w ∈ L.neighbors (getVertexFlat L baseIndex v),
      w ∈ idsBelow elementNum := fun v hv w hw =>
    mem_idsBelow (hg.neighbor_lt v (lt_of_mem_idsBelow hv) w hw)
  have hexit : ∀ fuel, elementNum ≤ fuel →
      (greedySearch (flatStore L baseIndex) distance query ep scratch
        fuel).bestLNodes.hasUnexpandedNode = false := fun fuel hfuel =>
    hasUnexpandedNode_greedySearch (mem_idsBelow hg.entry_lt) hcl
      ((card_idsBelow_le elementNum).trans hfuel)
  refine ⟨elementNum, fun fuel hfuel => ⟨whileLoop_eq_of_exit (hexit _ le_rfl) hfuel,
    isComplete_greedySearch (hexit fuel hfuel), fun R hR hL K hK => ?_⟩⟩
  have hsub : R ⊆ idsBelow elementNum := by
    intro v hv
    have hreach := (hR v).mp hv
    clear hv
    induction hreach with
    | refl => exact mem_idsBelow hg.entry_lt
    | tail _ hbc ih => exact hcl _ ih _ hbc
  have hcard : R.card ≤ fuel :=
    (Finset.card_le_card hsub).trans ((card_idsBelow_le elementNum).trans hfuel)
  rw [searchBaseIndex, output_greedySearch hR hL hcard hK]
  refine List.map_congr_left fun k hk => ?_
  obtain ⟨v, hv, rfl⟩ := Finset.mem_image.mp (mem_of_mem_smallest hk)
  rw [RecordStore.id_key]
  exact Prod.ext (hg.label_eq v (lt_of_mem_idsBelow (hsub hv))) rfl

end

/-- The search over the two points, from the L2 distance and a pool of two. -/
theorem searchBaseIndex_complete_twoPoints : ∃ N, ∀ fuel, N ≤ fuel →
    IsComplete (flatStore twoPoints.flatLayout (generateBaseIndex twoPoints fun _ => 0))
      (distanceL2 fun w => (w.toNat : ℚ)) [5] 0 2
      (greedySearch (flatStore twoPoints.flatLayout (generateBaseIndex twoPoints fun _ => 0))
        (distanceL2 fun w => (w.toNat : ℚ)) [5] 0 (.reserve 2 (by decide)) fuel) := by
  obtain ⟨N, hN⟩ := searchBaseIndex_complete twoPoints.flatLayout
    (generateBaseIndex twoPoints fun _ => 0) twoPoints.baseNum 0
    (storedGraph_generateBaseIndex twoPoints (by decide) fun _ => 0)
    (distanceL2 fun w => (w.toNat : ℚ)) [5] (.reserve 2 (by decide))
  exact ⟨N, fun fuel hfuel => (hN fuel hfuel).2.1⟩

end RedAnns
