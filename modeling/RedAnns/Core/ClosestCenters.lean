import Mathlib.Analysis.Real.Sqrt
import RedAnns.Core.Chunking
import RedAnns.Lib.Accumulate
import RedAnns.Lib.Least

/-!
The search for closest centers (`src/math_utils.cpp`).

Squared distances come from three matrix products: the norms of the points, those of the centers,
and the inner products. Each point takes the first center whose distance is least.

* `Blas`: the two routines of the matrix library that are used, with what they compute exactly.
* `computeClosestCentersInBlock`, `computeClosestCenters`: the source, for one center a point.
* `distMatrix_apply`: the matrix holds squared distances.
* `computeClosestCenters_spec`: every point gets the first least entry of its row.
-/

namespace RedAnns

/-- The routines of the matrix library: `cblas_snrm2` with increment one, and `cblas_sgemm` for
matrices in row-major order of which the second one is transposed. -/
structure Blas (K : Type*) [Field K] where
  snrm2 : ℕ → Buffer K → K
  sgemm : (m n k : ℕ) → (alpha : K) → (a : Buffer K) → (lda : ℕ) → (b : Buffer K) → (ldb : ℕ) →
    (beta : K) → (c : Buffer K) → (ldc : ℕ) → Buffer K
  snrm2_mul_self : ∀ n x, snrm2 n x * snrm2 n x = ∑ l ∈ Finset.range n, x l * x l
  sgemm_apply : ∀ m n k alpha a lda b ldb beta c ldc i j, i < m → j < n → n ≤ ldc →
    sgemm m n k alpha a lda b ldb beta c ldc (i * ldc + j)
      = alpha * ∑ l ∈ Finset.range k, a (i * lda + l) * b (j * ldb + l) + beta * c (i * ldc + j)

/-- What allocations leave in the arrays of a call. -/
structure Heap (K : Type*) where
  floats : Buffer K
  ids : Buffer UInt32

/-- The matrix library over the real numbers. -/
noncomputable def exactBlas : Blas ℝ where
  snrm2 := fun n x => Real.sqrt (∑ l ∈ Finset.range n, x l * x l)
  sgemm := fun _ _ k alpha a lda b ldb beta c ldc idx =>
    alpha * ∑ l ∈ Finset.range k, a (idx / ldc * lda + l) * b (idx % ldc * ldb + l) + beta * c idx
  snrm2_mul_self :=
    fun _ x => Real.mul_self_sqrt (Finset.sum_nonneg fun l _ => mul_self_nonneg (x l))
  sgemm_apply := fun m n k alpha a lda b ldb beta c ldc i j _ hj hle => by
    rw [row_of_index (hj.trans_le hle), col_of_index (hj.trans_le hle)]

section Source

variable {K : Type*} [Field K] [LinearOrder K] (blas : Blas K)

/-- `calc_distance`. -/
def calcDistance (vec1 vec2 : Buffer K) (dim : ℕ) : K :=
  (List.range dim).foldl (fun dist j => dist + (vec1 j - vec2 j) * (vec1 j - vec2 j)) 0

/-- `compute_vecs_l2sq`. -/
def computeVecsL2sq (vecsL2sq data : Buffer K) (numPoints dim : ℕ) : Buffer K :=
  vecsL2sq.mapRows numPoints 1 1 0 fun n _ _ =>
    blas.snrm2 dim (data.view (n * dim)) * blas.snrm2 dim (data.view (n * dim))

/-- The three products of `compute_closest_centers_in_block`. -/
def distMatrixOf (data : Buffer K) (numPoints dim : ℕ) (centers : Buffer K) (numCenters : ℕ)
    (docsL2sq centersL2sq distMatrix : Buffer K) : Buffer K :=
  let onesA : Buffer K := fun _ => 1
  let onesB : Buffer K := fun _ => 1
  let distMatrix := blas.sgemm numPoints numCenters 1 1 docsL2sq 1 onesA 1 0 distMatrix numCenters
  let distMatrix :=
    blas.sgemm numPoints numCenters 1 1 onesB 1 centersL2sq 1 1 distMatrix numCenters
  blas.sgemm numPoints numCenters dim (-2) data dim centers dim 1 distMatrix numCenters

/-- `compute_closest_centers_in_block` for `k = 1`. -/
def computeClosestCentersInBlock (data : Buffer K) (numPoints dim : ℕ) (centers : Buffer K)
    (numCenters : ℕ) (docsL2sq centersL2sq : Buffer K) (centerIndex : Buffer UInt32)
    (distMatrix : Buffer K) : Buffer UInt32 :=
  if numCenters < 1 then centerIndex
  else
    let distMatrix := distMatrixOf blas data numPoints dim centers numCenters docsL2sq centersL2sq
      distMatrix
    centerIndex.mapRows numPoints 1 1 0 fun i _ index =>
      (scanLeast UInt32.ofNat (distMatrix.view (i * numCenters)) numCenters
        (index, (floatMax : K))).1

/-- `compute_closest_centers` for `k = 1`, without the norms of the points and an inverted index:
all points are one block. -/
def computeClosestCenters (heap : Heap K) (data : Buffer K) (numPoints dim : ℕ)
    (pivotData : Buffer K) (numCenters : ℕ) (closestCentersIvf : Buffer UInt32) : Buffer UInt32 :=
  if numCenters < 1 then closestCentersIvf
  else
    let parBlockSize := numPoints
    let nBlocks := if numPoints % parBlockSize = 0 then numPoints / parBlockSize
      else numPoints / parBlockSize + 1
    let ptsNormsSquared := computeVecsL2sq blas heap.floats data numPoints dim
    let pivsNormsSquared := computeVecsL2sq blas heap.floats pivotData numCenters dim
    (List.range nBlocks).foldl (fun closestCentersIvf curBlk =>
      let numPtsBlk := min parBlockSize (numPoints - curBlk * parBlockSize)
      let closestCenters :=
        computeClosestCentersInBlock blas (data.view (curBlk * parBlockSize * dim))
        numPtsBlk dim pivotData numCenters (ptsNormsSquared.view (curBlk * parBlockSize))
        pivsNormsSquared heap.ids heap.floats
      closestCentersIvf.mapRows (min numPoints ((curBlk + 1) * parBlockSize)
          - curBlk * parBlockSize)
        1 1 (curBlk * parBlockSize) fun j _ _ => closestCenters j) closestCentersIvf

end Source

/-! ### The distances -/

section Distances

variable {K : Type*} [Field K] (blas : Blas K)

/-- The squared distance of point `i` and center `j`. -/
def sqDist (data centers : Buffer K) (dim i j : ℕ) : K :=
  ∑ l ∈ Finset.range dim, (data (i * dim + l) - centers (j * dim + l)) ^ 2

lemma calcDistance_eq (data centers : Buffer K) (dim i j : ℕ) :
    calcDistance (data.view (i * dim)) (centers.view (j * dim)) dim
      = sqDist data centers dim i j := by
  have hsum : ∀ f : ℕ → K, ((List.range dim).map f).sum = ∑ l ∈ Finset.range dim, f l :=
    fun _ => rfl
  rw [calcDistance, foldl_add, zero_add, sqDist, hsum]
  exact Finset.sum_congr rfl fun l _ => (sq _).symm

lemma computeVecsL2sq_apply (vecsL2sq data : Buffer K) {numPoints dim i : ℕ} (hi : i < numPoints) :
    computeVecsL2sq blas vecsL2sq data numPoints dim i
      = ∑ l ∈ Finset.range dim, data (i * dim + l) * data (i * dim + l) := by
  rw [computeVecsL2sq, Buffer.mapRows_entry hi, blas.snrm2_mul_self]
  rfl

/-- **The matrix holds squared distances**, whatever was in it. -/
theorem distMatrix_apply {data centers docsL2sq centersL2sq distMatrix : Buffer K}
    {numPoints dim numCenters i j : ℕ} (hi : i < numPoints) (hj : j < numCenters)
    (hdoc : docsL2sq i = ∑ l ∈ Finset.range dim, data (i * dim + l) * data (i * dim + l))
    (hcenter : centersL2sq j
      = ∑ l ∈ Finset.range dim, centers (j * dim + l) * centers (j * dim + l)) :
    distMatrixOf blas data numPoints dim centers numCenters docsL2sq centersL2sq distMatrix
        (i * numCenters + j) = sqDist data centers dim i j := by
  have hsq : ∀ l, (data (i * dim + l) - centers (j * dim + l)) ^ 2
      = data (i * dim + l) * data (i * dim + l) + centers (j * dim + l) * centers (j * dim + l)
        + -2 * (data (i * dim + l) * centers (j * dim + l)) := fun l => by ring
  rw [distMatrixOf, blas.sgemm_apply _ _ _ _ _ _ _ _ _ _ _ i j hi hj le_rfl,
    blas.sgemm_apply _ _ _ _ _ _ _ _ _ _ _ i j hi hj le_rfl,
    blas.sgemm_apply _ _ _ _ _ _ _ _ _ _ _ i j hi hj le_rfl]
  simp only [Finset.sum_range_one, hdoc, hcenter, one_mul, mul_one, zero_mul, add_zero]
  rw [sqDist, Finset.sum_congr rfl fun l _ => hsq l, Finset.sum_add_distrib,
    Finset.sum_add_distrib, ← Finset.mul_sum]
  ring

end Distances

/-! ### The closest centers -/

section Closest

variable {K : Type*} [Field K] [LinearOrder K] (blas : Blas K)

/-- In a block every point gets the first least entry of its row. -/
lemma computeClosestCentersInBlock_spec (distMatrix : Buffer K) (centerIndex : Buffer UInt32)
    {data centers docsL2sq centersL2sq : Buffer K} {numPoints dim numCenters i : ℕ}
    (hi : i < numPoints) (hn : 0 < numCenters)
    (hdoc : docsL2sq i = ∑ l ∈ Finset.range dim, data (i * dim + l) * data (i * dim + l))
    (hcenter : ∀ j < numCenters, centersL2sq j
      = ∑ l ∈ Finset.range dim, centers (j * dim + l) * centers (j * dim + l))
    (hmax : ∃ j < numCenters, sqDist data centers dim i j < (floatMax : K)) :
    ∃ m, FirstLeast (sqDist data centers dim i) numCenters m ∧
      computeClosestCentersInBlock blas data numPoints dim centers numCenters docsL2sq centersL2sq
        centerIndex distMatrix i = UInt32.ofNat m := by
  have hrow : ∀ j < numCenters, (distMatrixOf blas data numPoints dim centers numCenters docsL2sq
      centersL2sq distMatrix).view (i * numCenters) j = sqDist data centers dim i j :=
    fun j hj => distMatrix_apply blas hi hj hdoc (hcenter j hj)
  have hbound : ∃ j < numCenters, (distMatrixOf blas data numPoints dim centers numCenters docsL2sq
      centersL2sq distMatrix).view (i * numCenters) j < (floatMax : K) := by
    obtain ⟨j, hj, hlt⟩ := hmax
    refine ⟨j, hj, ?_⟩
    rwa [hrow j hj]
  obtain ⟨m, hm, hscan⟩ :=
    scanLeast_spec_of_exists UInt32.ofNat (centerIndex i, (floatMax : K)) hbound
  refine ⟨m, hm.congr hrow, ?_⟩
  rw [computeClosestCentersInBlock, if_neg (by omega), Buffer.mapRows_entry hi, hscan]

/-- **Every point gets the first of its closest centers.** -/
theorem computeClosestCenters_spec (heap : Heap K) (closestCentersIvf : Buffer UInt32)
    {data pivotData : Buffer K} {numPoints dim numCenters i : ℕ} (hi : i < numPoints)
    (hn : 0 < numCenters)
    (hmax : ∀ j < numCenters, sqDist data pivotData dim i j < (floatMax : K)) :
    ∃ m, FirstLeast (sqDist data pivotData dim i) numCenters m ∧
      computeClosestCenters blas heap data numPoints dim pivotData numCenters closestCentersIvf i
        = UInt32.ofNat m := by
  have hpos : 0 < numPoints := Nat.zero_lt_of_lt hi
  obtain ⟨m, hm, hblock⟩ := computeClosestCentersInBlock_spec blas heap.floats heap.ids hi hn
    (computeVecsL2sq_apply blas heap.floats data hi)
    (fun j hj => computeVecsL2sq_apply blas heap.floats pivotData hj) ⟨0, hn, hmax 0 hn⟩
  refine ⟨m, hm, ?_⟩
  have hview : ∀ b : Buffer K, b.view 0 = b := fun b => funext fun a => by
    rw [Buffer.view, Nat.zero_add]
  rw [computeClosestCenters, if_neg (by omega)]
  simp only [Nat.mod_self, if_true, Nat.div_self hpos, List.range_one, List.foldl_cons,
    List.foldl_nil, Nat.zero_mul, Nat.sub_zero, Nat.min_self, Nat.zero_add, Nat.one_mul, hview]
  rw [Buffer.mapRows_entry hi, hblock]

/-- Nothing is written behind the points. -/
lemma computeClosestCenters_of_le (heap : Heap K) (closestCentersIvf : Buffer UInt32)
    {data pivotData : Buffer K} {numPoints dim numCenters a : ℕ} (ha : numPoints ≤ a) :
    computeClosestCenters blas heap data numPoints dim pivotData numCenters closestCentersIvf a
      = closestCentersIvf a := by
  by_cases hn : numCenters < 1
  · rw [computeClosestCenters, if_pos hn]
  · rcases Nat.eq_zero_or_pos numPoints with rfl | hpos
    · rw [computeClosestCenters, if_neg hn]
      rfl
    · have hout : ∀ f, closestCentersIvf.mapRows numPoints 1 1 0 f a = closestCentersIvf a := by
        intro f
        have h : closestCentersIvf.mapRows numPoints 1 1 0 f (a * 1 + 0) = _ :=
          Buffer.mapRows_apply le_rfl Nat.one_pos
        rw [if_neg (by omega), Nat.mul_one] at h
        exact h
      rw [computeClosestCenters, if_neg hn]
      simp only [Nat.mod_self, if_true, Nat.div_self hpos, List.range_one, List.foldl_cons,
        List.foldl_nil, Nat.zero_mul, Nat.sub_zero, Nat.min_self, Nat.zero_add, Nat.one_mul]
      exact hout _

/-- Without centers nothing is written. -/
lemma computeClosestCenters_of_none (heap : Heap K) (data pivotData : Buffer K)
    (closestCentersIvf : Buffer UInt32) (numPoints dim : ℕ) :
    computeClosestCenters blas heap data numPoints dim pivotData 0 closestCentersIvf
      = closestCentersIvf := rfl

end Closest

end RedAnns
