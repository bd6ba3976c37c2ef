import RedAnns.Core.ClosestCenters
import RedAnns.Lib.Allocated

/-!
The two overloads of `compute_closest_centers` (`src/math_utils.cpp`): one writes the indices of the
`k` closest centers of every point and the inverted lists, the other one writes distances as well.

* `CentersCall`, `MathEnv`: what a caller passes, and what the calls depend on besides.
* `computeClosestCentersInBlock`, `computeClosestCenters`, `computeClosestCentersWithDistances`: the
  source, for any `k`, with every access to an internal array checked.
* `overloads_agree_iff`: the calls for which the two overloads agree.
-/

namespace RedAnns.MathUtils

/-! ### The source -/

/-- `PivotContainer`. -/
structure PivotContainer (K : Type) where
  pivId : ℕ
  pivDist : K

/-- `std::priority_queue<PivotContainer>`: the order in which a queue hands out what was pushed. Its
`operator<` puts the least distance on top; nothing is said of equal ones. -/
structure PivotQueue (K : Type) [LE K] where
  handOut : List (PivotContainer K) → List (PivotContainer K)
  perm : ∀ l, (handOut l).Perm l
  sorted : ∀ l, (handOut l).Pairwise fun p q => p.pivDist ≤ q.pivDist

/-- The indices of the two loops over `n` points and `k` centers each. -/
def pairs (n k : ℕ) : List (ℕ × ℕ) :=
  (List.range n).flatMap fun j => (List.range k).map fun l => (j, l)

/-- The order in which threads come to the rounds of these loops: any, but the inner loop of a point
runs on one thread. -/
structure LoopOrder (n k : ℕ) where
  order : List (ℕ × ℕ)
  sequential : ∀ j, order.filter (fun p => p.1 = j) = (pairs n k).filter fun p => p.1 = j

/-- What the functions depend on: the matrix library, the queues, the threads and the heap. -/
structure MathEnv (K : Type) [Field K] [LinearOrder K] where
  blas : Blas K
  queue : PivotQueue K
  threads : (n k : ℕ) → LoopOrder n k
  heap : Heap K

/-- The arguments that are read. If the norms of the points are given, they are taken to be
precomputed. -/
structure CentersCall (K : Type) [Field K] where
  data : Buffer K
  numPoints : ℕ
  dim : ℕ
  pivotData : Buffer K
  numCenters : ℕ
  k : ℕ
  ptsNormsSquared : Option (Buffer K)
  norms_eq : ∀ norms ∈ ptsNormsSquared, ∀ i < numPoints,
    norms i = ∑ l ∈ Finset.range dim, data (i * dim + l) * data (i * dim + l)

/-- What is written: `closest_centers_ivf`, and `inverted_index` unless it is `NULL`. -/
structure CentersOut where
  ivf : Buffer UInt32
  invertedIndex : Option (Buffer (List ℕ))

/-- The arrays that the blocks of a call share. -/
structure BlockArrays (K : Type) where
  closestCenters : Allocated UInt32
  distanceMatrix : Allocated K

section Source

variable {K : Type} [Field K] [LinearOrder K]

/-- The loop over the centers, for one center a point. -/
def scanRow (current : Buffer K) (numCenters i : ℕ) (centerIndex : Allocated UInt32) :
    Except AccessFault (Allocated UInt32) := do
  let best ← (List.range numCenters).foldlM (fun (best : Allocated UInt32 × K) j => do
    if current j < best.2 then
      let centerIndex ← best.1.set i (UInt32.ofNat j)
      return (centerIndex, current j)
    else return best) (centerIndex, (floatMax : K))
  return best.1

/-- The center that is the `j`-th one on top of the queue of a row. -/
def topPivot (queue : PivotQueue K) (current : Buffer K) (numCenters j : ℕ) : ℕ :=
  ((queue.handOut ((List.range numCenters).map fun j => ⟨j, current j⟩)).map
    PivotContainer.pivId).getD j 0

/-- `compute_closest_centers_in_block`. -/
def computeClosestCentersInBlock (blas : Blas K) (queue : PivotQueue K) (data : Buffer K)
    (numPoints dim : ℕ) (centers : Buffer K) (numCenters : ℕ) (docsL2sq centersL2sq : Buffer K)
    (arrays : BlockArrays K) (k : ℕ) : Except AccessFault (BlockArrays K) :=
  if numCenters < k then return arrays
  else do
    let distMatrix ← arrays.distanceMatrix.fill (numPoints * numCenters)
      (distMatrixOf blas data numPoints dim centers numCenters docsL2sq centersL2sq
        arrays.distanceMatrix.entry)
    let centerIndex ←
      if k = 1 then
        (List.range numPoints).foldlM (fun centerIndex i =>
          scanRow (distMatrix.entry.view (i * numCenters)) numCenters i centerIndex)
          arrays.closestCenters
      else
        (pairs numPoints k).foldlM (fun centerIndex p =>
          centerIndex.set (p.1 * k + p.2)
            (UInt32.ofNat (topPivot queue (distMatrix.entry.view (p.1 * numCenters))
                numCenters p.2)))
          arrays.closestCenters
    return ⟨centerIndex, distMatrix⟩

/-- `inverted_index[c].push_back(j)`, unless the lists are not wanted. -/
def CentersOut.push (out : CentersOut) (c j : ℕ) : CentersOut :=
  { out with invertedIndex := out.invertedIndex.map fun l => Buffer.pushBack l c j }

variable (env : MathEnv K) (call : CentersCall K)

namespace CentersCall

/-- The norms of the points, given or computed. -/
def ptsNorms : Buffer K :=
  call.ptsNormsSquared.getD (computeVecsL2sq env.blas env.heap.floats call.data call.numPoints
    call.dim)

def pivsNorms : Buffer K :=
  computeVecsL2sq env.blas env.heap.floats call.pivotData call.numCenters call.dim

/-- `N_BLOCKS` for `PAR_BLOCK_SIZE = num_points`. -/
def nBlocks : ℕ :=
  if call.numPoints % call.numPoints = 0 then call.numPoints / call.numPoints
  else call.numPoints / call.numPoints + 1

/-- The call of the block routine for a block. -/
def inBlock (curBlk : ℕ) (arrays : BlockArrays K) : Except AccessFault (BlockArrays K) :=
  MathUtils.computeClosestCentersInBlock env.blas env.queue
    (call.data.view (curBlk * call.numPoints * call.dim))
    (min call.numPoints (call.numPoints - curBlk * call.numPoints)) call.dim call.pivotData
    call.numCenters ((call.ptsNorms env).view (curBlk * call.numPoints)) (call.pivsNorms env) arrays
    call.k

/-- The number of rounds of the loop over the points of a block. -/
def pointsOfBlock (curBlk : ℕ) : ℕ :=
  min call.numPoints ((curBlk + 1) * call.numPoints) - curBlk * call.numPoints

/-- The body of the loops over the points of a block and their centers, without distances. -/
def takeCenter (arrays : BlockArrays K) (curBlk : ℕ) (out : CentersOut) (p : ℕ × ℕ) :
    Except AccessFault CentersOut := do
  let thisCenterId ← arrays.closestCenters.get (p.1 * call.k + p.2)
  let j := curBlk * call.numPoints + p.1
  let ivf := Function.update out.ivf (j * call.k + p.2) thisCenterId
  return CentersOut.push { out with ivf } thisCenterId.toNat j

/-- The body of the loop over the points of a block, with distances. -/
def takeDistance (arrays : BlockArrays K) (curBlk : ℕ) (out : CentersOut × Buffer K) (p : ℕ × ℕ) :
    Except AccessFault (CentersOut × Buffer K) := do
  let thisCenterId ← arrays.closestCenters.get p.1
  let j := curBlk * call.numPoints + p.1
  let ivf := Function.update out.1.ivf j thisCenterId
  let thisClosestDistance ← arrays.distanceMatrix.get
    (thisCenterId.toNat + call.numCenters * p.1)
  let closestDistance := Function.update out.2 j thisClosestDistance
  return (CentersOut.push { out.1 with ivf } thisCenterId.toNat j, closestDistance)

end CentersCall

/-- `compute_closest_centers` without distances. -/
def computeClosestCenters (out : CentersOut) : Except AccessFault CentersOut :=
  if call.numCenters < call.k then return out
  else do
    let arrays : BlockArrays K := ⟨⟨call.numPoints * call.k, env.heap.ids⟩,
      ⟨call.numCenters * call.numPoints, env.heap.floats⟩⟩
    let s ← (List.range call.nBlocks).foldlM (fun (s : BlockArrays K × CentersOut) curBlk => do
      let arrays ← call.inBlock env curBlk s.1
      let out ← (env.threads (call.pointsOfBlock curBlk) call.k).order.foldlM
        (call.takeCenter arrays curBlk) s.2
      return (arrays, out)) (arrays, out)
    return s.2

/-- `compute_closest_centers` with distances. -/
def computeClosestCentersWithDistances (out : CentersOut) (closestDistance : Buffer K) :
    Except AccessFault (CentersOut × Buffer K) :=
  if call.numCenters < call.k then return (out, closestDistance)
  else do
    let arrays : BlockArrays K := ⟨⟨call.numPoints, env.heap.ids⟩,
      ⟨call.numCenters * call.numPoints, env.heap.floats⟩⟩
    let s ← (List.range call.nBlocks).foldlM
      (fun (s : BlockArrays K × CentersOut × Buffer K) curBlk => do
        let arrays ← call.inBlock env curBlk s.1
        let out ← (env.threads (call.pointsOfBlock curBlk) 1).order.foldlM
          (call.takeDistance arrays curBlk) s.2
        return (arrays, out)) (arrays, out, closestDistance)
    return s.2

end Source

/-! ### The orders of the rounds -/

lemma mem_pairs {n k : ℕ} {p : ℕ × ℕ} : p ∈ pairs n k ↔ p.1 < n ∧ p.2 < k := by
  obtain ⟨j, l⟩ := p
  simp [pairs]

namespace LoopOrder

variable {n k : ℕ} (t : LoopOrder n k)

/-- Every round is run once. -/
lemma perm : t.order.Perm (pairs n k) := by
  refine List.perm_iff_count.mpr fun p => ?_
  have hcount : ∀ l : List (ℕ × ℕ), l.count p = (l.filter fun q => q.1 = p.1).count p := fun l =>
    (List.count_filter (by simp)).symm
  rw [hcount, t.sequential, ← hcount]

lemma mem_order {p : ℕ × ℕ} : p ∈ t.order ↔ p.1 < n ∧ p.2 < k :=
  t.perm.mem_iff.trans mem_pairs

/-- For one center a point, the points in the order in which the threads come to them. -/
lemma map_fst_perm (t : LoopOrder n 1) : (t.order.map Prod.fst).Perm (List.range n) := by
  refine (t.perm.map Prod.fst).trans ?_
  have hfst : (pairs n 1).map Prod.fst = List.range n := by
    rw [pairs, List.map_flatMap]
    exact List.flatMap_singleton' _
  rw [hfst]

/-- A loop that writes one entry for every point, in whatever order. -/
lemma foldl_update {α : Type} (t : LoopOrder n 1) (val : ℕ → α) (m : Buffer α) :
    t.order.foldl (fun m p => Function.update m p.1 (val p.1)) m
      = fun a => if a < n then val a else m a := by
  funext a
  by_cases ha : a < n
  · have hmem : (a, 0) ∈ t.order := t.mem_order.mpr ⟨ha, Nat.one_pos⟩
    have hval : ∀ p ∈ t.order, ∀ q ∈ t.order, p.1 = q.1 → val p.1 = val q.1 :=
      fun p _ q _ heq => congrArg val heq
    rw [if_pos ha]
    exact Buffer.foldl_update_of_mem hval hmem
  · rw [if_neg ha]
    exact Buffer.foldl_update_of_not_mem fun p hp heq => ha (heq ▸ (t.mem_order.mp hp).1)

end LoopOrder

/-! ### The block routine -/

section Block

variable {K : Type} [Field K] [LinearOrder K] {current : Buffer K} {numCenters i : ℕ}
  {centerIndex : Allocated UInt32}

/-- The loop over the centers leaves what the scan finds. -/
lemma scanRow_eq (hi : i < centerIndex.size) :
    scanRow current numCenters i centerIndex = .ok ⟨centerIndex.size, Function.update
      centerIndex.entry i (scanLeast UInt32.ofNat current numCenters
        (centerIndex.entry i, (floatMax : K))).1⟩ := by
  have hset : ∀ m x, (⟨centerIndex.size, m⟩ : Allocated UInt32).set i x
      = .ok ⟨centerIndex.size, Function.update m i x⟩ := fun m x => if_pos hi
  have hloop : ∀ n, (List.range n).foldlM (fun (best : Allocated UInt32 × K) j => do
        if current j < best.2 then
          let centerIndex ← best.1.set i (UInt32.ofNat j)
          return (centerIndex, current j)
        else return best) (centerIndex, (floatMax : K))
      = (.ok (⟨centerIndex.size, Function.update centerIndex.entry i
          (scanLeast UInt32.ofNat current n (centerIndex.entry i, (floatMax : K))).1⟩,
          (scanLeast UInt32.ofNat current n (centerIndex.entry i, (floatMax : K))).2) :
        Except AccessFault (Allocated UInt32 × K)) := by
    intro n
    induction n with
    | zero =>
        have hself : Function.update centerIndex.entry i (centerIndex.entry i)
            = centerIndex.entry :=
          Function.update_eq_self ..
        simp only [List.range_zero, List.foldlM_nil, scanLeast, List.foldl_nil, hself]
        rfl
    | succ n ih =>
        rw [List.range_succ, List.foldlM_append, ih, scanLeast_succ]
        set best := scanLeast UInt32.ofNat current n (centerIndex.entry i, (floatMax : K))
        rw [ok_bind, List.foldlM_cons]
        by_cases hlt : current n < best.2
        · rw [if_pos hlt, if_pos hlt]
          dsimp only
          rw [hset, Function.update_idem]
          rfl
        · rw [if_neg hlt, if_neg hlt]
          rfl
  rw [scanRow, hloop]
  rfl

/-- The loop over the points, for one center a point. -/
lemma foldlM_scanRow (distMatrix : Buffer K) (numCenters : ℕ) {n : ℕ} (hn : n ≤ centerIndex.size) :
    (List.range n).foldlM (fun centerIndex i =>
      scanRow (distMatrix.view (i * numCenters)) numCenters i centerIndex) centerIndex
      = .ok ⟨centerIndex.size, centerIndex.entry.mapRows n 1 1 0 fun i _ index =>
          (scanLeast UInt32.ofNat (distMatrix.view (i * numCenters)) numCenters
            (index, (floatMax : K))).1⟩ := by
  induction n with
  | zero => rfl
  | succ n ih =>
      rw [List.range_succ, List.foldlM_append, ih (by omega), ok_bind, List.foldlM_cons,
        scanRow_eq (by exact hn), ok_bind, List.foldlM_nil, Buffer.mapRows_succ_entry]
      rfl

variable (blas : Blas K) (queue : PivotQueue K) (data centers docsL2sq centersL2sq : Buffer K)
  (arrays : BlockArrays K) {numPoints dim k : ℕ}

/-- For one center a point the routine stays inside arrays that hold one center a point. -/
lemma computeClosestCentersInBlock_one (hcenters : 0 < numCenters)
    (hindex : numPoints ≤ arrays.closestCenters.size)
    (hmatrix : numPoints * numCenters ≤ arrays.distanceMatrix.size) :
    computeClosestCentersInBlock blas queue data numPoints dim centers numCenters docsL2sq
        centersL2sq arrays 1
      = .ok ⟨⟨arrays.closestCenters.size, RedAnns.computeClosestCentersInBlock blas data
          numPoints dim centers numCenters docsL2sq centersL2sq arrays.closestCenters.entry
          arrays.distanceMatrix.entry⟩,
        ⟨arrays.distanceMatrix.size, distMatrixOf blas data numPoints dim centers
          numCenters docsL2sq centersL2sq arrays.distanceMatrix.entry⟩⟩ := by
  rw [computeClosestCentersInBlock, if_neg (by omega), Allocated.fill_of_le hmatrix,
    ok_bind, if_pos rfl, foldlM_scanRow _ _ hindex, ok_bind,
    RedAnns.computeClosestCentersInBlock, if_neg (by omega)]
  rfl

/-- For more centers a point it writes outside of an array that holds one a point. -/
lemma computeClosestCentersInBlock_outside (hn : 0 < numPoints) (hk : 1 < k) (hle : k ≤ numCenters)
    (hindex : arrays.closestCenters.size ≤ numPoints) (arrays' : BlockArrays K) :
    computeClosestCentersInBlock blas queue data numPoints dim centers numCenters docsL2sq
      centersL2sq arrays k ≠ .ok arrays' := by
  intro h
  rw [computeClosestCentersInBlock, if_neg (by omega)] at h
  obtain ⟨distMatrix, -, h⟩ := bind_eq_ok.mp h
  rw [if_neg (by omega)] at h
  obtain ⟨centerIndex, hloop, -⟩ := bind_eq_ok.mp h
  -- the last point does not fit
  have hlast : (numPoints - 1, k - 1) ∈ pairs numPoints k := mem_pairs.mpr (by omega)
  have hlt := (Allocated.lt_of_foldlM_set hloop).1 _ hlast
  have hrow : (numPoints - 1) * 2 ≤ (numPoints - 1) * k := Nat.mul_le_mul_left _ hk
  dsimp only at hlt
  omega

end Block

/-! ### The calls for one center a point -/

namespace CentersCall

variable {K : Type} [Field K] [LinearOrder K] (env : MathEnv K) (call : CentersCall K)

/-- The squared distance of a point and a center. -/
def dist (i j : ℕ) : K := sqDist call.data call.pivotData call.dim i j

/-- The first nearest center of a point. -/
def nearest (i : ℕ) : ℕ := (scanLeast id (call.dist i) call.numCenters (0, (floatMax : K))).1

/-- All distances are below the largest float. -/
def BelowMax : Prop :=
  ∀ i < call.numPoints, ∀ j < call.numCenters, call.dist i j < (floatMax : K)

/-- Every point has a center whose distance is below the largest float. -/
def SomeBelowMax : Prop :=
  ∀ i < call.numPoints, ∃ j < call.numCenters, call.dist i j < (floatMax : K)

variable {call}

lemma BelowMax.some (hmax : call.BelowMax) (hcenters : 0 < call.numCenters) : call.SomeBelowMax :=
  fun i hi => ⟨0, hcenters, hmax i hi 0 hcenters⟩

lemma nearest_spec (hmax : call.SomeBelowMax) {i : ℕ} (hi : i < call.numPoints) :
    FirstLeast (call.dist i) call.numCenters (call.nearest i) := by
  obtain ⟨m, hm, hscan⟩ := scanLeast_spec_of_exists id (0, (floatMax : K)) (hmax i hi)
  rw [nearest, hscan]
  exact hm

lemma ptsNorms_eq {i : ℕ} (hi : i < call.numPoints) : call.ptsNorms env i
    = ∑ l ∈ Finset.range call.dim, call.data (i * call.dim + l) * call.data (i * call.dim + l) := by
  cases hnorms : call.ptsNormsSquared with
  | none =>
      rw [ptsNorms, hnorms]
      exact computeVecsL2sq_apply env.blas _ _ hi
  | some norms =>
      rw [ptsNorms, hnorms]
      exact call.norms_eq norms hnorms i hi

omit [LinearOrder K] in
/-- The call has one block. -/
lemma nBlocks_eq (hn : 0 < call.numPoints) : call.nBlocks = 1 := by
  rw [nBlocks, if_pos (Nat.mod_self _), Nat.div_self hn]

omit [LinearOrder K] in
lemma pointsOfBlock_zero : call.pointsOfBlock 0 = call.numPoints := by
  simp [pointsOfBlock]

/-- The id that the scan of a point leaves where `before` stood. -/
def scanId (call : CentersCall K) (before : UInt32) (i : ℕ) : UInt32 :=
  (scanLeast UInt32.ofNat (call.dist i) call.numCenters (before, (floatMax : K))).1

/-- It is the first nearest center if one is below the largest float. -/
lemma scanId_eq (hmax : call.SomeBelowMax) (before : UInt32) {i : ℕ} (hi : i < call.numPoints) :
    call.scanId before i = UInt32.ofNat (call.nearest i) := by
  obtain ⟨m, hm, hscan⟩ :=
    scanLeast_spec_of_exists UInt32.ofNat (before, (floatMax : K)) (hmax i hi)
  rw [scanId, hscan, (nearest_spec hmax hi).unique hm]

/-- The block routine for one center a point: what the scans leave, and all distances. -/
lemma inBlock_one (hk : call.k = 1) (hcenters : 0 < call.numCenters)
    (ids : Buffer UInt32) (floats : Buffer K) :
    ∃ arrays, call.inBlock env 0
        ⟨⟨call.numPoints, ids⟩, ⟨call.numCenters * call.numPoints, floats⟩⟩ = .ok arrays ∧
      arrays.closestCenters.size = call.numPoints ∧
      arrays.distanceMatrix.size = call.numCenters * call.numPoints ∧
      ∀ i < call.numPoints, arrays.closestCenters.entry i = call.scanId (ids i) i ∧
        ∀ j < call.numCenters,
          arrays.distanceMatrix.entry (i * call.numCenters + j) = call.dist i j := by
  have hview : ∀ b : Buffer K, b.view 0 = b := fun b => funext fun a => by
    rw [Buffer.view, Nat.zero_add]
  have hpivs : ∀ j < call.numCenters, call.pivsNorms env j = ∑ l ∈ Finset.range call.dim,
      call.pivotData (j * call.dim + l) * call.pivotData (j * call.dim + l) :=
    fun j hj => computeVecsL2sq_apply env.blas _ _ hj
  have hdist : ∀ i < call.numPoints, ∀ j < call.numCenters, distMatrixOf env.blas call.data
      call.numPoints call.dim call.pivotData call.numCenters (call.ptsNorms env)
      (call.pivsNorms env) floats (i * call.numCenters + j) = call.dist i j :=
    fun i hi j hj => distMatrix_apply env.blas hi hj (ptsNorms_eq env hi) (hpivs j hj)
  have hcall : call.inBlock env 0
      ⟨⟨call.numPoints, ids⟩, ⟨call.numCenters * call.numPoints, floats⟩⟩
      = .ok ⟨⟨call.numPoints, RedAnns.computeClosestCentersInBlock env.blas call.data
          call.numPoints call.dim call.pivotData call.numCenters (call.ptsNorms env)
          (call.pivsNorms env) ids floats⟩,
        ⟨call.numCenters * call.numPoints, distMatrixOf env.blas call.data call.numPoints call.dim
          call.pivotData call.numCenters (call.ptsNorms env) (call.pivsNorms env) floats⟩⟩ := by
    rw [inBlock, hk, Nat.zero_mul, Nat.zero_mul, Nat.sub_zero, Nat.min_self, hview, hview]
    exact computeClosestCentersInBlock_one _ _ _ _ _ _ _ hcenters le_rfl (Nat.mul_comm _ _).le
  refine ⟨_, hcall, rfl, rfl, fun i hi => ⟨?_, hdist i hi⟩⟩
  dsimp only
  rw [RedAnns.computeClosestCentersInBlock, if_neg (by omega), Buffer.mapRows_entry hi, scanId]
  exact congrArg Prod.fst (scanLeast_congr UInt32.ofNat _ (hdist i hi))

end CentersCall

/-! ### What the loops over the points write -/

/-- A loop that writes ids and appends to the lists. -/
lemma foldl_push {ι : Type} (idx item : ι → ℕ) (id : ι → UInt32) (is : List ι) (out : CentersOut) :
    is.foldl (fun out p => CentersOut.push
        { out with ivf := Function.update out.ivf (idx p) (id p) } (id p).toNat (item p)) out
      = ⟨is.foldl (fun m p => Function.update m (idx p) (id p)) out.ivf,
        out.invertedIndex.map fun l =>
          is.foldl (fun l p => Buffer.pushBack l (id p).toNat (item p)) l⟩ := by
  induction is generalizing out with
  | nil => simp
  | cons p is ih =>
      rw [List.foldl_cons, ih]
      simp [CentersOut.push, Function.comp_def]

namespace CentersCall

variable {K : Type} [Field K] [LinearOrder K] (env : MathEnv K) (call : CentersCall K)

/-- The nearest center of a point as an id of 32 bits. -/
def centerId (i : ℕ) : UInt32 := UInt32.ofNat (call.nearest i)

/-- What a call for one center a point writes, whose threads come to the points in an order. -/
def written (order : List (ℕ × ℕ)) (out : CentersOut) : CentersOut where
  ivf := fun a => if a < call.numPoints then call.centerId a else out.ivf a
  invertedIndex := out.invertedIndex.map fun l c =>
    l c ++ (order.filter fun p => (call.centerId p.1).toNat = c).map Prod.fst

/-- The center of a point is written and its list extended. -/
def place (out : CentersOut) (j : ℕ) : CentersOut :=
  CentersOut.push { out with ivf := Function.update out.ivf j (call.centerId j) }
    (call.centerId j).toNat j

variable {call}

/-- The loop over the points of a call. -/
lemma foldl_place (t : LoopOrder call.numPoints 1) (out : CentersOut) :
    t.order.foldl (fun out p => call.place out p.1) out = call.written t.order out := by
  have h :=
    foldl_push (fun p : ℕ × ℕ => p.1) (fun p => p.1) (fun p => call.centerId p.1) t.order out
  rw [t.foldl_update] at h
  refine h.trans ?_
  rw [written]
  congr 2
  funext l c
  exact Buffer.foldl_pushBack ..

/-- **Without distances**, for one center a point: what the scans leave is written, and the lists
are extended. -/
lemma computeClosestCenters_scan (hk : call.k = 1) (hn : 0 < call.numPoints)
    (hcenters : 0 < call.numCenters) (out : CentersOut) :
    computeClosestCenters env call out
      = .ok ((env.threads call.numPoints 1).order.foldl (fun out p => CentersOut.push
          { out with ivf := Function.update out.ivf p.1 (call.scanId (env.heap.ids p.1) p.1) }
          (call.scanId (env.heap.ids p.1) p.1).toNat p.1) out) := by
  obtain ⟨arrays, hblock, hsize, -, hentry⟩ :=
    inBlock_one env hk hcenters env.heap.ids env.heap.floats
  have hloop : (env.threads call.numPoints 1).order.foldlM (call.takeCenter arrays 0) out
      = .ok ((env.threads call.numPoints 1).order.foldl (fun out p => CentersOut.push
          { out with ivf := Function.update out.ivf p.1 (call.scanId (env.heap.ids p.1) p.1) }
          (call.scanId (env.heap.ids p.1) p.1).toNat p.1) out) := by
    refine foldlM_eq_foldl_of_inv (P := fun _ => True) (fun p hp s _ => ⟨?_, trivial⟩) trivial
    obtain ⟨hj, hl⟩ := (LoopOrder.mem_order _).mp hp
    have hindex : p.1 * 1 + p.2 = p.1 := by omega
    have hid : arrays.closestCenters.get p.1 = .ok (call.scanId (env.heap.ids p.1) p.1) := by
      rw [Allocated.get_of_lt (hsize ▸ hj), (hentry _ hj).1]
    rw [takeCenter, hk, hindex, hid, ok_bind, Nat.zero_mul, Nat.zero_add]
    dsimp only
    rw [hindex]
    rfl
  rw [computeClosestCenters, if_neg (by omega), nBlocks_eq hn, List.range_one]
  dsimp only
  rw [List.foldlM_cons, hk, Nat.mul_one, hblock, ok_bind, pointsOfBlock_zero, hloop]
  rfl

variable (call) in
/-- Whatever the distances, only points come into the lists. -/
lemma lt_of_computeClosestCenters (hk : call.k = 1) (hn : 0 < call.numPoints)
    (hcenters : 0 < call.numCenters) (ivf : Buffer UInt32) (docs : Buffer (List ℕ)) :
    ∃ ivf' docs', computeClosestCenters env call ⟨ivf, some docs⟩ = .ok ⟨ivf', some docs'⟩ ∧
      ∀ c, ∀ j ∈ docs' c, j ∈ docs c ∨ j < call.numPoints := by
  rw [computeClosestCenters_scan env hk hn hcenters]
  have h := foldl_push (fun p : ℕ × ℕ => p.1) (fun p => p.1)
    (fun p => call.scanId (env.heap.ids p.1) p.1) (env.threads call.numPoints 1).order
    ⟨ivf, some docs⟩
  rw [h]
  refine ⟨_, _, rfl, fun c j hj => ?_⟩
  dsimp only at hj
  rw [Buffer.foldl_pushBack] at hj
  rcases List.mem_append.mp hj with hj | hj
  · exact Or.inl hj
  · obtain ⟨p, hp, rfl⟩ := List.mem_map.mp hj
    exact Or.inr ((LoopOrder.mem_order _).mp (List.mem_of_mem_filter hp)).1

/-- For one center a point, the first nearest centers and the lists. -/
theorem computeClosestCenters_one (hk : call.k = 1) (hn : 0 < call.numPoints)
    (hcenters : 0 < call.numCenters) (hmax : call.SomeBelowMax) (out : CentersOut) :
    computeClosestCenters env call out
      = .ok (call.written (env.threads call.numPoints 1).order out) := by
  rw [computeClosestCenters_scan env hk hn hcenters, ← foldl_place]
  refine congrArg Except.ok (List.foldl_ext _ _ _ fun out p hp => ?_)
  rw [scanId_eq hmax _ ((LoopOrder.mem_order _).mp hp).1]
  rfl

/-- Without norms and lists this is the function that the compression calls. -/
theorem computeClosestCenters_eq (hk : call.k = 1) (hn : 0 < call.numPoints)
    (hcenters : 0 < call.numCenters) (hmax : call.BelowMax) (ivf : Buffer UInt32) :
    computeClosestCenters env call ⟨ivf, none⟩
      = .ok ⟨RedAnns.computeClosestCenters env.blas env.heap call.data call.numPoints call.dim
          call.pivotData call.numCenters ivf, none⟩ := by
  rw [computeClosestCenters_one env hk hn hcenters (hmax.some hcenters), written]
  congr 2
  funext a
  by_cases ha : a < call.numPoints
  · obtain ⟨m, hm, hspec⟩ := computeClosestCenters_spec env.blas env.heap ivf ha hcenters
      (hmax a ha)
    rw [if_pos ha, hspec, centerId, (nearest_spec (hmax.some hcenters) ha).unique hm]
  · rw [if_neg ha, RedAnns.computeClosestCenters_of_le env.blas env.heap _ (not_lt.mp ha)]

/-- A distance of a point that was found, written for every point. -/
def writtenDist (call : CentersCall K) (closestDistance : Buffer K) : Buffer K :=
  fun a => if a < call.numPoints then call.dist a (call.centerId a).toNat else closestDistance a

/-- **With distances**, for one center a point: the same, and the distances to these centers. -/
theorem computeClosestCentersWithDistances_one (hk : call.k = 1) (hn : 0 < call.numPoints)
    (hcenters : 0 < call.numCenters) (hmax : call.SomeBelowMax) (out : CentersOut)
    (closestDistance : Buffer K) :
    computeClosestCentersWithDistances env call out closestDistance
      = .ok (call.written (env.threads call.numPoints 1).order out,
          call.writtenDist closestDistance) := by
  obtain ⟨arrays, hblock, hsize, hsizeMatrix, hentry⟩ :=
    inBlock_one env hk hcenters env.heap.ids env.heap.floats
  have hid : ∀ j < call.numPoints, arrays.closestCenters.get j = .ok (call.centerId j) := by
    intro j hj
    rw [Allocated.get_of_lt (hsize ▸ hj), (hentry _ hj).1, scanId_eq hmax _ hj]
    rfl
  have hcenter : ∀ j < call.numPoints, (call.centerId j).toNat < call.numCenters := fun j hj =>
    (Nat.mod_le _ _).trans_lt (nearest_spec hmax hj).lt
  have hdist : ∀ j < call.numPoints, arrays.distanceMatrix.get
      ((call.centerId j).toNat + call.numCenters * j)
        = .ok (call.dist j (call.centerId j).toNat) := by
    intro j hj
    have hrow : call.numCenters * (j + 1) ≤ call.numCenters * call.numPoints :=
      Nat.mul_le_mul_left _ hj
    rw [Nat.mul_succ] at hrow
    have hlt := hcenter j hj
    rw [Allocated.get_of_lt (by omega), Nat.add_comm, Nat.mul_comm,
      (hentry j hj).2 _ (hcenter j hj)]
  have hloop : (env.threads call.numPoints 1).order.foldlM (call.takeDistance arrays 0)
      (out, closestDistance) = .ok ((env.threads call.numPoints 1).order.foldl (fun out p =>
        (call.place out.1 p.1, Function.update out.2 p.1 (call.dist p.1 (call.centerId p.1).toNat)))
        (out, closestDistance)) := by
    refine foldlM_eq_foldl_of_inv (P := fun _ => True) (fun p hp s _ => ⟨?_, trivial⟩) trivial
    have hj := ((LoopOrder.mem_order _).mp hp).1
    rw [takeDistance, hid _ hj, ok_bind, hdist _ hj, ok_bind, Nat.zero_mul,
      Nat.zero_add]
    rfl
  rw [foldl_pair (fun (out : CentersOut) (p : ℕ × ℕ) => call.place out p.1)
    (fun (m : Buffer K) (p : ℕ × ℕ) => Function.update m p.1
      (call.dist p.1 (call.centerId p.1).toNat)), foldl_place,
    LoopOrder.foldl_update _ fun a => call.dist a (call.centerId a).toNat] at hloop
  rw [computeClosestCentersWithDistances, if_neg (by omega), nBlocks_eq hn, List.range_one]
  dsimp only
  rw [List.foldlM_cons, hblock, ok_bind, pointsOfBlock_zero, hloop]
  rfl

variable (call) in
/-- What the overload with distances writes if it stays inside its arrays: the ids that the scans
leave. -/
lemma ivf_of_computeClosestCentersWithDistances (hk : call.k = 1) (hn : 0 < call.numPoints)
    (hcenters : 0 < call.numCenters) {out : CentersOut} {closestDistance : Buffer K}
    {result : CentersOut × Buffer K}
    (h : computeClosestCentersWithDistances env call out closestDistance = .ok result) {i : ℕ}
    (hi : i < call.numPoints) : result.1.ivf i = call.scanId (env.heap.ids i) i := by
  obtain ⟨arrays, hblock, -, -, hentry⟩ :=
    inBlock_one env hk hcenters env.heap.ids env.heap.floats
  have hround : ∀ (s s' : CentersOut × Buffer K) (p : ℕ × ℕ),
      call.takeDistance arrays 0 s p = .ok s' →
      s'.1.ivf = Function.update s.1.ivf p.1 (arrays.closestCenters.entry p.1) := by
    intro s s' p hs
    rw [takeDistance] at hs
    obtain ⟨id, hid, hs⟩ := bind_eq_ok.mp hs
    obtain ⟨d, -, hs⟩ := bind_eq_ok.mp hs
    rw [Nat.zero_mul, Nat.zero_add] at hs
    rw [← Except.ok.inj hs, Allocated.eq_of_get hid]
    rfl
  rw [computeClosestCentersWithDistances, if_neg (by omega), nBlocks_eq hn, List.range_one] at h
  dsimp only at h
  rw [List.foldlM_cons, hblock, ok_bind, pointsOfBlock_zero] at h
  obtain ⟨s, hs, h⟩ := bind_eq_ok.mp h
  obtain ⟨block, hblock, hs⟩ := bind_eq_ok.mp hs
  obtain ⟨written, hrun, hblock⟩ := bind_eq_ok.mp hblock
  obtain rfl := Except.ok.inj hblock
  obtain rfl := Except.ok.inj hs
  rw [← Except.ok.inj h]
  have hivf := foldlM_part (fun s : CentersOut × Buffer K => s.1.ivf)
    (fun m p => Function.update m p.1 (arrays.closestCenters.entry p.1)) hround hrun
  rw [LoopOrder.foldl_update] at hivf
  exact (congrFun hivf i).trans ((if_pos hi).trans (hentry i hi).1)

end CentersCall

/-! ### Agreement -/

section Agreement

variable {K : Type} [Field K] [LinearOrder K] (env env' : MathEnv K) (call : CentersCall K)
  (out : CentersOut) (closestDistance : Buffer K)

/-- The overload with distances does what the other one does: it stays inside its arrays, writes the
same ids and the same lists up to the order of the threads, and for one center a point the distance
to it, which is least. -/
def Agrees : Prop :=
  ∃ plain timed distance, computeClosestCenters env call out = .ok plain ∧
    computeClosestCentersWithDistances env' call out closestDistance = .ok (timed, distance) ∧
    (∀ a < call.numPoints * call.k, timed.ivf a = plain.ivf a) ∧
    Option.Rel (fun l l' => ∀ c, (l c).Perm (l' c)) timed.invertedIndex plain.invertedIndex ∧
    (call.k = 1 → ∀ i < call.numPoints, distance i = call.dist i (timed.ivf i).toNat ∧
      ∀ j < call.numCenters, distance i ≤ call.dist i j)

variable {call}

/-- For more than one center a point the overload with distances leaves its arrays. -/
lemma not_agrees_of_one_lt (hn : 0 < call.numPoints) (hk : 1 < call.k)
    (hle : call.k ≤ call.numCenters) : ¬ Agrees env env' call out closestDistance := by
  rintro ⟨plain, timed, distance, -, htimed, -⟩
  rw [computeClosestCentersWithDistances, if_neg (by omega), CentersCall.nBlocks_eq hn,
    List.range_one] at htimed
  dsimp only at htimed
  rw [List.foldlM_cons] at htimed
  obtain ⟨s, hs, -⟩ := bind_eq_ok.mp htimed
  obtain ⟨first, hfirst, -⟩ := bind_eq_ok.mp hs
  obtain ⟨arrays, hblock, -⟩ := bind_eq_ok.mp hfirst
  refine computeClosestCentersInBlock_outside env'.blas env'.queue _ _ _ _ _ ?_ hk hle ?_ arrays
    hblock
  · rw [Nat.zero_mul, Nat.sub_zero, Nat.min_self]
    exact hn
  · rw [Nat.zero_mul, Nat.sub_zero, Nat.min_self]

/-- The lists that two orders of the threads leave. -/
lemma CentersCall.written_lists (t t' : LoopOrder call.numPoints 1) :
    Option.Rel (fun l l' => ∀ c, (l c).Perm (l' c)) (call.written t.order out).invertedIndex
      (call.written t'.order out).invertedIndex := by
  cases hlists : out.invertedIndex with
  | none => rw [CentersCall.written, CentersCall.written, hlists]; exact Option.Rel.none
  | some l =>
      rw [CentersCall.written, CentersCall.written, hlists]
      exact Option.Rel.some fun c =>
        ((t.perm.trans t'.perm.symm).filter _).map _ |>.append_left _

/-- **When the overloads agree**: for one center a point, and if every point has a nearest center
whose id is the index of its first nearest one modulo the 32 bits of an id. -/
theorem overloads_agree_iff (hn : 0 < call.numPoints) (hk : 1 ≤ call.k)
    (hle : call.k ≤ call.numCenters) (hmax : call.BelowMax) :
    Agrees env env' call out closestDistance ↔
      call.k = 1 ∧ ∀ i < call.numPoints, ∀ m, FirstLeast (call.dist i) call.numCenters m →
        ∀ j < call.numCenters, call.dist i (m % 2 ^ 32) ≤ call.dist i j := by
  have hcenters : 0 < call.numCenters := by omega
  have hsome := hmax.some hcenters
  rcases eq_or_lt_of_le hk with hone | hmore
  · have hdistance : ∀ i < call.numPoints, call.writtenDist closestDistance i
        = call.dist i (call.nearest i % 2 ^ 32) := fun i hi => if_pos hi
    constructor
    · rintro ⟨plain, timed, distance, -, htimed, -, -, hleast⟩
      rw [CentersCall.computeClosestCentersWithDistances_one env' hone.symm hn hcenters
        hsome] at htimed
      obtain ⟨-, rfl⟩ := Prod.mk.inj (Except.ok.inj htimed)
      refine ⟨hone.symm, fun i hi m hm j hj => ?_⟩
      rw [hm.unique (CentersCall.nearest_spec hsome hi), ← hdistance i hi]
      exact (hleast hone.symm i hi).2 j hj
    · rintro ⟨-, hnearest⟩
      refine ⟨_, _, _,
        CentersCall.computeClosestCenters_one env hone.symm hn hcenters hsome out,
        CentersCall.computeClosestCentersWithDistances_one env' hone.symm hn hcenters hsome out _,
        fun a _ => rfl, CentersCall.written_lists out _ _, fun _ i hi => ⟨?_, fun j hj => ?_⟩⟩
      · have hid : (call.written (env'.threads call.numPoints 1).order out).ivf i
            = call.centerId i :=
          if_pos hi
        rw [hid]
        exact hdistance i hi
      · rw [hdistance i hi]
        exact hnearest i hi _ (CentersCall.nearest_spec hsome hi) j hj
  · exact iff_of_false (not_agrees_of_one_lt env env' out closestDistance hn hmore hle)
      fun h => hmore.ne' h.1

end Agreement

/-! ### Two centers -/

/-- The threads take the rounds in the order of the loops. -/
def inOrder (n k : ℕ) : LoopOrder n k := ⟨pairs n k, fun _ => rfl⟩

/-- A queue that sorts what was pushed. -/
noncomputable def sortQueue : PivotQueue ℝ where
  handOut := fun l => l.mergeSort fun p q => decide (p.pivDist ≤ q.pivDist)
  perm := fun l => List.mergeSort_perm l _
  sorted := fun l => by
    have htrans : ∀ p q r : PivotContainer ℝ, decide (p.pivDist ≤ q.pivDist) →
        decide (q.pivDist ≤ r.pivDist) → decide (p.pivDist ≤ r.pivDist) := by
      intro p q r hpq hqr
      exact decide_eq_true ((of_decide_eq_true hpq).trans (of_decide_eq_true hqr))
    have htotal : ∀ p q : PivotContainer ℝ,
        decide (p.pivDist ≤ q.pivDist) || decide (q.pivDist ≤ p.pivDist) := by
      intro p q
      simpa using le_total p.pivDist q.pivDist
    exact (List.pairwise_mergeSort htrans htotal l).imp fun hpq => of_decide_eq_true hpq

noncomputable def exactEnv : MathEnv ℝ where
  blas := exactBlas
  queue := sortQueue
  threads := inOrder
  heap := ⟨fun _ => 0, fun _ => 0⟩

/-- One point at zero, and two centers at zero and one. -/
def twoCenters (k : ℕ) : CentersCall ℝ where
  data := fun _ => 0
  numPoints := 1
  dim := 1
  pivotData := fun j => j
  numCenters := 2
  k := k
  ptsNormsSquared := none
  norms_eq := fun _ h => absurd h (by simp)

lemma dist_twoCenters (k j : ℕ) : (twoCenters k).dist 0 j = (j : ℝ) ^ 2 := by
  simp [CentersCall.dist, sqDist, twoCenters]

lemma belowMax_twoCenters (k : ℕ) : (twoCenters k).BelowMax := by
  intro i hi j hj
  have hi0 : i = 0 := Nat.lt_one_iff.mp hi
  have hj1 : (j : ℝ) ≤ 1 := by exact_mod_cast Nat.le_of_lt_succ hj
  have hmax : (1 : ℝ) < (floatMax : ℝ) := by norm_num [floatMax]
  rw [hi0, dist_twoCenters]
  nlinarith [(Nat.cast_nonneg j : (0 : ℝ) ≤ j)]

theorem overloads_agree_iff_twoCenters :
    Agrees exactEnv exactEnv (twoCenters 1) ⟨fun _ => 0, some fun _ => []⟩ fun _ => 0 := by
  refine (overloads_agree_iff exactEnv exactEnv _ (fun _ => 0) Nat.one_pos le_rfl one_le_two
    (belowMax_twoCenters 1)).mpr ⟨rfl, fun i _ m hm j hj => ?_⟩
  have hlt : m < 2 := hm.lt
  rw [Nat.mod_eq_of_lt (by omega)]
  exact hm.le j hj

theorem not_agrees_twoCenters : (twoCenters 2).BelowMax ∧
    ¬ Agrees exactEnv exactEnv (twoCenters 2) ⟨fun _ => 0, none⟩ fun _ => 0 :=
  ⟨belowMax_twoCenters 2, not_agrees_of_one_lt exactEnv exactEnv _ _ Nat.one_pos one_lt_two le_rfl⟩

end RedAnns.MathUtils
