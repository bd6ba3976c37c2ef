import RedAnns.Core.Lloyd
import RedAnns.Core.PivotSelection

/-!
The clustering of a chunk once more, with a look at what may go wrong: every integer division and
every access to the training data is checked. The other arrays are allocated with the sizes that the
loops run over.

* `Stop`: what keeps a run from returning; `divide`, `remainder`, `inside`, `Sample.read`: the
  checks.
* `Seeds`: the draws; `uniform_int_distribution` ranges over `0, …, num_points - 1`, computed in 64
  bits.
* `selectingPivots`, `kmeansppSelectingPivots`, `lloydsIter`, `runLloyds`: the source of
  `PivotSelection.lean` and `Lloyd.lean`, with checks.
* `kmeanspp_eq`, `runLloyds_eq`: with at least one point no check fails, and the results are those
  of the functions without checks.
* `kmeanspp_ok`, `kmeanspp_of_empty`: the selection of pivots returns if there is a point, and
  leaves the data if there is none.
-/

namespace RedAnns.Checked

open MathUtils (CentersCall CentersOut MathEnv)

/-- What keeps a run from returning. -/
inductive Stop
  | divisionByZero
  | outsideSample
  | outsideArray
  | unfinished
  | internal (fault : AccessFault)
  | endOfFile
  | unreadable
  | noPivots
  | noBin
  deriving DecidableEq

/-- `x / y` for unsigned integers. -/
def divide (x y : ℕ) : Except Stop ℕ := if y = 0 then .error .divisionByZero else .ok (x / y)

/-- `x % y`. -/
def remainder (x y : ℕ) : Except Stop ℕ := if y = 0 then .error .divisionByZero else .ok (x % y)

/-- An access to `count` entries of an array of `size`, from an offset on. -/
def inside (offset count size : ℕ) : Except Stop Unit :=
  if offset + count ≤ size then .ok () else .error .outsideArray

/-- Training data: `numPoints` rows of `dim` numbers. -/
structure Sample (K : Type) where
  data : Buffer K
  numPoints : ℕ
  dim : ℕ

/-- An access to `count` numbers from an offset on. -/
def Sample.read {K : Type} (s : Sample K) (offset count : ℕ) : Except Stop (Buffer K) :=
  if offset + count ≤ s.numPoints * s.dim then .ok (s.data.view offset) else .error .outsideSample

/-- An access to a row. -/
def Sample.row {K : Type} (s : Sample K) (i : ℕ) : Except Stop (Buffer K) :=
  s.read (i * s.dim) s.dim

/-- The draws of a selection of pivots: `int hi j` is the draw `j` from `0, …, hi`. -/
structure Seeds (K : Type) [Field K] [LinearOrder K] where
  int : UInt64 → ℕ → UInt64
  real : ℕ → K
  int_le : ∀ hi j, int hi j ≤ hi
  real_nonneg : ∀ j, 0 ≤ real j
  real_lt_one : ∀ j, real j < 1

/-! ### The source -/

section Selection

variable {K : Type} [Field K] [LinearOrder K] (seeds : Seeds K) (sample : Sample K)

/-- A draw from `uniform_int_distribution<size_t>(0, num_points - 1)`. -/
def drawPoint (j : ℕ) : ℕ := (seeds.int (UInt64.ofNat sample.numPoints - 1) j).toNat

/-- One round of `selecting_pivots`. -/
def pickRow (s : List ℕ × Buffer K) (j : ℕ) : Except Stop (List ℕ × Buffer K) := do
  let tmpPivot := drawPoint seeds sample j
  if tmpPivot ∈ s.1 then return s
  else
    let row ← sample.row tmpPivot
    return (s.1 ++ [tmpPivot], s.2.copy (j * sample.dim) sample.dim row)

/-- `selecting_pivots`. -/
def selectingPivots (pivotData : Buffer K) (numCenters : ℕ) : Except Stop (Buffer K) := do
  let s ← (List.range numCenters).foldlM (pickRow seeds sample) ([], pivotData)
  return s.2

/-- The loops of `kmeanspp_selecting_pivots` over the distances to a pivot. -/
def compareAll (combine : K → K → K) (dist : Buffer K) (pivot : ℕ) : Except Stop (Buffer K) :=
  (List.range sample.numPoints).foldlM (fun dist i => do
    let point ← sample.row i
    let row ← sample.row pivot
    return Function.update dist i (combine (dist i) (calcDistance point row sample.dim))) dist

/-- One round of the loop of `kmeanspp_selecting_pivots`. -/
def seedRound (s : Kmeans.SeedState K) : Except Stop (Kmeans.SeedState K) := do
  let sum := (List.range sample.numPoints).foldl (fun sum i => sum + s.dist i) 0
  let sumFlag := if sum = 0 then true else s.sumFlag
  let dartVal := seeds.real s.thrown * sum
  let tmpPivot := Kmeans.throwDart s.dist dartVal sample.numPoints 0 0 s.tmpPivot
  if tmpPivot ∈ s.picked ∧ sumFlag = false then
    return { s with sumFlag, tmpPivot, thrown := s.thrown + 1 }
  else
    let row ← sample.row tmpPivot
    let dist ← compareAll sample min s.dist tmpPivot
    return {
      picked := s.picked ++ [tmpPivot]
      pivotData := s.pivotData.copy (s.numPicked * sample.dim) sample.dim row
      dist
      numPicked := s.numPicked + 1
      sumFlag, tmpPivot
      thrown := s.thrown + 1 }

/-- `kmeanspp_selecting_pivots`, with at most `fuel` darts; `dist` and `tmpPivot` are what the
memory holds. -/
def kmeansppSelectingPivots (pivotData dist : Buffer K) (tmpPivot numCenters fuel : ℕ) :
    Except Stop (Buffer K) :=
  if 2 ^ 23 < sample.numPoints then selectingPivots seeds sample pivotData numCenters
  else do
    let initId := drawPoint seeds sample 0
    let row ← sample.row initId
    let dist ← compareAll sample (fun _ d => d) dist initId
    let s ← whileLoopM (fun s => decide (s.numPicked < numCenters)) (seedRound seeds sample) fuel
      { picked := [initId]
        pivotData := pivotData.copy 0 sample.dim row
        dist
        numPicked := 1
        sumFlag := false
        tmpPivot
        thrown := 0 }
    if s.numPicked < numCenters then .error .unfinished else return s.pivotData

end Selection

section Lloyd

variable {K : Type} [Field K] [LinearOrder K] {numPoints dim : ℕ} (env : MathEnv K)
  (p : Kmeans.Points K numPoints dim) (numCenters : ℕ)

/-- The points as training data. -/
def sampleOf (p : Kmeans.Points K numPoints dim) : Sample K := ⟨p.data, numPoints, dim⟩

/-- `N_BLOCKS` of `compute_closest_centers`, where a block has as many points as there are. -/
def blocksOf (numPoints : ℕ) : Except Stop ℕ := do
  let rest ← remainder numPoints numPoints
  let blocks ← divide numPoints numPoints
  return if rest = 0 then blocks else blocks + 1

/-- `compute_closest_centers`, with the divisions and the blocks of the data. -/
def computeClosestCenters (call : CentersCall K) (out : CentersOut) : Except Stop CentersOut :=
  if call.numCenters < call.k then return out
  else do
    let nBlocks ← blocksOf call.numPoints
    (List.range nBlocks).forM fun curBlk => do
      let _ ← (⟨call.data, call.numPoints, call.dim⟩ : Sample K).read
        (curBlk * call.numPoints * call.dim)
        (min call.numPoints (call.numPoints - curBlk * call.numPoints) * call.dim)
    (MathUtils.computeClosestCenters env call out).mapError Stop.internal

/-- The body of the loop over the centers of `lloyds_iter`. -/
def updateCenter (closestDocs : Buffer (List ℕ)) (centers : Buffer K) (c : ℕ) :
    Except Stop (Buffer K) := do
  let clusterSum ← (closestDocs c).foldlM (fun clusterSum d => do
    let current ← (sampleOf p).row d
    return Buffer.addEach clusterSum 0 dim current) (Buffer.clear env.heap.floats dim)
  if 0 < (closestDocs c).length then
    return centers.copy (c * dim) dim fun i => clusterSum i / (closestDocs c).length
  else return centers

/-- The loop over a chunk of the points. -/
def chunkResidual (centers : Buffer K) (closestCenter : Buffer UInt32) (chunk : ℕ) :
    Except Stop K :=
  (List.range (min numPoints ((chunk + 1) * Kmeans.chunkSize) - chunk * Kmeans.chunkSize)).foldlM
    (fun residual t => do
      let d := chunk * Kmeans.chunkSize + t
      let point ← (sampleOf p).row d
      return residual + calcDistance point (centers.view ((closestCenter d).toNat * dim)) dim) 0

/-- `lloyds_iter`. -/
def lloydsIter (centers : Buffer K) (closestDocs : Option (Buffer (List ℕ)))
    (closestCenter : Option (Buffer UInt32)) : Except Stop (Kmeans.LloydsOut K) := do
  let closestCenter := closestCenter.getD env.heap.ids
  let closestDocs := Kmeans.clearDocs numCenters closestDocs
  let out ← computeClosestCenters env (p.call numCenters centers) ⟨closestCenter, some closestDocs⟩
  let closestDocs := out.invertedIndex.getD closestDocs
  let centers := centers.clear (numCenters * dim)
  let centers ← (List.range numCenters).foldlM (updateCenter env p closestDocs) centers
  let quot ← divide numPoints Kmeans.chunkSize
  let rest ← remainder numPoints Kmeans.chunkSize
  let nchunks := quot + if rest = 0 then 0 else 1
  let residual ← (List.range nchunks).foldlM (fun residual chunk => do
    let sum ← chunkResidual p centers out.ivf chunk
    return residual + sum) 0
  return ⟨centers, closestDocs, out.ivf, residual⟩

variable (envs : ℕ → MathEnv K)

/-- One round of the loop of `run_lloyds`. -/
def lloydsRound (s : Kmeans.LloydsState K) : Except Stop (Kmeans.LloydsState K) := do
  let oldResidual := s.residual
  let out ← lloydsIter (envs s.i) p numCenters s.centers (some s.closestDocs) (some s.closestCenter)
  return {
    i := s.i + 1
    centers := out.centers
    closestDocs := out.closestDocs
    closestCenter := out.closestCenter
    residual := out.residual
    oldResidual
    done := decide ((s.i ≠ 0 ∧ (oldResidual - out.residual) / out.residual < 0.00001) ∨
      out.residual < 1 / (2 ^ 23 : ℕ)) }

/-- `run_lloyds`. -/
def runLloyds (data : Buffer K) (numPoints dim : ℕ) (centers : Buffer K) (numCenters maxReps : ℕ)
    (closestDocs : Option (Buffer (List ℕ))) (closestCenter : Option (Buffer UInt32)) :
    Except Stop (K × Kmeans.LloydsState K) := do
  -- `compute_vecs_l2sq` reads every row
  (List.range numPoints).forM fun n => do
    let _ ← (⟨data, numPoints, dim⟩ : Sample K).row n
  let p := Kmeans.Points.withNorms (envs 0) data numPoints dim
  let s ← whileLoopM (Kmeans.LloydsState.goesOn maxReps) (lloydsRound p numCenters envs) maxReps
    (Kmeans.lloydsStart (envs 0) centers closestDocs closestCenter)
  return (s.residual, s)

end Lloyd

/-! ### The selection of pivots -/

section SelectionProofs

variable {K : Type} [Field K] [LinearOrder K] {seeds : Seeds K} {sample : Sample K}

omit [Field K] [LinearOrder K] in
lemma row_of_lt {i : ℕ} (h : i < sample.numPoints) :
    sample.row i = .ok (sample.data.view (i * sample.dim)) := by
  have hrow : i * sample.dim + sample.dim ≤ sample.numPoints * sample.dim := by
    rw [← Nat.succ_mul]
    exact Nat.mul_le_mul_right _ h
  rw [Sample.row, Sample.read, if_pos hrow]

omit [Field K] [LinearOrder K] in
/-- Without points there are no rows. -/
lemma row_of_empty (hn : sample.numPoints = 0) (hdim : 0 < sample.dim) (i : ℕ) :
    sample.row i = .error .outsideSample := by
  rw [Sample.row, Sample.read, if_neg]
  rw [hn, Nat.zero_mul]
  omega

lemma drawPoint_lt (seeds : Seeds K) (hn : 0 < sample.numPoints) (h64 : sample.numPoints < 2 ^ 64)
    (j : ℕ) : drawPoint seeds sample j < sample.numPoints := by
  have hle := UInt64.le_iff_toNat_le.mp (seeds.int_le (UInt64.ofNat sample.numPoints - 1) j)
  have hnum : (UInt64.ofNat sample.numPoints).toNat = sample.numPoints :=
    UInt64.toNat_ofNat_of_lt' h64
  have hone : 1 ≤ UInt64.ofNat sample.numPoints := by
    rw [UInt64.le_iff_toNat_le, hnum]
    exact hn
  rw [UInt64.toNat_sub_of_le _ _ hone, hnum] at hle
  have htoNat : (1 : UInt64).toNat = 1 := rfl
  rw [drawPoint]
  omega

/-- The draws as those of a selection from `numPoints` points. -/
def Seeds.draws (seeds : Seeds K) (hn : 0 < sample.numPoints) (h64 : sample.numPoints < 2 ^ 64) :
    Kmeans.Draws K sample.numPoints where
  ints j := ⟨drawPoint seeds sample j, drawPoint_lt seeds hn h64 j⟩
  reals := seeds.real

variable (hn : 0 < sample.numPoints) (h64 : sample.numPoints < 2 ^ 64)

lemma pickRow_eq (s : List ℕ × Buffer K) (j : ℕ) :
    pickRow seeds sample s j
      = .ok (Kmeans.pickRow (seeds.draws hn h64) sample.data sample.dim s j) := by
  have hdraw : ((seeds.draws hn h64).ints j).val = drawPoint seeds sample j := rfl
  rw [pickRow, Kmeans.pickRow, hdraw]
  by_cases hmem : drawPoint seeds sample j ∈ s.1
  · rw [if_pos hmem, if_pos hmem]
    rfl
  · rw [if_neg hmem, if_neg hmem, row_of_lt (drawPoint_lt seeds hn h64 j), ok_bind]
    rfl

lemma selectingPivots_eq (pivotData : Buffer K) (numCenters : ℕ) :
    selectingPivots seeds sample pivotData numCenters
      = .ok (Kmeans.selectingPivots
          (seeds.draws hn h64) sample.data sample.dim pivotData numCenters) := by
  rw [selectingPivots, foldlM_eq_foldl (pickRow_eq hn h64), ok_bind]
  rfl

omit [LinearOrder K] in
lemma compareAll_eq (combine : K → K → K) (dist : Buffer K) {pivot : ℕ}
    (hpivot : pivot < sample.numPoints) : compareAll sample combine dist pivot
      = .ok (dist.mapRows sample.numPoints 1 1 0 fun i _ dist => combine dist
          (calcDistance (sample.data.view (i * sample.dim)) (sample.data.view (pivot * sample.dim))
            sample.dim)) := by
  have hloop : ∀ n ≤ sample.numPoints, (List.range n).foldlM (fun dist i => do
        let point ← sample.row i
        let row ← sample.row pivot
        return Function.update dist i (combine (dist i) (calcDistance point row sample.dim))) dist
      = (.ok (dist.mapRows n 1 1 0 fun i _ dist => combine dist (calcDistance
          (sample.data.view (i * sample.dim)) (sample.data.view (pivot * sample.dim)) sample.dim)) :
        Except Stop (Buffer K)) := by
    intro n
    induction n with
    | zero => exact fun _ => rfl
    | succ n ih =>
        intro hle
        rw [List.range_succ, List.foldlM_append, ih (Nat.le_of_succ_le hle), ok_bind,
          List.foldlM_cons, row_of_lt hle, ok_bind, row_of_lt hpivot, ok_bind,
          Buffer.mapRows_succ_entry]
        rfl
  exact hloop _ le_rfl

lemma throwDart_lt_numPoints (dist : Buffer K) (dartVal : K) (tmpPivot : ℕ)
    (hn : 0 < sample.numPoints) :
    Kmeans.throwDart dist dartVal sample.numPoints 0 0 tmpPivot < sample.numPoints := by
  have hlt := Kmeans.throwDart_lt dist dartVal hn 0 0 tmpPivot
  rwa [Nat.zero_add] at hlt

lemma seedRound_eq (s : Kmeans.SeedState K) :
    seedRound seeds sample s
      = .ok (Kmeans.seedRound (seeds.draws hn h64) sample.data sample.dim s) := by
  have hlt := throwDart_lt_numPoints s.dist (seeds.real s.thrown *
    (List.range sample.numPoints).foldl (fun sum i => sum + s.dist i) 0) s.tmpPivot hn
  have hreals : (seeds.draws hn h64).reals = seeds.real := rfl
  rw [seedRound, Kmeans.seedRound, hreals]
  generalize (if (List.range sample.numPoints).foldl (fun sum i => sum + s.dist i) 0 = 0 then true
    else s.sumFlag) = sumFlag
  generalize Kmeans.throwDart s.dist (seeds.real s.thrown *
    (List.range sample.numPoints).foldl (fun sum i => sum + s.dist i) 0) sample.numPoints 0 0
      s.tmpPivot = tmpPivot at hlt ⊢
  by_cases hagain : tmpPivot ∈ s.picked ∧ sumFlag = false
  · rw [if_pos hagain, if_pos hagain]
    rfl
  · rw [if_neg hagain, if_neg hagain, row_of_lt hlt, ok_bind, compareAll_eq _ _ hlt, ok_bind]
    rfl

/-- **With at least one point no check fails**: the selection is the one without checks. -/
theorem kmeanspp_eq (pivotData dist : Buffer K) (tmpPivot numCenters fuel : ℕ) :
    kmeansppSelectingPivots seeds sample pivotData dist tmpPivot numCenters fuel
      = match Kmeans.kmeansppSelectingPivots
        (seeds.draws hn h64) sample.data sample.dim pivotData dist
          tmpPivot numCenters fuel with
        | some pivots => .ok pivots
        | none => .error .unfinished := by
  rw [kmeansppSelectingPivots, Kmeans.kmeansppSelectingPivots]
  by_cases hmany : 2 ^ 23 < sample.numPoints
  · rw [if_pos hmany, if_pos hmany, selectingPivots_eq hn h64]
  · have hinit := drawPoint_lt seeds hn h64 0
    rw [if_neg hmany, if_neg hmany]
    dsimp only
    rw [row_of_lt hinit, ok_bind, compareAll_eq _ _ hinit, ok_bind]
    have hloop : whileLoopM (fun s => decide (s.numPicked < numCenters))
        (seedRound seeds sample) fuel
          (Kmeans.seedStart (seeds.draws hn h64) sample.data sample.dim pivotData dist tmpPivot)
        = .ok (whileLoop (fun s => decide (s.numPicked < numCenters))
          (Kmeans.seedRound (seeds.draws hn h64) sample.data sample.dim) fuel
          (Kmeans.seedStart (seeds.draws hn h64) sample.data sample.dim pivotData dist tmpPivot)) :=
      whileLoopM_eq (fun s _ => seedRound_eq hn h64 s) fuel _
    refine (congrArg (· >>= _) hloop).trans ?_
    rw [ok_bind]
    generalize whileLoop (fun s : Kmeans.SeedState K => decide (s.numPicked < numCenters)) _ fuel _
      = s
    by_cases hlt : s.numPicked < numCenters
    · rw [if_pos hlt, if_pos hlt]
    · rw [if_neg hlt, if_neg hlt]
      rfl

/-- **The selection returns** if there is a point. -/
theorem kmeanspp_ok [IsStrictOrderedRing K] (seeds : Seeds K) (hn : 0 < sample.numPoints)
    (h64 : sample.numPoints < 2 ^ 64) (pivotData dist : Buffer K) (tmpPivot numCenters : ℕ) :
    ∃ pivots, kmeansppSelectingPivots seeds sample pivotData dist tmpPivot numCenters numCenters
      = .ok pivots := by
  obtain ⟨pivots, hpivots⟩ : ∃ pivots, Kmeans.kmeansppSelectingPivots (seeds.draws hn h64)
      sample.data sample.dim pivotData dist tmpPivot numCenters numCenters = some pivots :=
    Kmeans.kmeanspp_total seeds.real_nonneg seeds.real_lt_one pivotData dist tmpPivot numCenters
  rw [kmeanspp_eq hn h64, hpivots]
  exact ⟨pivots, rfl⟩

/-- **Without points the first draw is outside.** -/
theorem kmeanspp_of_empty (seeds : Seeds K) (hn : sample.numPoints = 0) (hdim : 0 < sample.dim)
    (pivotData dist : Buffer K) (tmpPivot numCenters fuel : ℕ) :
    kmeansppSelectingPivots seeds sample pivotData dist tmpPivot numCenters fuel
      = .error .outsideSample := by
  rw [kmeansppSelectingPivots, if_neg (by omega)]
  dsimp only
  rw [row_of_empty hn hdim]
  rfl

end SelectionProofs

/-! ### Lloyd's iterations -/

section LloydProofs

variable {K : Type} [Field K] [LinearOrder K] {numPoints dim numCenters : ℕ} {env : MathEnv K}
  {p : Kmeans.Points K numPoints dim} {centers : Buffer K}

lemma inside_eq_ok_iff {offset count size : ℕ} :
    inside offset count size = .ok () ↔ offset + count ≤ size := by
  rw [inside]
  split_ifs with h
  · exact iff_of_true rfl h
  · exact iff_of_false (by rintro ⟨⟩) h

/-- A loop of checks passes when all of them do. -/
lemma forM_eq_ok_iff {is : List ℕ} {f : ℕ → Except Stop Unit} :
    is.forM f = .ok () ↔ ∀ i ∈ is, f i = .ok () := by
  induction is with
  | nil => exact iff_of_true rfl fun i hi => absurd hi List.not_mem_nil
  | cons i is ih =>
      have hcons : (i :: is).forM f = (f i >>= fun _ => is.forM f) := rfl
      rw [hcons, List.forall_mem_cons, ← ih, bind_eq_ok]
      exact ⟨fun ⟨⟨⟩, hfirst, hrest⟩ => ⟨hfirst, hrest⟩, fun ⟨hfirst, hrest⟩ => ⟨(), hfirst, hrest⟩⟩

lemma forM_ok {is : List ℕ} {f : ℕ → Except Stop Unit} (h : ∀ i ∈ is, f i = .ok ()) :
    is.forM f = .ok () := forM_eq_ok_iff.mpr h

lemma divide_of_pos {x y : ℕ} (hy : 0 < y) : divide x y = .ok (x / y) := if_neg hy.ne'

lemma remainder_of_pos {x y : ℕ} (hy : 0 < y) : remainder x y = .ok (x % y) := if_neg hy.ne'

lemma blocksOf_eq (hn : 0 < numPoints) : blocksOf numPoints = .ok 1 := by
  rw [blocksOf, remainder_of_pos hn, ok_bind, divide_of_pos hn, ok_bind, Nat.mod_self, if_pos rfl,
    Nat.div_self hn]
  rfl

/-- The one block is all points. -/
lemma computeClosestCenters_of_ok {call : CentersCall K} {out out' : CentersOut}
    (hn : 0 < call.numPoints) (h : MathUtils.computeClosestCenters env call out = .ok out') :
    computeClosestCenters env call out = .ok out' := by
  rw [computeClosestCenters]
  by_cases hk : call.numCenters < call.k
  · rw [MathUtils.computeClosestCenters, if_pos hk] at h
    rw [if_pos hk]
    exact congrArg Except.ok (Except.ok.inj h)
  · rw [if_neg hk, blocksOf_eq hn, ok_bind, forM_ok, ok_bind, h]
    · rfl
    · intro curBlk hcur
      have hzero : curBlk = 0 := by simpa using hcur
      rw [hzero, Sample.read, if_pos]
      · rfl
      · dsimp only
        rw [Nat.zero_mul, Nat.zero_mul, Nat.zero_add, Nat.sub_zero, Nat.min_self]

lemma updateCenter_eq {closestDocs : Buffer (List ℕ)} {c : ℕ}
    (hdocs : ∀ d ∈ closestDocs c, d < numPoints) : updateCenter env p closestDocs centers c
      = .ok (Kmeans.updateCenter env p closestDocs centers c) := by
  have hloop : (closestDocs c).foldlM (fun clusterSum d => do
        let current ← (sampleOf p).row d
        return Buffer.addEach clusterSum 0 dim current) (Buffer.clear env.heap.floats dim)
      = (.ok ((closestDocs c).foldl (fun clusterSum d => Buffer.addEach clusterSum 0 dim
          (p.data.view (d * dim))) (Buffer.clear env.heap.floats dim)) :
            Except Stop (Buffer K)) := by
    refine foldlM_eq_foldl_of_inv (P := fun _ => True) (fun d hd s _ => ⟨?_, trivial⟩) trivial
    have hrow : (sampleOf p).row d = .ok (p.data.view (d * dim)) := row_of_lt (hdocs d hd)
    rw [hrow, ok_bind]
    rfl
  rw [updateCenter, hloop, ok_bind, Kmeans.updateCenter]
  split
  · rfl
  · rfl

omit [LinearOrder K] in
lemma chunkResidual_eq (ids : Buffer UInt32) (chunk : ℕ) :
    chunkResidual p centers ids chunk = .ok (Kmeans.chunkResidual p centers ids chunk) := by
  refine foldlM_eq_foldl_of_inv (P := fun _ => True) (fun t ht s _ => ⟨?_, trivial⟩) trivial
  have hlt : chunk * Kmeans.chunkSize + t < numPoints := by
    have := List.mem_range.mp ht
    omega
  have hrow : (sampleOf p).row (chunk * Kmeans.chunkSize + t)
      = .ok (p.data.view ((chunk * Kmeans.chunkSize + t) * dim)) := row_of_lt hlt
  dsimp only
  rw [hrow, ok_bind]
  rfl

/-- **With at least one point no check fails in an iteration.** -/
lemma lloydsIter_eq (env : MathEnv K) (p : Kmeans.Points K numPoints dim) (hn : 0 < numPoints)
    (hcenters : 0 < numCenters) (centers : Buffer K) (closestDocs : Option (Buffer (List ℕ)))
    (closestCenter : Option (Buffer UInt32)) :
    ∃ out, Kmeans.lloydsIter env p numCenters centers closestDocs closestCenter = .ok out ∧
      lloydsIter env p numCenters centers closestDocs closestCenter = .ok out := by
  obtain ⟨ivf, docs, hcall, hdocs⟩ := CentersCall.lt_of_computeClosestCenters env
    (p.call numCenters centers) rfl hn hcenters (closestCenter.getD env.heap.ids)
    (Kmeans.clearDocs numCenters closestDocs)
  have hlt : ∀ c ∈ List.range numCenters, ∀ d ∈ docs c, d < numPoints := by
    intro c hc d hd
    refine (hdocs c d hd).resolve_left fun hmem => ?_
    rw [Kmeans.clearDocs_apply closestDocs (List.mem_range.mp hc)] at hmem
    exact List.not_mem_nil hmem
  rw [Kmeans.lloydsIter]
  dsimp only
  rw [hcall, ok_bind]
  refine ⟨_, rfl, ?_⟩
  have hupdate : ∀ m : Buffer K, (List.range numCenters).foldlM (updateCenter env p docs) m
      = .ok ((List.range numCenters).foldl (Kmeans.updateCenter env p docs) m) := fun m =>
    foldlM_eq_foldl_of_inv (P := fun _ => True)
      (fun c hc s _ => ⟨updateCenter_eq (hlt c hc), trivial⟩) trivial
  have hchunks : ∀ (m : Buffer K) n, (List.range n).foldlM (fun residual chunk => do
        let sum ← chunkResidual p m ivf chunk
        return residual + sum) 0
      = (.ok ((List.range n).foldl (fun residual chunk =>
          residual + Kmeans.chunkResidual p m ivf chunk) 0) : Except Stop K) := fun m n =>
    foldlM_eq_foldl (fun residual chunk => by rw [chunkResidual_eq, ok_bind]; rfl) _ _
  have hsize : 0 < Kmeans.chunkSize := Nat.mul_pos two_pos (by norm_num)
  rw [lloydsIter]
  dsimp only
  rw [computeClosestCenters_of_ok hn hcall, ok_bind]
  dsimp only [Option.getD_some]
  rw [hupdate, ok_bind, divide_of_pos hsize, ok_bind, remainder_of_pos hsize, ok_bind,
    hchunks, ok_bind]
  rfl

/-- **With at least one point no check fails**: the iterations are those without checks. -/
theorem runLloyds_eq (envs : ℕ → MathEnv K) (data : Buffer K) (hn : 0 < numPoints)
    (hcenters : 0 < numCenters) (centers : Buffer K) (maxReps : ℕ)
    (closestDocs : Option (Buffer (List ℕ))) (closestCenter : Option (Buffer UInt32)) :
    ∃ result, Kmeans.runLloyds envs data numPoints dim centers numCenters maxReps closestDocs
        closestCenter = .ok result ∧
      runLloyds envs data numPoints dim centers numCenters maxReps closestDocs closestCenter
        = .ok result := by
  set p := Kmeans.Points.withNorms (envs 0) data numPoints dim with hp
  have hround : ∀ s t : Kmeans.LloydsState K, s = t → s.goesOn maxReps = true →
      ∃ s' t', Kmeans.lloydsRound p numCenters envs s = .ok s' ∧
        lloydsRound p numCenters envs t = .ok t' ∧ s' = t' := by
    rintro s _ rfl -
    obtain ⟨out, hplain, hchecked⟩ := lloydsIter_eq (envs s.i) p hn hcenters s.centers
      (some s.closestDocs) (some s.closestCenter)
    rw [Kmeans.lloydsRound, lloydsRound, hplain, hchecked]
    exact ⟨_, _, rfl, rfl, rfl⟩
  obtain ⟨s, _, hplain, hchecked, rfl⟩ : ∃ s t,
      whileLoopM (Kmeans.LloydsState.goesOn maxReps) (Kmeans.lloydsRound p numCenters envs) maxReps
        (Kmeans.lloydsStart (envs 0) centers closestDocs closestCenter) = .ok s ∧
      whileLoopM (Kmeans.LloydsState.goesOn maxReps) (lloydsRound p numCenters envs) maxReps
        (Kmeans.lloydsStart (envs 0) centers closestDocs closestCenter) = .ok t ∧ s = t :=
    whileLoopM_simulates (fun _ _ heq => by rw [heq]) hround rfl maxReps
  have hrows : (List.range numPoints).forM (fun n => do
      let _ ← (⟨data, numPoints, dim⟩ : Sample K).row n) = (.ok () : Except Stop Unit) :=
    forM_ok fun n hn => by
      rw [row_of_lt (List.mem_range.mp hn)]
      rfl
  refine ⟨(s.residual, s), ?_, ?_⟩
  · rw [Kmeans.runLloyds, ← hp]
    refine (congrArg (· >>= _) hplain).trans ?_
    rfl
  · rw [runLloyds, hrows, ok_bind, ← hp]
    refine (congrArg (· >>= _) hchecked).trans ?_
    rfl

end LloydProofs

end RedAnns.Checked
