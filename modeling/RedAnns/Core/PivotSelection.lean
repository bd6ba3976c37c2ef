import RedAnns.Core.ClosestCenters
import RedAnns.Lib.Loop

/-!
The choice of the first pivots: `selecting_pivots` and `kmeanspp_selecting_pivots` of
`src/math_utils.cpp`, over every outcome of the random draws.

* `selectingPivots`: one draw a pivot; a repeated draw is skipped together with its row.
* `SeedState`, `throwDart`, `seedRound`, `kmeansppSelectingPivots`: the darts; a repeated draw is
  thrown again.
* `selectingPivots_row`: what stands in a row of the fallback.
* `SeedState.Filled`, `filled_seedRound`: the invariant of the loop of k-means++.
* `SeedState.Measured`, `kmeanspp_total`: as many darts as there are centers are enough.
* `fillsEveryPivot_iff`: the draws for which every row is filled.
-/

namespace RedAnns.Kmeans

/-- An outcome of the random draws: the points that `uniform_int_distribution` draws, and the
numbers that `uniform_real_distribution` draws. -/
structure Draws (K : Type) (numPoints : ℕ) where
  ints : ℕ → Fin numPoints
  reals : ℕ → K

/-! ### The source -/

/-- The variables of the loop of `kmeanspp_selecting_pivots`; `thrown` counts the darts. -/
structure SeedState (K : Type) where
  picked : List ℕ
  pivotData : Buffer K
  dist : Buffer K
  numPicked : ℕ
  sumFlag : Bool
  tmpPivot : ℕ
  thrown : ℕ

section Source

variable {K : Type} [Field K] [LinearOrder K] {numPoints : ℕ} (draws : Draws K numPoints)
  (data : Buffer K) (dim : ℕ)

/-- One round of `selecting_pivots`, with the points picked so far. -/
def pickRow (s : List ℕ × Buffer K) (j : ℕ) : List ℕ × Buffer K :=
  let tmpPivot := (draws.ints j).val
  if tmpPivot ∈ s.1 then s
  else (s.1 ++ [tmpPivot], s.2.copy (j * dim) dim (data.view (tmpPivot * dim)))

/-- `selecting_pivots`. -/
def selectingPivots (pivotData : Buffer K) (numCenters : ℕ) : Buffer K :=
  ((List.range numCenters).foldl (pickRow draws data dim) ([], pivotData)).2

/-- The loop that looks for the point a dart hits, over `n` points from `i` on. -/
def throwDart (dist : Buffer K) (dartVal : K) : (n i : ℕ) → (prefixSum : K) → (tmpPivot : ℕ) → ℕ
  | 0, _, _, tmpPivot => tmpPivot
  | n + 1, i, prefixSum, _ =>
      if prefixSum ≤ dartVal ∧ dartVal < prefixSum + dist i then i
      else throwDart dist dartVal n (i + 1) (prefixSum + dist i) i

/-- One round of the loop of `kmeanspp_selecting_pivots`. -/
def seedRound (s : SeedState K) : SeedState K :=
  let sum := (List.range numPoints).foldl (fun sum i => sum + s.dist i) 0
  let sumFlag := if sum = 0 then true else s.sumFlag
  let dartVal := draws.reals s.thrown * sum
  let tmpPivot := throwDart s.dist dartVal numPoints 0 0 s.tmpPivot
  if tmpPivot ∈ s.picked ∧ sumFlag = false then
    { s with sumFlag, tmpPivot, thrown := s.thrown + 1 }
  else
    { picked := s.picked ++ [tmpPivot]
      pivotData := s.pivotData.copy (s.numPicked * dim) dim (data.view (tmpPivot * dim))
      dist := s.dist.mapRows numPoints 1 1 0 fun i _ dist =>
        min dist (calcDistance (data.view (i * dim)) (data.view (tmpPivot * dim)) dim)
      numPicked := s.numPicked + 1
      sumFlag, tmpPivot
      thrown := s.thrown + 1 }

/-- The state before the loop; `dist` and `tmpPivot` are what the memory holds. -/
def seedStart (pivotData dist : Buffer K) (tmpPivot : ℕ) : SeedState K :=
  let initId := (draws.ints 0).val
  { picked := [initId]
    pivotData := pivotData.copy 0 dim (data.view (initId * dim))
    dist := dist.mapRows numPoints 1 1 0 fun i _ _ =>
      calcDistance (data.view (i * dim)) (data.view (initId * dim)) dim
    numPicked := 1
    sumFlag := false
    tmpPivot
    thrown := 0 }

/-- `kmeanspp_selecting_pivots`, with at most `fuel` darts: the pivots, if it returns. -/
def kmeansppSelectingPivots (pivotData dist : Buffer K) (tmpPivot numCenters fuel : ℕ) :
    Option (Buffer K) :=
  if 2 ^ 23 < numPoints then some (selectingPivots draws data dim pivotData numCenters)
  else
    let s := whileLoop (fun s => decide (s.numPicked < numCenters)) (seedRound draws data dim) fuel
      (seedStart draws data dim pivotData dist tmpPivot)
    if s.numPicked < numCenters then none else some s.pivotData

end Source

/-! ### The fallback -/

section Fallback

variable {K : Type} {numPoints : ℕ} (draws : Draws K numPoints)
  (data pivotData : Buffer K) {dim numCenters j d : ℕ}

/-- The draw `j` repeats none before it. -/
def Fresh (j : ℕ) : Prop := ∀ i < j, draws.ints i ≠ draws.ints j

instance : Decidable (Fresh draws j) :=
  inferInstanceAs (Decidable (∀ i < j, draws.ints i ≠ draws.ints j))

/-- The rounds of `selecting_pivots`: the picked points are those drawn so far, and a row is written
in its own round if the draw is fresh. -/
lemma foldl_pickRow (m : ℕ) :
    (∀ x, x ∈ ((List.range m).foldl (pickRow draws data dim) ([], pivotData)).1 ↔
      ∃ i < m, (draws.ints i).val = x) ∧
    ∀ j d, d < dim →
      ((List.range m).foldl (pickRow draws data dim) ([], pivotData)).2 (j * dim + d)
        = if j < m ∧ Fresh draws j then data ((draws.ints j).val * dim + d)
          else pivotData (j * dim + d) := by
  induction m with
  | zero =>
      refine ⟨fun x => ⟨fun h => absurd h List.not_mem_nil, fun ⟨i, hi, _⟩ => absurd hi (by omega)⟩,
        fun j d _ => ?_⟩
      rw [if_neg fun h => absurd h.1 (Nat.not_lt_zero j)]
      rfl
  | succ m ih =>
      obtain ⟨hmem, hrow⟩ := ih
      set s := (List.range m).foldl (pickRow draws data dim) ([], pivotData) with hs
      rw [List.range_succ, List.foldl_concat, ← hs]
      by_cases hdraw : (draws.ints m).val ∈ s.1
      · -- the round is skipped
        obtain ⟨i, hi, heq⟩ := (hmem _).mp hdraw
        have hstale : ¬ Fresh draws m := fun hfresh => hfresh i hi (Fin.ext heq)
        rw [pickRow, if_pos hdraw]
        refine ⟨fun x => ?_, fun j d hd => ?_⟩
        · rw [hmem]
          constructor
          · rintro ⟨k, hk, hx⟩
            exact ⟨k, by omega, hx⟩
          · rintro ⟨k, hk, hx⟩
            rcases eq_or_lt_of_le (Nat.le_of_lt_succ hk) with rfl | hk
            · exact ⟨i, hi, heq.trans hx⟩
            · exact ⟨k, hk, hx⟩
        · rw [hrow j d hd]
          refine if_congr ⟨fun h => ⟨by omega, h.2⟩, fun h => ⟨?_, h.2⟩⟩ rfl rfl
          rcases eq_or_lt_of_le (Nat.le_of_lt_succ h.1) with rfl | hlt
          · exact absurd h.2 hstale
          · exact hlt
      · have hfresh : Fresh draws m := fun i hi heq =>
          hdraw ((hmem _).mpr ⟨i, hi, congrArg Fin.val heq⟩)
        rw [pickRow, if_neg hdraw]
        refine ⟨fun x => ?_, fun j d hd => ?_⟩
        · rw [List.mem_append, hmem, List.mem_singleton]
          constructor
          · rintro (⟨k, hk, hx⟩ | hx)
            · exact ⟨k, by omega, hx⟩
            · exact ⟨m, by omega, hx.symm⟩
          · rintro ⟨k, hk, hx⟩
            rcases eq_or_lt_of_le (Nat.le_of_lt_succ hk) with rfl | hk
            · exact Or.inr hx.symm
            · exact Or.inl ⟨k, hk, hx⟩
        · dsimp only
          rw [Buffer.copy_row hd, hrow j d hd]
          by_cases hjm : j = m
          · subst hjm
            rw [if_pos rfl, if_pos ⟨by omega, hfresh⟩]
            rfl
          · rw [if_neg hjm]
            exact if_congr (and_congr_left' (by omega)) rfl rfl

/-- **A row of the fallback** is filled if its draw is fresh, and otherwise left as it was. -/
lemma selectingPivots_row (hj : j < numCenters) (hd : d < dim) :
    selectingPivots draws data dim pivotData numCenters (j * dim + d)
      = if Fresh draws j then data ((draws.ints j).val * dim + d)
        else pivotData (j * dim + d) := by
  rw [selectingPivots, (foldl_pickRow draws data pivotData numCenters).2 j d hd]
  exact if_congr (and_iff_right hj) rfl rfl

end Fallback

/-! ### The darts -/

section Darts

variable {K : Type} [Field K] [LinearOrder K] {numPoints : ℕ} {draws : Draws K numPoints}
  {data : Buffer K} {dim : ℕ} {s : SeedState K}

/-- A dart hits one of the points. -/
lemma throwDart_lt (dist : Buffer K) (dartVal : K) {n : ℕ} (hn : 0 < n) (i : ℕ) (prefixSum : K)
    (tmpPivot : ℕ) : throwDart dist dartVal n i prefixSum tmpPivot < i + n := by
  induction n generalizing i prefixSum tmpPivot with
  | zero => exact absurd hn (lt_irrefl 0)
  | succ n ih =>
      rw [throwDart]
      split_ifs
      · omega
      · rcases Nat.eq_zero_or_pos n with rfl | hpos
        · rw [throwDart]
          omega
        · have hrest := ih hpos (i + 1) (prefixSum + dist i) i
          omega

/-- The rows below the counter are filled with copies of data rows. -/
def SeedState.Filled (data : Buffer K) (numPoints dim : ℕ) (s : SeedState K) : Prop :=
  ∀ j < s.numPicked, ∃ p < numPoints, ∀ d < dim, s.pivotData (j * dim + d) = data (p * dim + d)

omit [Field K] [LinearOrder K] in
/-- A row more. -/
lemma filled_copy (data rows : Buffer K) (dim : ℕ) {n p : ℕ} (hp : p < numPoints)
    (h : ∀ j < n, ∃ p < numPoints, ∀ d < dim, rows (j * dim + d) = data (p * dim + d)) :
    ∀ j < n + 1, ∃ q < numPoints, ∀ d < dim,
      rows.copy (n * dim) dim (data.view (p * dim)) (j * dim + d) = data (q * dim + d) := by
  intro j hj
  rcases eq_or_lt_of_le (Nat.le_of_lt_succ hj) with rfl | hlt
  · refine ⟨p, hp, fun d hd => ?_⟩
    rw [Buffer.copy_row hd, if_pos rfl]
    rfl
  · obtain ⟨q, hq, hrow⟩ := h j hlt
    refine ⟨q, hq, fun d hd => ?_⟩
    rw [Buffer.copy_row hd, if_neg hlt.ne, hrow d hd]

omit [LinearOrder K] in
lemma filled_seedStart (pivotData dist : Buffer K) (tmpPivot : ℕ) :
    (seedStart draws data dim pivotData dist tmpPivot).Filled data numPoints dim := by
  have h := filled_copy data pivotData dim (n := 0) (draws.ints 0).isLt fun j hj =>
    absurd hj (Nat.not_lt_zero j)
  rw [Nat.zero_mul] at h
  exact h

/-- **A round fills the next row, or none**: it moves the counter only if it fills a row. -/
lemma filled_seedRound (h : s.Filled data numPoints dim) :
    (seedRound draws data dim s).Filled data numPoints dim := by
  have hlt : ∀ dartVal, throwDart s.dist dartVal numPoints 0 0 s.tmpPivot < numPoints := by
    intro dartVal
    have hhit := throwDart_lt s.dist dartVal (draws.ints 0).pos 0 0 s.tmpPivot
    rwa [Nat.zero_add] at hhit
  rw [seedRound]
  split <;> split
  · exact h
  · exact filled_copy data s.pivotData dim (hlt _) h
  · exact h
  · exact filled_copy data s.pivotData dim (hlt _) h

/-- If k-means++ returns, it has filled every row. -/
lemma filled_of_kmeanspp (hn : numPoints ≤ 2 ^ 23) {pivotData dist result : Buffer K}
    {tmpPivot numCenters fuel : ℕ}
    (h : kmeansppSelectingPivots draws data dim pivotData dist tmpPivot numCenters fuel
        = some result) :
    ∀ j < numCenters, ∃ p < numPoints, ∀ d < dim, result (j * dim + d) = data (p * dim + d) := by
  rw [kmeansppSelectingPivots, if_neg (by omega)] at h
  have hfilled : (whileLoop (fun s => decide (s.numPicked < numCenters)) (seedRound draws data dim)
      fuel (seedStart draws data dim pivotData dist tmpPivot)).Filled data numPoints dim :=
    whileLoop_invariant (I := SeedState.Filled data numPoints dim)
      (fun s hs _ => filled_seedRound hs) (filled_seedStart pivotData dist tmpPivot) fuel
  dsimp only at h
  split at h
  · exact absurd h (by simp)
  · rename_i hdone
    rw [← Option.some.inj h]
    exact fun j hj => hfilled j (by omega)

end Darts

/-! ### Enough darts -/

section Termination

variable {K : Type} [Field K] [LinearOrder K] [IsStrictOrderedRing K] {numPoints : ℕ}
  {draws : Draws K numPoints} {data : Buffer K} {dim : ℕ} {s : SeedState K}

omit [IsStrictOrderedRing K] in
/-- A dart below the sum of the distances hits a point away from all pivots. -/
lemma throwDart_pos [IsOrderedAddMonoid K] {dist : Buffer K} {dartVal : K} {n i : ℕ} {prefixSum : K}
    (hlow : prefixSum ≤ dartVal)
    (hhigh : dartVal < prefixSum + ∑ a ∈ Finset.range n, dist (i + a)) (tmpPivot : ℕ) :
    0 < dist (throwDart dist dartVal n i prefixSum tmpPivot) := by
  induction n generalizing i prefixSum tmpPivot with
  | zero =>
      rw [Finset.range_zero, Finset.sum_empty, add_zero] at hhigh
      exact absurd hlow (not_le.mpr hhigh)
  | succ n ih =>
      rw [throwDart]
      by_cases hhit : prefixSum ≤ dartVal ∧ dartVal < prefixSum + dist i
      · rw [if_pos hhit]
        exact pos_of_lt_add_right (hhit.1.trans_lt hhit.2)
      · rw [if_neg hhit]
        refine ih (not_lt.mp fun hlt => hhit ⟨hlow, hlt⟩) ?_ i
        rw [Finset.sum_range_succ', Nat.add_zero] at hhigh
        have hshift : ∀ a ∈ Finset.range n, dist (i + (a + 1)) = dist (i + 1 + a) := fun a _ => by
          rw [Nat.add_comm a 1, Nat.add_assoc]
        rwa [Finset.sum_congr rfl hshift, add_comm (Finset.sum _ _), ← add_assoc] at hhigh

/-- The distances are those to the nearest pivot, as far as they matter: none is negative, and those
of the pivots are zero. -/
structure SeedState.Measured (numPoints : ℕ) (s : SeedState K) : Prop where
  nonneg : ∀ i < numPoints, 0 ≤ s.dist i
  picked : ∀ i ∈ s.picked, i < numPoints → s.dist i = 0

lemma calcDistance_nonneg (data : Buffer K) (dim i j : ℕ) :
    0 ≤ calcDistance (data.view (i * dim)) (data.view (j * dim)) dim := by
  rw [calcDistance_eq, sqDist]
  exact Finset.sum_nonneg fun l _ => sq_nonneg _

omit [LinearOrder K] [IsStrictOrderedRing K] in
lemma calcDistance_self (data : Buffer K) (dim i : ℕ) :
    calcDistance (data.view (i * dim)) (data.view (i * dim)) dim = 0 := by
  rw [calcDistance_eq, sqDist]
  refine Finset.sum_eq_zero fun l _ => ?_
  rw [sub_self, zero_pow two_ne_zero]

lemma measured_seedStart (pivotData dist : Buffer K) (tmpPivot : ℕ) :
    (seedStart draws data dim pivotData dist tmpPivot).Measured numPoints := by
  have hentry : ∀ i < numPoints, (seedStart draws data dim pivotData dist tmpPivot).dist i
      = calcDistance (data.view (i * dim)) (data.view ((draws.ints 0).val * dim)) dim :=
    fun i hi => by
      rw [seedStart]
      dsimp only
      rw [Buffer.mapRows_entry hi]
  refine ⟨fun i hi => ?_, fun i hi hlt => ?_⟩
  · rw [hentry i hi]
    exact calcDistance_nonneg ..
  · obtain rfl := List.mem_singleton.mp hi
    rw [hentry _ hlt, calcDistance_self]

/-- **A dart picks a point**: if it hits a pivot, then all points are where pivots are, and a pivot
is picked again. -/
lemma measured_seedRound (hnonneg : ∀ j, 0 ≤ draws.reals j) (hlt : ∀ j, draws.reals j < 1)
    (h : s.Measured numPoints) : (seedRound draws data dim s).Measured numPoints ∧
      (seedRound draws data dim s).numPicked = s.numPicked + 1 := by
  have hsum : (List.range numPoints).foldl (fun sum i => sum + s.dist i) 0
      = ∑ i ∈ Finset.range numPoints, s.dist i := by
    rw [foldl_add, zero_add]
    rfl
  set sum := (List.range numPoints).foldl (fun sum i => sum + s.dist i) 0 with hdef
  have hagain : ¬ (throwDart s.dist (draws.reals s.thrown * sum) numPoints 0 0 s.tmpPivot
      ∈ s.picked ∧ (if sum = 0 then true else s.sumFlag) = false) := by
    rintro ⟨hmem, hflag⟩
    have hne : sum ≠ 0 := fun heq => by rw [if_pos heq] at hflag; exact absurd hflag (by simp)
    have hpos : 0 < sum := by
      refine lt_of_le_of_ne ?_ hne.symm
      rw [hsum]
      exact Finset.sum_nonneg fun i hi => h.nonneg i (Finset.mem_range.mp hi)
    have hhit :
        0 < s.dist (throwDart s.dist (draws.reals s.thrown * sum) numPoints 0 0 s.tmpPivot) := by
      refine throwDart_pos (mul_nonneg (hnonneg s.thrown) hpos.le) ?_ s.tmpPivot
      simp only [zero_add, ← hsum]
      exact mul_lt_of_lt_one_left hpos (hlt s.thrown)
    have hpoint :=
      throwDart_lt s.dist (draws.reals s.thrown * sum) (draws.ints 0).pos 0 0 s.tmpPivot
    rw [Nat.zero_add] at hpoint
    exact hhit.ne' (h.picked _ hmem hpoint)
  rw [seedRound, ← hdef, if_neg hagain]
  refine ⟨⟨fun i hi => ?_, fun i hi hpoint => ?_⟩, rfl⟩
  · dsimp only
    rw [Buffer.mapRows_entry hi]
    exact le_min (h.nonneg i hi) (calcDistance_nonneg ..)
  · dsimp only at hi ⊢
    rw [Buffer.mapRows_entry hpoint]
    rcases List.mem_append.mp hi with hi | hi
    · rw [h.picked i hi hpoint]
      exact min_eq_left (calcDistance_nonneg ..)
    · rw [List.mem_singleton.mp hi, calcDistance_self]
      exact min_eq_right (h.nonneg _ (List.mem_singleton.mp hi ▸ hpoint))

/-- **As many darts as there are centers are enough.** -/
theorem kmeanspp_total (hnonneg : ∀ j, 0 ≤ draws.reals j) (hlt : ∀ j, draws.reals j < 1)
    (pivotData dist : Buffer K) (tmpPivot numCenters : ℕ) :
    ∃ result, kmeansppSelectingPivots draws data dim pivotData dist tmpPivot numCenters numCenters
      = some result := by
  rw [kmeansppSelectingPivots]
  split
  · exact ⟨_, rfl⟩
  · have hstep : ∀ s, s.Measured numPoints → decide (s.numPicked < numCenters) = true →
        (seedRound draws data dim s).Measured numPoints ∧
          numCenters - (seedRound draws data dim s).numPicked < numCenters - s.numPicked := by
      intro s hs hcond
      obtain ⟨hmeasured, hpicked⟩ := measured_seedRound hnonneg hlt hs
      have hmore := of_decide_eq_true hcond
      refine ⟨hmeasured, ?_⟩
      rw [hpicked]
      omega
    have hexit : decide ((whileLoop (fun s => decide (s.numPicked < numCenters))
        (seedRound draws data dim) numCenters
        (seedStart draws data dim pivotData dist tmpPivot)).numPicked < numCenters) = false :=
      whileLoop_exits (fun s => numCenters - s.numPicked) hstep
        (measured_seedStart pivotData dist tmpPivot) (Nat.sub_le _ _)
    dsimp only
    rw [if_neg (of_decide_eq_false hexit)]
    exact ⟨_, rfl⟩

end Termination

/-! ### Every row -/

section Main

variable {K : Type} [Field K] [LinearOrder K] {numPoints : ℕ} (draws : Draws K numPoints)
  (data : Buffer K) (dim numCenters : ℕ)

/-- Whenever the selection returns, whatever the memory held before, every row is a copy of a data
row. -/
def FillsEveryPivot : Prop :=
  ∀ (pivotData dist : Buffer K) (tmpPivot fuel : ℕ) (result : Buffer K),
    kmeansppSelectingPivots draws data dim pivotData dist tmpPivot numCenters fuel = some result →
    ∀ j < numCenters, ∃ p < numPoints, ∀ d < dim, result (j * dim + d) = data (p * dim + d)

variable {draws data dim numCenters}

/-- A repeated draw of the fallback leaves a row as the memory was. -/
lemma not_fillsEveryPivot [IsStrictOrderedRing K] (hn : 2 ^ 23 < numPoints) (hdim : 0 < dim) {j : ℕ}
    (hj : j < numCenters) (hstale : ¬ Fresh draws j) :
    ¬ FillsEveryPivot draws data dim numCenters := by
  intro h
  -- a number that no data row has
  obtain ⟨x, hx⟩ := Infinite.exists_notMem_finset ((Finset.range (numPoints * dim)).image data)
  obtain ⟨p, hp, hrow⟩ := h (fun _ => x) (fun _ => 0) 0 0 _ (if_pos hn) j hj
  have hentry := hrow 0 hdim
  rw [selectingPivots_row draws data _ hj hdim, if_neg hstale] at hentry
  have hlt : p * dim + 0 < numPoints * dim := by
    rw [Nat.add_zero]
    exact Nat.mul_lt_mul_of_pos_right hp hdim
  exact hx (Finset.mem_image.mpr ⟨p * dim + 0, Finset.mem_range.mpr hlt, hentry.symm⟩)

/-- **When every pivot is filled**: on the path of k-means++ always; on the other one if the draws
do not repeat. -/
theorem fillsEveryPivot_iff [IsStrictOrderedRing K] :
    FillsEveryPivot draws data dim numCenters ↔ numPoints ≤ 2 ^ 23 ∨ dim = 0 ∨
      ∀ i j, i < j → j < numCenters → draws.ints i ≠ draws.ints j := by
  constructor
  · intro h
    by_contra hnot
    rw [not_or, not_or] at hnot
    obtain ⟨hn, hdim, hrepeated⟩ := hnot
    refine hrepeated fun i j hij hj heq => ?_
    exact not_fillsEveryPivot (by omega) (Nat.pos_of_ne_zero hdim) hj
      (fun hfresh => hfresh i hij heq) h
  · intro hcond pivotData dist tmpPivot fuel result hresult
    by_cases hn : numPoints ≤ 2 ^ 23
    · exact filled_of_kmeanspp hn hresult
    · rw [kmeansppSelectingPivots, if_pos (by omega)] at hresult
      rw [← Option.some.inj hresult]
      intro j hj
      refine ⟨(draws.ints j).val, (draws.ints j).isLt, fun d hd => ?_⟩
      rcases hcond with hle | hdim | hdistinct
      · exact absurd hle hn
      · omega
      · have hfresh : Fresh draws j := fun i hi => hdistinct i j hi hj
        rw [selectingPivots_row draws data pivotData hj hd, if_pos hfresh]

theorem fillsEveryPivot_iff_onePoint :
    FillsEveryPivot (⟨fun _ => 0, fun _ => 0⟩ : Draws ℚ 1) (fun _ => 7) 1 3 :=
  fillsEveryPivot_iff.mpr (Or.inl (by norm_num))

/-- All draws are the first one of `2^23 + 1` points. -/
theorem not_fillsEveryPivot_repeated :
    ¬ FillsEveryPivot (⟨fun _ => ⟨0, Nat.succ_pos _⟩, fun _ => 0⟩ : Draws ℚ (2 ^ 23 + 1))
      (fun _ => 0) 1 2 :=
  not_fillsEveryPivot (j := 1) (Nat.lt_succ_self _) Nat.one_pos one_lt_two
    fun hfresh => hfresh 0 Nat.one_pos rfl

end Main

end RedAnns.Kmeans
