import Mathlib.Algebra.BigOperators.Fin
import Mathlib.Algebra.Order.BigOperators.Ring.Finset
import Mathlib.Algebra.Order.Field.Basic
import Mathlib.Tactic

/-!
The distances of `include/distance.h`.

The searches reach a distance through the virtual `compare` only, so they are modelled over
any `Distance δ` with values in a linear order. The three classes of the header are
`distanceL2`, `distanceIP` and `distanceCOS`, over an ordered field in place of `float` and
with a reading `val` of the stored words; `Index.distance` is the choice the constructor of
`Index` makes.

The vectorised loops keep their registers: a register of `n` lanes is a function on `Fin n`,
and the tail of fewer than four coordinates is read through `maskedRead`. `laneSum_eq` says that
the lanes add up to the sum over the coordinates, which makes `distanceL2` the squared distance
(`compare_distanceL2`).
-/

namespace RedAnns

/-- `Distance`: what a subclass puts behind `compare`, on the words of the two vectors. -/
structure Distance (δ : Type*) where
  compare : List UInt32 → List UInt32 → δ

namespace Distance

variable {K : Type*} [Field K]

/-- `_mm512_loadu_ps` and its narrower forms: the first `n` coordinates. -/
def loadu (n : ℕ) (x : List K) : Fin n → K := fun i => x.getD i 0

/-- `masked_read`: the first `d < 4` coordinates, the other lanes zero. -/
def maskedRead (d : ℕ) (x : List K) : Fin 4 → K := fun i => if i.val < d then x.getD i 0 else 0

/-- The lanes that the `switch` of `masked_read` fills, from its `case` on. -/
def maskedLanes : ℕ → List (Fin 4)
  | 3 => [2, 1, 0]
  | 2 => [1, 0]
  | 1 => [0]
  | _ => []

/-- One block: the products of the lanes are added to the register. -/
def accumulate {n : ℕ} (term : K → K → K) (msum mx my : Fin n → K) : Fin n → K :=
  fun i => msum i + term (mx i) (my i)

/-- The loop over blocks of sixteen; it returns what is left of the two vectors. -/
def blocks16 (term : K → K → K) : ℕ → (Fin 16 → K) → List K → List K →
    (Fin 16 → K) × List K × List K
  | 0, msum, x, y => (msum, x, y)
  | fuel + 1, msum, x, y =>
      if 16 ≤ x.length then
        blocks16 term fuel (accumulate term msum (loadu 16 x) (loadu 16 y)) (x.drop 16) (y.drop 16)
      else (msum, x, y)

/-- `_mm512_extractf32x8_ps` twice and the sum: lane `i` with lane `i + n`. -/
def fold {n : ℕ} (msum : Fin (n + n) → K) : Fin n → K :=
  fun i => msum (Fin.natAdd n i) + msum (Fin.castAdd n i)

/-- `_mm_hadd_ps` of a register with itself. -/
def hadd (a : Fin 4 → K) : Fin 4 → K := ![a 0 + a 1, a 2 + a 3, a 0 + a 1, a 2 + a 3]

/-- `_mm_cvtss_f32`: the first lane. -/
def cvtss (a : Fin 4 → K) : K := a 0

/-- The vectorised sum of `term x[i] y[i]` that `DistanceL2` and `DistanceIP` share. -/
def laneSum (term : K → K → K) (x y : List K) : K :=
  let (msum0, x, y) := blocks16 term x.length (fun _ => 0) x y
  let msum1 : Fin 8 → K := fold msum0
  let (msum1, x, y) :=
    if 8 ≤ x.length then
      (accumulate term msum1 (loadu 8 x) (loadu 8 y), x.drop 8, y.drop 8)
    else (msum1, x, y)
  let msum2 : Fin 4 → K := fold msum1
  let (msum2, x, y) :=
    if 4 ≤ x.length then
      (accumulate term msum2 (loadu 4 x) (loadu 4 y), x.drop 4, y.drop 4)
    else (msum2, x, y)
  let msum2 :=
    if 0 < x.length then
      accumulate term msum2 (maskedRead x.length x) (maskedRead x.length y)
    else msum2
  hadd (hadd msum2) 0

/-! ### What the lanes add up to -/

section Sums

variable {term : K → K → K} {x y : List K} {n : ℕ}

/-- The sum over the coordinates of the first vector. -/
def coordSum (term : K → K → K) (x y : List K) : K :=
  ∑ j ∈ Finset.range x.length, term (x.getD j 0) (y.getD j 0)

lemma coordSum_of_length_eq_zero (h : x.length = 0) : coordSum term x y = 0 := by
  rw [coordSum, h, Finset.range_zero, Finset.sum_empty]

/-- A block splits off its lanes. -/
lemma coordSum_block (hn : n ≤ x.length) :
    coordSum term x y = ∑ i, term (loadu n x i) (loadu n y i)
      + coordSum term (x.drop n) (y.drop n) := by
  obtain ⟨m, hm⟩ := Nat.exists_eq_add_of_le hn
  have hdrop : (x.drop n).length = m := by rw [List.length_drop, hm, Nat.add_sub_cancel_left]
  have hget : ∀ (l : List K) j, (l.drop n).getD j 0 = l.getD (n + j) 0 := fun l j => by
    rw [List.getD_eq_getElem?_getD, List.getD_eq_getElem?_getD, List.getElem?_drop]
  calc coordSum term x y
      = ∑ j ∈ Finset.range n, term (x.getD j 0) (y.getD j 0)
        + ∑ j ∈ Finset.range m, term (x.getD (n + j) 0) (y.getD (n + j) 0) := by
        rw [coordSum, hm, Finset.sum_range_add]
    _ = ∑ i, term (loadu n x i) (loadu n y i) + coordSum term (x.drop n) (y.drop n) := by
        rw [← Fin.sum_univ_eq_sum_range, coordSum, hdrop]
        simp only [hget]
        rfl

lemma sum_accumulate (msum mx my : Fin n → K) :
    ∑ i, accumulate term msum mx my i = ∑ i, msum i + ∑ i, term (mx i) (my i) :=
  Finset.sum_add_distrib

variable (term)

/-- A block that is read if there are `n` coordinates left. -/
def readBlock (msum : Fin n → K) (x y : List K) : (Fin n → K) × List K × List K :=
  if n ≤ x.length then (accumulate term msum (loadu n x) (loadu n y), x.drop n, y.drop n)
  else (msum, x, y)

/-- Reading a block moves what it reads into the register. -/
lemma readBlock_spec (msum : Fin n → K) (x y : List K) :
    ∑ i, (readBlock term msum x y).1 i
        + coordSum term (readBlock term msum x y).2.1 (readBlock term msum x y).2.2
      = ∑ i, msum i + coordSum term x y := by
  rw [readBlock]
  split_ifs with h
  · rw [sum_accumulate, coordSum_block h, add_assoc]
  · rfl

lemma length_readBlock (msum : Fin n → K) (x y : List K) (h : x.length < n + n) :
    (readBlock term msum x y).2.1.length < n := by
  rw [readBlock]
  split_ifs with hn
  · rw [List.length_drop]
    omega
  · exact not_le.mp hn

/-- The blocks of sixteen move what they read into the register. -/
lemma blocks16_spec (fuel : ℕ) (msum : Fin 16 → K) (x y : List K) :
    ∑ i, (blocks16 term fuel msum x y).1 i
        + coordSum term (blocks16 term fuel msum x y).2.1 (blocks16 term fuel msum x y).2.2
      = ∑ i, msum i + coordSum term x y := by
  induction fuel generalizing msum x y with
  | zero => rfl
  | succ fuel ih =>
      rw [blocks16]
      split_ifs with h
      · rw [ih, sum_accumulate, coordSum_block h, add_assoc]
      · rfl

lemma length_blocks16 (fuel : ℕ) (msum : Fin 16 → K) (x y : List K) (h : x.length ≤ 16 * fuel) :
    (blocks16 term fuel msum x y).2.1.length < 16 := by
  induction fuel generalizing msum x y with
  | zero =>
      show x.length < 16
      omega
  | succ fuel ih =>
      rw [blocks16]
      split_ifs with hlt
      · exact ih _ _ _ (by rw [List.length_drop]; omega)
      · exact not_le.mp hlt

lemma sum_fold (msum : Fin (n + n) → K) : ∑ i, fold msum i = ∑ i, msum i := by
  rw [Fin.sum_univ_add, add_comm, ← Finset.sum_add_distrib]
  rfl

lemma hadd_hadd (a : Fin 4 → K) : hadd (hadd a) 0 = ∑ i, a i := by
  rw [Fin.sum_univ_four, add_assoc, ← add_assoc]
  simp only [hadd, Matrix.cons_val_zero, Matrix.cons_val_one]
  ring

variable {term}

/-- The masked tail reads what is left. -/
lemma sum_maskedRead (hterm : term 0 0 = 0) (h : x.length ≤ 4) :
    ∑ i, term (maskedRead x.length x i) (maskedRead x.length y i) = coordSum term x y := by
  have hlane : ∀ i : Fin 4, term (maskedRead x.length x i) (maskedRead x.length y i)
      = if i.val < x.length then term (x.getD i 0) (y.getD i 0) else 0 := fun i => by
    rw [maskedRead, maskedRead]
    split_ifs
    · rfl
    · exact hterm
  have hfilter : (Finset.range 4).filter (· < x.length) = Finset.range x.length := by
    ext j
    rw [Finset.mem_filter, Finset.mem_range, Finset.mem_range]
    omega
  calc ∑ i, term (maskedRead x.length x i) (maskedRead x.length y i)
      = ∑ i : Fin 4, if i.val < x.length then term (x.getD i 0) (y.getD i 0) else 0 :=
        Finset.sum_congr rfl fun i _ => hlane i
    _ = ∑ j ∈ Finset.range 4, if j < x.length then term (x.getD j 0) (y.getD j 0) else 0 :=
        Fin.sum_univ_eq_sum_range
          (fun j => if j < x.length then term (x.getD j 0) (y.getD j 0) else 0) 4
    _ = coordSum term x y := by rw [← Finset.sum_filter, hfilter, coordSum]

/-- **The lanes add up to the sum over the coordinates.** -/
theorem laneSum_eq (hterm : term 0 0 = 0) (x y : List K) :
    laneSum term x y = coordSum term x y := by
  set r16 := blocks16 term x.length (fun _ => 0) x y with hr16
  set r8 := readBlock term (fold (n := 8) r16.1) r16.2.1 r16.2.2 with hr8
  set r4 := readBlock term (fold (n := 4) r8.1) r8.2.1 r8.2.2 with hr4
  have h16 : r16.2.1.length < 8 + 8 := length_blocks16 term _ _ x y (by omega)
  have h8 : r8.2.1.length < 4 + 4 := length_readBlock term _ _ _ h16
  have h4 : r4.2.1.length < 4 := length_readBlock term _ _ _ (by omega)
  have htail : laneSum term x y = ∑ i, r4.1 i + coordSum term r4.2.1 r4.2.2 := by
    show hadd (hadd (if 0 < r4.2.1.length then
      accumulate term r4.1 (maskedRead r4.2.1.length r4.2.1) (maskedRead r4.2.1.length r4.2.2)
      else r4.1)) 0 = _
    rw [hadd_hadd]
    split_ifs with h0
    · rw [sum_accumulate, sum_maskedRead hterm h4.le]
    · rw [coordSum_of_length_eq_zero (by omega), add_zero]
  calc laneSum term x y
      = ∑ i, r4.1 i + coordSum term r4.2.1 r4.2.2 := htail
    _ = ∑ i, r8.1 i + coordSum term r8.2.1 r8.2.2 := by rw [hr4, readBlock_spec, sum_fold]
    _ = ∑ i, r16.1 i + coordSum term r16.2.1 r16.2.2 := by rw [hr8, readBlock_spec, sum_fold]
    _ = coordSum term x y := by
        rw [hr16, blocks16_spec, Finset.sum_const_zero, zero_add]

end Sums

/-- The scalar loop of `DistanceCOS`: the sums `dot`, `a2` and `b2`. -/
def cosSums : List K → List K → K × K × K → K × K × K
  | a :: x, b :: y, (dot, a2, b2) => cosSums x y (dot + a * b, a2 + a * a, b2 + b * b)
  | _, _, sums => sums

end Distance

section Metrics

variable {K : Type*} [Field K] (val : UInt32 → K) (sqrt : K → K)

/-- `DistanceL2`. -/
def distanceL2 : Distance K where
  compare x y := Distance.laneSum (fun a b => (a - b) * (a - b)) (x.map val) (y.map val)

/-- **`DistanceL2` is the squared distance.** -/
theorem compare_distanceL2 (x y : List UInt32) :
    (distanceL2 val).compare x y
      = Distance.coordSum (fun a b => (a - b) * (a - b)) (x.map val) (y.map val) :=
  Distance.laneSum_eq (by ring) _ _

/-- `DistanceIP`. -/
def distanceIP : Distance K where
  compare x y := -1 * Distance.laneSum (fun a b => a * b) (x.map val) (y.map val)

/-- `DistanceCOS`. Where the divisor is zero the code has a NaN, and what stands here means nothing
(`Metric.IsNumber`). -/
def distanceCOS : Distance K where
  compare x y :=
    match Distance.cosSums (x.map val) (y.map val) (0, 0, 0) with
    | (dot, a2, b2) => -dot / sqrt (a2 * b2)

/-- The metrics the constructor of `Index` accepts. -/
inductive Metric
  | L2
  | IP
  | COS
  deriving DecidableEq, Repr

/-- The name of a metric, as the parameter `metric` spells it. -/
def Metric.ofString : String → Except String Metric
  | "L2" => .ok .L2
  | "IP" => .ok .IP
  | "COS" => .ok .COS
  | _ => .error "error@Index: metric undefined."

/-- `_distance`, as the constructor of `Index` sets it. -/
def Metric.distance : Metric → Distance K
  | .L2 => distanceL2 val
  | .IP => distanceIP val
  | .COS => distanceCOS val sqrt

/-- The distance of two vectors is a number: the cosine distance does not divide by zero. -/
def Metric.IsNumber : Metric → List UInt32 → List UInt32 → Prop
  | .COS, x, y =>
      match Distance.cosSums (x.map val) (y.map val) (0, 0, 0) with
      | (_, a2, b2) => sqrt (a2 * b2) ≠ 0
  | _, _, _ => True

end Metrics

end RedAnns
