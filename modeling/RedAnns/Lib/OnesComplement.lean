import Mathlib.Data.Nat.ModEq
import Mathlib.Tactic

/-!
One's-complement sums of 16-bit words.

* `endAroundAdd`: a carry out of the top bit comes in again at the bottom; `onesSum` adds up the
  words of some bytes so.
* `byteSum`: the same sum without the carries, from an even or an odd place on.
* `Stands`: the one number from 1 to 65535 that stands for a sum; `onesSum_stands`, `Stands.swap`.
* `byteSum_set_modEq_iff`, `byteSum_pair_modEq_iff`: which changes of one byte, or of two that
  follow each other, leave the sum as it is.
-/

namespace RedAnns

namespace OnesComplement

/-! ### Sums -/

/-- Addition in one's complement. -/
def endAroundAdd (a b : ℕ) : ℕ := if a + b ≤ 65535 then a + b else a + b - 65535

/-- The words of some bytes added to a number, the byte that is left over in the upper half of
one. -/
def onesSum : ℕ → List UInt8 → ℕ
  | acc, [] => acc
  | acc, [b] => endAroundAdd acc (256 * b.toNat)
  | acc, b :: b' :: bs => onesSum (endAroundAdd acc (256 * b.toNat + b'.toNat)) bs

/-- What a byte counts in its word. -/
def weight (odd : Bool) : ℕ := if odd then 1 else 256

/-- The sum of some bytes, the first one at an even or an odd place. -/
def byteSum : Bool → List UInt8 → ℕ
  | _, [] => 0
  | odd, b :: bs => weight odd * b.toNat + byteSum (!odd) bs

/-- The place after some bytes. -/
def placeAfter (odd : Bool) (n : ℕ) : Bool := odd ^^ decide (n % 2 = 1)

variable {odd : Bool} {bs : List UInt8} {r x y : ℕ}

lemma placeAfter_zero : placeAfter odd 0 = odd := by simp [placeAfter]

lemma placeAfter_succ (n : ℕ) : placeAfter (!odd) n = placeAfter odd (n + 1) := by
  rcases Nat.mod_two_eq_zero_or_one n with h | h
  · have h' : (n + 1) % 2 = 1 := by omega
    simp [placeAfter, h, h']
  · have h' : (n + 1) % 2 = 0 := by omega
    simp [placeAfter, h, h']

lemma byteSum_append (odd : Bool) (as bs : List UInt8) :
    byteSum odd (as ++ bs) = byteSum odd as + byteSum (placeAfter odd as.length) bs := by
  induction as generalizing odd with
  | nil => simp [byteSum, placeAfter_zero]
  | cons a as ih =>
      rw [List.cons_append, byteSum, byteSum, ih, List.length_cons, placeAfter_succ, Nat.add_assoc]

lemma byteSum_replicate_zero (odd : Bool) (n : ℕ) : byteSum odd (List.replicate n 0) = 0 := by
  induction n generalizing odd with
  | zero => rfl
  | succ n ih => simp [List.replicate_succ, byteSum, ih]

/-- From the other kind of place on, everything counts 256 times as much. -/
lemma byteSum_not_modEq (odd : Bool) (bs : List UInt8) :
    256 * byteSum odd bs ≡ byteSum (!odd) bs [MOD 65535] := by
  induction bs generalizing odd with
  | nil => rfl
  | cons b bs ih =>
      have hrest := ih !odd
      rw [byteSum, byteSum]
      simp only [Nat.ModEq] at hrest ⊢
      cases odd with
      | false =>
          simp only [weight, Bool.not_false, Bool.false_eq_true, if_true, if_false] at hrest ⊢
          omega
      | true =>
          simp only [weight, Bool.not_true, Bool.false_eq_true, if_true, if_false] at hrest ⊢
          omega

/-! ### Values -/

/-- The number from 1 to 65535 that **stands for** a sum. -/
structure Stands (r x : ℕ) : Prop where
  pos : 0 < r
  le : r ≤ 65535
  modEq : r ≡ x [MOD 65535]

lemma Stands.modEq_iff {r' : ℕ} (h : Stands r x) (h' : Stands r' y) :
    r = r' ↔ x ≡ y [MOD 65535] := by
  have hr := h.modEq
  have hr' := h'.modEq
  have := h.pos
  have := h.le
  have := h'.pos
  have := h'.le
  simp only [Nat.ModEq] at hr hr' ⊢
  omega

lemma Stands.congr (h : Stands r x) (hxy : x ≡ y [MOD 65535]) : Stands r y :=
  ⟨h.pos, h.le, h.modEq.trans hxy⟩

/-- All ones stand for zero. -/
lemma stands_ones : Stands 65535 0 := ⟨by omega, le_rfl, rfl⟩

lemma Stands.endAroundAdd (h : Stands r x) {w : ℕ} (hw : w ≤ 65535) :
    Stands (endAroundAdd r w) (x + w) := by
  have hr := h.modEq
  have := h.pos
  have := h.le
  rw [OnesComplement.endAroundAdd]
  simp only [Nat.ModEq] at hr
  split_ifs with hle
  · exact ⟨by omega, hle, by simp only [Nat.ModEq]; omega⟩
  · exact ⟨by omega, by omega, by simp only [Nat.ModEq]; omega⟩

/-- **A sum with its carries** stands for the one without. -/
lemma Stands.onesSum (h : Stands r x) (bs : List UInt8) :
    Stands (onesSum r bs) (x + byteSum false bs) := by
  induction r, bs using OnesComplement.onesSum.induct generalizing x with
  | case1 acc => exact h
  | case2 acc b =>
      have hb := b.toNat_lt
      exact h.endAroundAdd (by omega)
  | case3 acc b b' bs ih =>
      have hb := b.toNat_lt
      have hb' := b'.toNat_lt
      have hsum : x + byteSum false (b :: b' :: bs)
          = x + (256 * b.toNat + b'.toNat) + byteSum false bs := by
        simp [byteSum, weight, Nat.add_assoc]
      rw [OnesComplement.onesSum, hsum]
      exact ih (h.endAroundAdd (by omega))

/-- The two bytes of a word exchanged. -/
def swapBytes (w : ℕ) : ℕ := 256 * (w % 256) + w / 256

/-- Bytes exchanged in the sum are bytes exchanged in every word. -/
lemma Stands.swap (h : Stands r x) : Stands (swapBytes r) (256 * x) := by
  have hr := h.modEq
  have := h.pos
  have := h.le
  simp only [Nat.ModEq] at hr
  exact ⟨by rw [swapBytes]; omega, by rw [swapBytes]; omega,
    by simp only [Nat.ModEq, swapBytes]; omega⟩

/-! ### Changes -/

lemma weight_mul_lt (odd : Bool) (b : UInt8) : weight odd * b.toNat < 65535 := by
  have hb := b.toNat_lt
  cases odd with
  | false => rw [weight, if_neg Bool.false_ne_true]; omega
  | true => rw [weight, if_pos rfl]; omega

lemma byteSum_set (odd : Bool) {i : ℕ} (hi : i < bs.length) (v : UInt8) :
    byteSum odd (bs.set i v) + weight (placeAfter odd i) * bs[i].toNat
      = byteSum odd bs + weight (placeAfter odd i) * v.toNat := by
  induction bs generalizing odd i with
  | nil => simp at hi
  | cons b bs ih =>
      cases i with
      | zero =>
          rw [List.set_cons_zero, byteSum, byteSum, placeAfter_zero, List.getElem_cons_zero]
          omega
      | succ i =>
          have hrest := ih (!odd) (Nat.lt_of_succ_lt_succ hi)
          rw [placeAfter_succ] at hrest
          rw [List.set_cons_succ, byteSum, byteSum, List.getElem_cons_succ]
          omega

/-- **A change of one byte** changes the sum. -/
lemma byteSum_set_modEq_iff (odd : Bool) {i : ℕ} (hi : i < bs.length) (v : UInt8) :
    byteSum odd (bs.set i v) ≡ byteSum odd bs [MOD 65535] ↔ v = bs[i] := by
  have hset := byteSum_set odd hi v
  have hv := weight_mul_lt (placeAfter odd i) v
  have hb := weight_mul_lt (placeAfter odd i) bs[i]
  have hpos : 0 < weight (placeAfter odd i) := by
    rw [weight]
    split_ifs <;> omega
  have hiff : weight (placeAfter odd i) * v.toNat = weight (placeAfter odd i) * bs[i].toNat
      ↔ v = bs[i] := by
    rw [Nat.mul_right_inj hpos.ne', UInt8.toNat_inj]
  rw [← hiff]
  simp only [Nat.ModEq]
  omega

/-- The word that two bytes make, the first one at a place of this kind. -/
def pairSum (odd : Bool) (b b' : UInt8) : ℕ := weight odd * b.toNat + weight (!odd) * b'.toNat

lemma pairSum_le (odd : Bool) (b b' : UInt8) : pairSum odd b b' ≤ 65535 := by
  have hb := b.toNat_lt
  have hb' := b'.toNat_lt
  cases odd with
  | false => simp [pairSum, weight]; omega
  | true => simp [pairSum, weight]; omega

lemma pairSum_inj {b b' v v' : UInt8} (h : pairSum odd b b' = pairSum odd v v') :
    b = v ∧ b' = v' := by
  have hb := b.toNat_lt
  have hb' := b'.toNat_lt
  have hv := v.toNat_lt
  have hv' := v'.toNat_lt
  rw [← UInt8.toNat_inj, ← UInt8.toNat_inj]
  cases odd with
  | false => simp [pairSum, weight] at h; omega
  | true => simp [pairSum, weight] at h; omega

lemma pairSum_eq_zero_iff (odd : Bool) {b b' : UInt8} : pairSum odd b b' = 0 ↔ b = 0 ∧ b' = 0 := by
  have hzero : pairSum odd 0 0 = 0 := by simp [pairSum]
  refine ⟨fun h => pairSum_inj (h.trans hzero.symm), ?_⟩
  rintro ⟨rfl, rfl⟩
  exact hzero

lemma pairSum_eq_max_iff (odd : Bool) {b b' : UInt8} :
    pairSum odd b b' = 65535 ↔ b = 255 ∧ b' = 255 := by
  have hmax : pairSum odd 255 255 = 65535 := by cases odd <;> rfl
  refine ⟨fun h => pairSum_inj (h.trans hmax.symm), ?_⟩
  rintro ⟨rfl, rfl⟩
  exact hmax

lemma byteSum_pair (odd : Bool) {i : ℕ} (hi : i + 1 < bs.length) (v v' : UInt8) :
    byteSum odd ((bs.set i v).set (i + 1) v') + pairSum (placeAfter odd i) bs[i] bs[i + 1]
      = byteSum odd bs + pairSum (placeAfter odd i) v v' := by
  have hfirst := byteSum_set odd (Nat.lt_of_succ_lt hi) v
  have hi' : i + 1 < (bs.set i v).length := by rwa [List.length_set]
  have hsecond := byteSum_set odd hi' v'
  have hnext : placeAfter odd (i + 1) = !placeAfter odd i := by
    rw [← placeAfter_succ, placeAfter, placeAfter]
    cases odd <;> simp
  rw [List.getElem_set_ne (by omega : i ≠ i + 1), hnext] at hsecond
  rw [pairSum, pairSum]
  omega

/-- **A change of two bytes that follow each other** changes the sum, unless all their bits were
equal and all are flipped. -/
lemma byteSum_pair_modEq_iff (odd : Bool) {i : ℕ} (hi : i + 1 < bs.length) (v v' : UInt8) :
    byteSum odd ((bs.set i v).set (i + 1) v') ≡ byteSum odd bs [MOD 65535] ↔
      (v = bs[i] ∧ v' = bs[i + 1]) ∨ ((bs[i] = 0 ∧ bs[i + 1] = 0) ∧ v = 255 ∧ v' = 255) ∨
        ((bs[i] = 255 ∧ bs[i + 1] = 255) ∧ v = 0 ∧ v' = 0) := by
  have hpair := byteSum_pair odd hi v v'
  set o := placeAfter odd i
  have hold := pairSum_le o bs[i] bs[i + 1]
  have hnew := pairSum_le o v v'
  have hsame : pairSum o v v' = pairSum o bs[i] bs[i + 1] ↔ v = bs[i] ∧ v' = bs[i + 1] := by
    refine ⟨pairSum_inj, ?_⟩
    rintro ⟨hv, hv'⟩
    rw [hv, hv']
  rw [← hsame, ← pairSum_eq_zero_iff o, ← pairSum_eq_zero_iff o, ← pairSum_eq_max_iff o,
    ← pairSum_eq_max_iff o]
  simp only [Nat.ModEq]
  omega

end OnesComplement

end RedAnns
