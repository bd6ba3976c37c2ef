import Mathlib.Order.Defs.LinearOrder
import Mathlib.Tactic

/-!
The first least entry of a row.

* `FirstLeast f n m`: among the first `n` entries, `m` is the first one that is least; there is at
  most one (`FirstLeast.unique`).
* `scanLeast`: the loop that keeps the best entry so far, starting from a bound, for any way of
  writing down an index; `scanLeast_spec_of_exists` says that it finds the first least entry when
  some entry is below the bound, and `scanLeast_of_le` that it finds nothing otherwise.
-/

namespace RedAnns

variable {K : Type*} [LinearOrder K] {ι : Type*}

/-- The first least of the first `n` entries. -/
structure FirstLeast (f : ℕ → K) (n m : ℕ) : Prop where
  lt : m < n
  le : ∀ j < n, f m ≤ f j
  first : ∀ j < m, f m < f j

lemma FirstLeast.unique {f : ℕ → K} {n m m' : ℕ} (h : FirstLeast f n m) (h' : FirstLeast f n m') :
    m = m' := by
  rcases Nat.lt_trichotomy m m' with hlt | heq | hgt
  · exact absurd (h'.first m hlt) (not_lt.mpr (h.le m' h'.lt))
  · exact heq
  · exact absurd (h.first m' hgt) (not_lt.mpr (h'.le m h.lt))

lemma FirstLeast.congr {f g : ℕ → K} {n m : ℕ} (h : FirstLeast f n m) (hfg : ∀ j < n, f j = g j) :
    FirstLeast g n m where
  lt := h.lt
  le := fun j hj => by
    rw [← hfg m h.lt, ← hfg j hj]
    exact h.le j hj
  first := fun j hj => by
    rw [← hfg m h.lt, ← hfg j (hj.trans h.lt)]
    exact h.first j hj

/-- The loop over the entries: the index of the best one so far, and its value. -/
def scanLeast (index : ℕ → ι) (f : ℕ → K) (n : ℕ) (start : ι × K) : ι × K :=
  (List.range n).foldl (fun best j => if f j < best.2 then (index j, f j) else best) start

variable (index : ℕ → ι) {f : ℕ → K} (start : ι × K)

lemma scanLeast_succ (n : ℕ) : scanLeast index f (n + 1) start
    = if f n < (scanLeast index f n start).2 then (index n, f n)
      else scanLeast index f n start := by
  rw [scanLeast, List.range_succ, List.foldl_append]
  rfl

lemma scanLeast_congr {g : ℕ → K} {n : ℕ} (h : ∀ j < n, f j = g j) :
    scanLeast index f n start = scanLeast index g n start := by
  induction n with
  | zero => rfl
  | succ n ih =>
      rw [scanLeast_succ, scanLeast_succ, ih fun j hj => h j (Nat.lt_succ_of_lt hj),
        h n (Nat.lt_succ_self n)]

/-- Without an entry below the bound the scan keeps what it starts from. -/
lemma scanLeast_of_le {n : ℕ} (h : ∀ j < n, start.2 ≤ f j) : scanLeast index f n start = start := by
  induction n with
  | zero => rfl
  | succ n ih =>
      rw [scanLeast_succ, ih fun j hj => h j (Nat.lt_succ_of_lt hj),
        if_neg (not_lt.mpr (h n (Nat.lt_succ_self n)))]

/-- **The scan finds the first least entry** when some entry is below the bound it starts from. -/
lemma scanLeast_spec_of_exists {n : ℕ} (h : ∃ j < n, f j < start.2) :
    ∃ m, FirstLeast f n m ∧ scanLeast index f n start = (index m, f m) := by
  induction n with
  | zero =>
      obtain ⟨j, hj, -⟩ := h
      exact absurd hj (Nat.not_lt_zero j)
  | succ n ih =>
      rw [scanLeast_succ]
      by_cases hbelow : ∃ j < n, f j < start.2
      · obtain ⟨m, hm, hscan⟩ := ih hbelow
        rw [hscan]
        by_cases hlt : f n < f m
        · refine ⟨n, ⟨Nat.lt_succ_self n, fun j hj => ?_, fun j hj => ?_⟩, if_pos hlt⟩
          · rcases eq_or_lt_of_le (Nat.le_of_lt_succ hj) with rfl | hj
            · exact le_rfl
            · exact hlt.le.trans (hm.le j hj)
          · exact hlt.trans_le (hm.le j hj)
        · refine ⟨m, ⟨hm.lt.trans (Nat.lt_succ_self n), fun j hj => ?_, hm.first⟩, if_neg hlt⟩
          rcases eq_or_lt_of_le (Nat.le_of_lt_succ hj) with rfl | hj
          · exact not_lt.mp hlt
          · exact hm.le j hj
      · -- the last entry is the first one below the bound
        have habove : ∀ j < n, start.2 ≤ f j := fun j hj =>
          not_lt.mp fun hlt => hbelow ⟨j, hj, hlt⟩
        obtain ⟨j, hj, hlt⟩ := h
        have hjn : j = n := by
          rcases eq_or_lt_of_le (Nat.le_of_lt_succ hj) with heq | hj
          · exact heq
          · exact absurd ⟨j, hj, hlt⟩ hbelow
        subst hjn
        rw [scanLeast_of_le index start habove]
        refine ⟨j, ⟨Nat.lt_succ_self j, fun i hi => ?_, fun i hi => hlt.trans_le (habove i hi)⟩,
          if_pos hlt⟩
        rcases eq_or_lt_of_le (Nat.le_of_lt_succ hi) with rfl | hi
        · exact le_rfl
        · exact hlt.le.trans (habove i hi)

/-- The same when every entry is below the bound. -/
theorem scanLeast_spec {n : ℕ} (hn : 0 < n) (h : ∀ j < n, f j < start.2) :
    ∃ m, FirstLeast f n m ∧ scanLeast index f n start = (index m, f m) :=
  scanLeast_spec_of_exists index start ⟨0, hn, h 0 hn⟩

/-- The best entry is never above the bound. -/
lemma scanLeast_le (n : ℕ) : (scanLeast index f n start).2 ≤ start.2 := by
  induction n with
  | zero => exact le_rfl
  | succ n ih =>
      rw [scanLeast_succ]
      split
      · rename_i hlt
        exact hlt.le.trans ih
      · exact ih

end RedAnns
