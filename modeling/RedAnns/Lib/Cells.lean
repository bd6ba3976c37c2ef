import Mathlib.Algebra.BigOperators.Group.List.Basic
import Mathlib.Tactic

/-!
Memory laid out as arrays, one behind the other, each of cells of one size.

* `Cells`: an array of `count` cells of `size` bytes; `cellOffset l a k` is where the `k`-th cell of
  the `a`-th array of a layout `l` begins.
* `cellOffset_add_le`: a cell lies within the bytes of the layout.
* `cells_apart`: two different cells do not overlap.
-/

namespace RedAnns

/-- An array of cells of one size. -/
structure Cells where
  count : ℕ
  size : ℕ

/-- The bytes of an array. -/
def Cells.bytes (c : Cells) : ℕ := c.size * c.count

/-- The bytes of a layout. -/
def totalBytes (l : List Cells) : ℕ := (l.map Cells.bytes).sum

/-- Where a cell begins. -/
def cellOffset (l : List Cells) (a : Fin l.length) (k : ℕ) : ℕ :=
  totalBytes (l.take a) + (l.get a).size * k

/-- Two ranges of bytes, each given by its begin and its length, do not overlap. -/
def Separate (p n q m : ℕ) : Prop := p + n ≤ q ∨ q + m ≤ p

lemma Separate.symm {p n q m : ℕ} (h : Separate p n q m) : Separate q m p n := Or.symm h

/-- Parts of ranges that do not overlap do not overlap. -/
lemma Separate.sub {p n q m p' n' q' m' : ℕ} (h : Separate p n q m) (hp : p ≤ p')
    (hn : p' + n' ≤ p + n) (hq : q ≤ q') (hm : q' + m' ≤ q + m) : Separate p' n' q' m' := by
  rcases h with h | h
  · exact Or.inl (by omega)
  · exact Or.inr (by omega)

lemma Separate.add_left {p n q m : ℕ} (h : Separate p n q m) (d : ℕ) :
    Separate (d + p) n (d + q) m := by
  rcases h with h | h
  · exact Or.inl (by omega)
  · exact Or.inr (by omega)

lemma totalBytes_append (l l' : List Cells) :
    totalBytes (l ++ l') = totalBytes l + totalBytes l' := by
  rw [totalBytes, List.map_append, List.sum_append]
  rfl

lemma totalBytes_take_succ {l : List Cells} (a : Fin l.length) :
    totalBytes (l.take (a + 1)) = totalBytes (l.take a) + (l.get a).bytes := by
  rw [List.take_succ_eq_append_getElem a.isLt, totalBytes_append]
  simp [totalBytes]

lemma totalBytes_take_le (l : List Cells) {i j : ℕ} (h : i ≤ j) :
    totalBytes (l.take i) ≤ totalBytes (l.take j) := by
  obtain ⟨k, rfl⟩ := Nat.exists_eq_add_of_le h
  rw [List.take_add, totalBytes_append]
  exact Nat.le_add_right _ _

variable {l : List Cells} {a a' : Fin l.length} {k k' : ℕ}

/-- A cell ends within its array. -/
lemma cellOffset_add_le_take (hk : k < (l.get a).count) :
    cellOffset l a k + (l.get a).size ≤ totalBytes (l.take (a + 1)) := by
  rw [totalBytes_take_succ, cellOffset, Cells.bytes, Nat.add_assoc, ← Nat.mul_succ]
  exact Nat.add_le_add_left (Nat.mul_le_mul_left _ hk) _

/-- **A cell lies within the layout.** -/
lemma cellOffset_add_le (hk : k < (l.get a).count) :
    cellOffset l a k + (l.get a).size ≤ totalBytes l := by
  refine (cellOffset_add_le_take hk).trans ?_
  conv_rhs => rw [← List.take_length (l := l)]
  exact totalBytes_take_le l a.isLt

/-- A cell of an earlier array, or an earlier cell of the same one, ends before the other begins. -/
lemma cellOffset_add_le_cellOffset (hk : k < (l.get a).count) (h : a < a' ∨ a = a' ∧ k < k') :
    cellOffset l a k + (l.get a).size ≤ cellOffset l a' k' := by
  rcases h with h | ⟨rfl, h⟩
  · exact (cellOffset_add_le_take hk).trans
      ((totalBytes_take_le l h).trans (Nat.le_add_right _ _))
  · rw [cellOffset, cellOffset, Nat.add_assoc, ← Nat.mul_succ]
    exact Nat.add_le_add_left (Nat.mul_le_mul_left _ h) _

/-- **Two different cells do not overlap.** -/
lemma cells_apart (hk : k < (l.get a).count) (hk' : k' < (l.get a').count)
    (h : (a, k) ≠ (a', k')) :
    Separate (cellOffset l a k) (l.get a).size (cellOffset l a' k') (l.get a').size := by
  rcases lt_trichotomy a a' with hlt | rfl | hgt
  · exact Or.inl (cellOffset_add_le_cellOffset hk (Or.inl hlt))
  · rcases Nat.lt_trichotomy k k' with hlt | rfl | hgt
    · exact Or.inl (cellOffset_add_le_cellOffset hk (Or.inr ⟨rfl, hlt⟩))
    · exact absurd rfl h
    · exact Or.inr (cellOffset_add_le_cellOffset hk' (Or.inr ⟨rfl, hgt⟩))
  · exact Or.inr (cellOffset_add_le_cellOffset hk' (Or.inl hgt))

end RedAnns
