import Mathlib.Algebra.BigOperators.Group.Finset.Basic
import Mathlib.Data.Fintype.BigOperators
import Mathlib.Tactic

/-!
Counting over a finite family.

`tally F g` adds up what `F` makes of every member of a family `g`. A family that changes at one
index changes its tally by what `F` makes of that member (`tally_update`, `tally_slice_update`), so
that a protocol whose steps move one item from one member to another keeps a sum of tallies.
The members of a list that are sorted into finitely many classes add up to its length
(`sum_countP`).
-/

namespace RedAnns

variable {ι α : Type*} [Fintype ι]

/-- What `F` makes of the members of a family, added up. -/
def tally (F : ι → α → ℕ) (g : ι → α) : ℕ := ∑ i, F i (g i)

variable {F : ι → α → ℕ} {g : ι → α}

/-- **A change at one index** replaces one summand. -/
lemma tally_update [DecidableEq ι] (F : ι → α → ℕ) (g : ι → α) (i : ι) (a : α) :
    tally F (Function.update g i a) + F i (g i) = tally F g + F i a := by
  have hsplit : ∀ h : ι → α, tally F h = F i (h i) + ∑ j ∈ Finset.univ.erase i, F j (h j) :=
    fun h => (Finset.add_sum_erase Finset.univ (fun j => F j (h j)) (Finset.mem_univ i)).symm
  have hrest : ∑ j ∈ Finset.univ.erase i, F j (Function.update g i a j)
      = ∑ j ∈ Finset.univ.erase i, F j (g j) :=
    Finset.sum_congr rfl fun j hj => by rw [Function.update_of_ne (Finset.ne_of_mem_erase hj)]
  rw [hsplit, hsplit g, hrest, Function.update_self]
  omega

/-- A change that `F` does not see. -/
lemma tally_update_of_eq [DecidableEq ι] {i : ι} {a : α} (h : F i a = F i (g i)) :
    tally F (Function.update g i a) = tally F g := by
  have := tally_update F g i a
  omega

/-- A change at one index of a family over pairs, in the slice of one second component. -/
lemma tally_slice_update {κ : Type*} [DecidableEq ι] [DecidableEq κ] (F : ι → α → ℕ)
    (g : ι × κ → α) (i : ι) (k k' : κ) (a : α) :
    tally F (fun j => Function.update g (i, k) a (j, k')) + (if k' = k then F i (g (i, k)) else 0)
      = tally F (fun j => g (j, k')) + if k' = k then F i a else 0 := by
  by_cases h : k' = k
  · subst h
    have hslice : (fun j => Function.update g (i, k') a (j, k'))
        = Function.update (fun j => g (j, k')) i a := by
      funext j
      simp [Function.update_apply]
    rw [hslice, if_pos rfl, if_pos rfl]
    exact tally_update F (fun j => g (j, k')) i a
  · have hslice : (fun j => Function.update g (i, k) a (j, k')) = fun j => g (j, k') := by
      funext j
      exact Function.update_of_ne (fun heq => h (congrArg Prod.snd heq)) ..
    rw [hslice, if_neg h, if_neg h]

lemma le_tally (F : ι → α → ℕ) (g : ι → α) (i : ι) : F i (g i) ≤ tally F g :=
  Finset.single_le_sum (f := fun j => F j (g j)) (fun _ _ => Nat.zero_le _) (Finset.mem_univ i)

lemma tally_eq_zero : tally F g = 0 ↔ ∀ i, F i (g i) = 0 := by
  rw [tally, Finset.sum_eq_zero_iff]
  simp

/-- **The classes of a list** add up. -/
lemma sum_countP {β : Type*} (c : β → ℕ) (n : ℕ) {l : List β} (h : ∀ b ∈ l, c b < n) :
    ∑ k ∈ Finset.range n, l.countP (fun b => c b = k) = l.length := by
  induction l with
  | nil => simp
  | cons b l ih =>
      simp only [List.countP_cons, Finset.sum_add_distrib, List.length_cons,
        ih fun b' hb' => h b' (List.mem_cons_of_mem b hb'), decide_eq_true_eq]
      rw [Finset.sum_ite_eq, if_pos (Finset.mem_range.mpr (h b (List.mem_cons_self ..)))]

end RedAnns
