import Mathlib.Algebra.BigOperators.Ring.Finset
import Mathlib.Algebra.Order.BigOperators.Group.Finset
import Mathlib.Algebra.Order.Field.Basic
import Mathlib.Tactic

/-!
Points assigned to centers, and the sum of their squared distances.

* `sqDev`, `sqCost`: the squared distance of a point and a center, and the sum over all points.
* `IsMean`: every center that has points is their mean; the others are anywhere.
* `sum_sq_sub_mean_le`, `sqCost_means_le`: means make the cost of an assignment least.
* `sqCost_step`: a nearest assignment followed by means does not raise the cost.
-/

namespace RedAnns

variable {ι κ δ K : Type*} [Field K]

section Defs

variable (points : Finset ι) (dims : Finset δ) (x : ι → δ → K)

/-- The squared distance of a point and a center. -/
def sqDev (c : κ → δ → K) (i : ι) (k : κ) : K := ∑ l ∈ dims, (x i l - c k l) ^ 2

/-- The sum of the squared distances of the points and their centers. -/
def sqCost (c : κ → δ → K) (a : ι → κ) : K := ∑ i ∈ points, sqDev dims x c i (a i)

/-- Every center that has points is their mean. -/
def IsMean [DecidableEq κ] (c : κ → δ → K) (a : ι → κ) : Prop :=
  ∀ k, (∃ i ∈ points, a i = k) → ∀ l ∈ dims,
    (points.filter fun i => a i = k).card * c k l = ∑ i ∈ points with a i = k, x i l

end Defs

variable [LinearOrder K] [IsStrictOrderedRing K]

/-- **The mean is best**, for numbers. -/
lemma sum_sq_sub_mean_le {s : Finset ι} {f : ι → K} {m : K}
    (hm : s.card * m = ∑ i ∈ s, f i) (c : K) :
    ∑ i ∈ s, (f i - m) ^ 2 ≤ ∑ i ∈ s, (f i - c) ^ 2 := by
  have hterm : ∀ i ∈ s, (f i - c) ^ 2 = (f i - m) ^ 2 + 2 * (m - c) * f i + (c ^ 2 - m ^ 2) :=
    fun i _ => by ring
  have hsplit : ∑ i ∈ s, (f i - c) ^ 2 = ∑ i ∈ s, (f i - m) ^ 2 + s.card * (m - c) ^ 2 := by
    rw [Finset.sum_congr rfl hterm, Finset.sum_add_distrib, Finset.sum_add_distrib,
      ← Finset.mul_sum, ← hm, Finset.sum_const, nsmul_eq_mul]
    ring
  rw [hsplit]
  exact le_add_of_nonneg_right (mul_nonneg (Nat.cast_nonneg _) (sq_nonneg _))

variable {points : Finset ι} {dims : Finset δ} {x : ι → δ → K} [DecidableEq κ] {c c' : κ → δ → K}
  {a a' : ι → κ}

/-- **Means are best** for their assignment. -/
lemma sqCost_means_le (h : IsMean points dims x c' a) (c : κ → δ → K) :
    sqCost points dims x c' a ≤ sqCost points dims x c a := by
  have hfiber : ∀ c : κ → δ → K, sqCost points dims x c a
      = ∑ k ∈ points.image a, ∑ l ∈ dims, ∑ i ∈ points with a i = k, (x i l - c k l) ^ 2 := by
    intro c
    rw [sqCost, ← Finset.sum_fiberwise_of_maps_to fun i hi => Finset.mem_image_of_mem a hi]
    refine Finset.sum_congr rfl fun k _ => ?_
    rw [Finset.sum_comm]
    refine Finset.sum_congr rfl fun i hi => ?_
    rw [sqDev, (Finset.mem_filter.mp hi).2]
  rw [hfiber, hfiber]
  refine Finset.sum_le_sum fun k hk => Finset.sum_le_sum fun l hl => ?_
  obtain ⟨i, hi, hik⟩ := Finset.mem_image.mp hk
  exact sum_sq_sub_mean_le (h k ⟨i, hi, hik⟩ l hl) _

/-- **One iteration does not raise the cost**: every point moves to a center that is no farther than
its old one, and the centers to the means of their points. -/
lemma sqCost_step (hnearer : ∀ i ∈ points, sqDev dims x c i (a' i) ≤ sqDev dims x c i (a i))
    (hmean : IsMean points dims x c' a') :
    sqCost points dims x c' a' ≤ sqCost points dims x c a :=
  (sqCost_means_le hmean c).trans (Finset.sum_le_sum hnearer)

end RedAnns
