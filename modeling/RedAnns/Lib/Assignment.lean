import Mathlib.Algebra.Order.BigOperators.Group.Finset
import Mathlib.Data.Fintype.Option
import RedAnns.Lib.Tally

/-!
The assignment problem: labels, alternating paths and partial matchings.

An assignment is a bijection between jobs and persons, and its weight the sum over the jobs. Labels
of persons and jobs that cover every weight bound the weight of every assignment, so an assignment
along tight pairs is a best one (`Covers.total_le_total`).

* `Reach`: the persons that alternating paths lead to; `Explored`: what a search along all of them
  has marked when it found no free job.
* `lower`, `raise`: a change of the labels at the marked nodes. It keeps the pairs that a search
  has gone along (`tight_relabel_iff`), covers every weight if it is not larger than the least
  slack (`Covers.relabel`), and lets the next search reach more (`Explored.frontierSize_lt`).
* `holds`: how many jobs hold a person; `Augments`: a person more is held, and none is lost.
* `load`: how many are given each value. An assignment with as many of every value as there are jobs
  of it comes from a bijection (`exists_equiv_of_load`).
-/

namespace RedAnns

namespace Assignment

variable {α β R : Type*}

/-! ### Weak duality -/

section Duality

variable [CommRing R]

/-- The weight of an assignment. -/
def total [Fintype β] (w : α → β → R) (p : β ≃ α) : R := ∑ v, w (p v) v

/-- The labels cover every weight. -/
def Covers [LE R] (w : α → β → R) (x : α → R) (y : β → R) : Prop := ∀ u v, w u v ≤ x u + y v

/-- The labels of a pair meet its weight. -/
def Tight (w : α → β → R) (x : α → R) (y : β → R) (u : α) (v : β) : Prop := x u + y v = w u v

variable {w : α → β → R} {x : α → R} {y : β → R} [Fintype β]

lemma total_neg (w : α → β → R) (p : β ≃ α) : total (-w) p = -total w p := by
  simp [total]

variable [Fintype α]

lemma sum_labels (x : α → R) (y : β → R) (p : β ≃ α) :
    ∑ v, (x (p v) + y v) = ∑ u, x u + ∑ v, y v := by
  rw [Finset.sum_add_distrib, Equiv.sum_comp p x]

/-- An assignment along tight pairs weighs as much as the labels. -/
lemma total_eq_of_tight {p : β ≃ α} (h : ∀ v, Tight w x y (p v) v) :
    total w p = ∑ u, x u + ∑ v, y v := by
  rw [← sum_labels x y p]
  exact Finset.sum_congr rfl fun v _ => (h v).symm

variable [LinearOrder R] [IsStrictOrderedRing R]

/-- Labels that cover the weights bound every assignment. -/
lemma Covers.total_le (hc : Covers w x y) (p : β ≃ α) : total w p ≤ ∑ u, x u + ∑ v, y v := by
  rw [← sum_labels x y p]
  exact Finset.sum_le_sum fun v _ => hc (p v) v

/-- **An assignment along tight pairs is a best one.** -/
theorem Covers.total_le_total (hc : Covers w x y) {p : β ≃ α} (h : ∀ v, Tight w x y (p v) v)
    (q : β ≃ α) : total w q ≤ total w p :=
  calc total w q ≤ ∑ u, x u + ∑ v, y v := hc.total_le q
    _ = total w p := (total_eq_of_tight h).symm

end Duality

/-! ### Alternating paths -/

section Paths

/-- The persons that an alternating path leads to: along a pair of `E` to a job, and from there to
the person that holds it. -/
inductive Reach (E : α → β → Prop) (m : β → Option α) (u : α) : α → Prop
  | root : Reach E m u u
  | step {x y : α} {v : β} : Reach E m u x → E x v → m v = some y → Reach E m u y

/-- The jobs next to those persons. -/
def Frontier (E : α → β → Prop) (m : β → Option α) (u : α) (v : β) : Prop :=
  ∃ x, Reach E m u x ∧ E x v

variable {E E' : α → β → Prop} {m : β → Option α} {u : α}

lemma Reach.trans {y z : α} (h : Reach E m u y) (h' : Reach E m y z) : Reach E m u z := by
  induction h' with
  | root => exact h
  | step _ he hm ih => exact .step ih he hm

/-- From a person behind the first pair on. -/
lemma Reach.of_step {v : β} {y z : α} (he : E u v) (hm : m v = some y) (h : Reach E m y z) :
    Reach E m u z :=
  (Reach.step .root he hm).trans h

lemma Frontier.of_step {v v' : β} {y : α} (he : E u v) (hm : m v = some y)
    (h : Frontier E m y v') : Frontier E m u v' := by
  obtain ⟨z, hz, hv'⟩ := h
  exact ⟨z, .of_step he hm hz, hv'⟩

/-- **What a search has marked** that went along all alternating paths and found no free job. -/
structure Explored (E : α → β → Prop) (m : β → Option α) (u : α) (S : α → Bool) (T : β → Bool) :
    Prop where
  root : S u = true
  reach : ∀ x, S x = true → Reach E m u x
  met : ∀ v, T v = true → Frontier E m u v
  closed : ∀ x v, S x = true → E x v → T v = true
  back : ∀ v, T v = true → ∃ y, m v = some y ∧ S y = true

variable {S : α → Bool} {T : β → Bool}

namespace Explored

variable (h : Explored E m u S T)
include h

lemma of_reach {x : α} (hx : Reach E m u x) : S x = true := by
  induction hx with
  | root => exact h.root
  | @step x y v _ he hm ih =>
      obtain ⟨y', hy', hS⟩ := h.back v (h.closed x v ih he)
      rw [hm, Option.some.injEq] at hy'
      exact hy' ▸ hS

/-- The marked jobs are those that the paths come by. -/
lemma frontier_iff (v : β) : Frontier E m u v ↔ T v = true := by
  constructor
  · rintro ⟨x, hx, he⟩
    exact h.closed x v (h.of_reach hx) he
  · exact h.met v

/-- The two ends of a matched pair of `E` are marked together. -/
lemma matched_iff {x : α} {v : β} (hm : m v = some x) (he : E x v) : S x = true ↔ T v = true := by
  constructor
  · exact fun hS => h.closed x v hS he
  · intro hT
    obtain ⟨y, hy, hS⟩ := h.back v hT
    rw [hm, Option.some.injEq] at hy
    exact hy ▸ hS

/-- A free job is not marked. -/
lemma free {v : β} (hm : m v = none) : T v = false := by
  by_contra hT
  obtain ⟨y, hy, -⟩ := h.back v (by simpa using hT)
  rw [hm] at hy
  exact absurd hy (by simp)

/-- Pairs that keep the explored ones keep what is reached. -/
lemma reach_mono (hE : ∀ x v, S x = true → T v = true → E x v → E' x v) {x : α}
    (hx : Reach E m u x) : Reach E' m u x := by
  induction hx with
  | root => exact .root
  | @step x y v hx he hm ih =>
      have hS := h.of_reach hx
      exact .step ih (hE x v hS (h.closed x v hS he) he) hm

end Explored

open Classical in
/-- How many jobs the paths come by. -/
noncomputable def frontierSize [Fintype β] (E : α → β → Prop) (m : β → Option α) (u : α) : ℕ :=
  (Finset.univ.filter fun v => Frontier E m u v).card

open Classical in
lemma frontierSize_le [Fintype β] : frontierSize E m u ≤ Fintype.card β :=
  Finset.card_filter_le _ _

open Classical in
/-- **A new pair out of the explored part** lets the next search reach more. -/
theorem Explored.frontierSize_lt [Fintype β] (h : Explored E m u S T)
    (hE : ∀ x v, S x = true → T v = true → E x v → E' x v) {x : α} {v : β} (hx : S x = true)
    (hv : T v = false) (hnew : E' x v) : frontierSize E m u < frontierSize E' m u := by
  rw [frontierSize, frontierSize]
  refine Finset.card_lt_card ((Finset.ssubset_iff_of_subset ?_).mpr ⟨v, ?_, ?_⟩)
  · intro v' hv'
    obtain ⟨x', hx', he⟩ := (Finset.mem_filter.mp hv').2
    have hS := h.of_reach hx'
    have hedge := hE x' v' hS (h.closed x' v' hS he) he
    exact Finset.mem_filter.mpr ⟨Finset.mem_univ v', x', h.reach_mono hE hx', hedge⟩
  · exact Finset.mem_filter.mpr ⟨Finset.mem_univ v, x, h.reach_mono hE (h.reach x hx), hnew⟩
  · intro hmem
    have hT := (h.frontier_iff v).mp (Finset.mem_filter.mp hmem).2
    rw [hv] at hT
    exact absurd hT (by simp)

end Paths

/-! ### Relabelling -/

section Relabel

variable [CommRing R]

/-- The labels of the marked persons, lowered. -/
def lower (S : α → Bool) (d : R) (x : α → R) (u : α) : R := if S u then x u - d else x u

/-- The labels of the marked jobs, raised. -/
def raise (T : β → Bool) (d : R) (y : β → R) (v : β) : R := if T v then y v + d else y v

variable {w : α → β → R} {x : α → R} {y : β → R} {m : β → Option α} {u : α}
  {S : α → Bool} {T : β → Bool} {d : R}

lemma lower_of_mem {u : α} (h : S u = true) : lower S d x u = x u - d := if_pos h

lemma raise_of_mem {v : β} (h : T v = true) : raise T d y v = y v + d := if_pos h

lemma raise_of_notMem {v : β} (h : T v = false) : raise T d y v = y v := by simp [raise, h]

/-- A pair with both ends marked, or none, stays as tight as it was. -/
lemma tight_relabel_iff {u : α} {v : β} (h : S u = true ↔ T v = true) :
    Tight w (lower S d x) (raise T d y) u v ↔ Tight w x y u v := by
  cases hS : S u with
  | true => rw [Tight, Tight, lower_of_mem hS, raise_of_mem (h.mp hS), sub_add_add_cancel]
  | false =>
      have hT : T v = false := by
        by_contra hT
        exact absurd (h.mpr (by simpa using hT)) (by simp [hS])
      rw [Tight, Tight, raise_of_notMem hT]
      simp [lower, hS]

variable [LinearOrder R] [IsStrictOrderedRing R]

lemma lower_le (hd : 0 ≤ d) (u : α) : lower S d x u ≤ x u := by
  unfold lower
  split_ifs
  · linarith
  · exact le_rfl

lemma le_raise (hd : 0 ≤ d) (v : β) : y v ≤ raise T d y v := by
  unfold raise
  split_ifs
  · linarith
  · exact le_rfl

/-- **Labels lowered by no more than the least slack** still cover the weights. -/
lemma Covers.relabel (hc : Covers w x y) (hd : 0 ≤ d)
    (hslack : ∀ u v, S u = true → T v = false → d ≤ x u + y v - w u v) :
    Covers w (lower S d x) (raise T d y) := by
  intro u v
  have huv := hc u v
  have hraise := le_raise (T := T) (y := y) hd v
  cases hS : S u with
  | true =>
      rw [lower_of_mem hS]
      cases hT : T v with
      | true => rw [raise_of_mem hT]; linarith
      | false => rw [raise_of_notMem hT]; linarith [hslack u v hS hT]
  | false =>
      have hlower : lower S d x u = x u := by simp [lower, hS]
      rw [hlower]
      linarith

end Relabel

/-! ### Partial matchings -/

section Matchings

variable [DecidableEq α] [Fintype β]

/-- How many jobs hold `o`: a person, or none. -/
def holds (m : β → Option α) (o : Option α) : ℕ := tally (fun _ a => if a = o then 1 else 0) m

variable {E : α → β → Prop} {m m' : β → Option α} {u : α}

lemma holds_eq_card (m : β → Option α) (o : Option α) :
    holds m o = (Finset.univ.filter fun v => m v = o).card := by
  rw [holds, tally, Finset.sum_boole]
  rfl

/-- Every job holds a person or none. -/
lemma holds_none_add_sum [Fintype α] (m : β → Option α) :
    holds m none + ∑ x, holds m (some x) = Fintype.card β := by
  rw [← Fintype.sum_option, ← Finset.card_univ,
    Finset.card_eq_sum_card_fiberwise (f := m) (t := Finset.univ) fun _ _ =>
      Finset.mem_coe.mpr (Finset.mem_univ _)]
  exact Finset.sum_congr rfl fun o _ => holds_eq_card m o

/-- Where fewer jobs hold a person than there are, one is free. -/
lemma exists_free [Fintype α] (h : ∑ x, holds m (some x) < Fintype.card β) : ∃ v, m v = none := by
  have hpos : 0 < holds m none := by
    have := holds_none_add_sum m
    omega
  rw [holds_eq_card, Finset.card_pos] at hpos
  obtain ⟨v, hv⟩ := hpos
  exact ⟨v, (Finset.mem_filter.mp hv).2⟩

/-- **A matching in which every person is held once** is an assignment. -/
theorem exists_assignment [Fintype α] (hcard : Fintype.card α = Fintype.card β)
    (h : ∀ x, holds m (some x) = 1) : ∃ p : β ≃ α, ∀ v, m v = some (p v) := by
  have hsum : ∑ x, holds m (some x) = Fintype.card β := by
    rw [Finset.sum_congr rfl fun x _ => h x, Finset.sum_const, smul_eq_mul, mul_one,
      Finset.card_univ, hcard]
  have hnone : ∀ v, (m v).isSome = true := by
    intro v
    have hzero : holds m none = 0 := by
      have := holds_none_add_sum m
      omega
    rw [holds, tally_eq_zero] at hzero
    by_contra hv
    have := hzero v
    simp_all
  have hget : ∀ v, m v = some ((m v).get (hnone v)) := fun v => (Option.some_get (hnone v)).symm
  have hsurj : Function.Surjective fun v => (m v).get (hnone v) := by
    intro x
    have hpos : 0 < holds m (some x) := by rw [h x]; exact Nat.one_pos
    rw [holds_eq_card, Finset.card_pos] at hpos
    obtain ⟨v, hv⟩ := hpos
    refine ⟨v, Option.some.inj ?_⟩
    rw [← hget v]
    exact (Finset.mem_filter.mp hv).2
  exact ⟨Equiv.ofBijective _ ((Fintype.bijective_iff_surjective_and_card _).mpr
    ⟨hsurj, hcard.symm⟩), hget⟩

/-- **The matching holds one person more**, and what it holds are pairs of `E`. -/
structure Augments (E : α → β → Prop) (m m' : β → Option α) (u : α) : Prop where
  holds : ∀ x, holds m' (some x) = Assignment.holds m (some x) + if x = u then 1 else 0
  free : ∀ v, m' v = none → m v = none
  pairs : (∀ v x, m v = some x → E x v) → ∀ v x, m' v = some x → E x v

variable [DecidableEq β]

lemma holds_update (m : β → Option α) (v : β) (o o' : Option α) :
    holds (Function.update m v o) o' + (if m v = o' then 1 else 0)
      = holds m o' + if o = o' then 1 else 0 :=
  tally_update (fun _ a => if a = o' then 1 else 0) m v o

/-- A free job takes the person. -/
lemma augments_of_free {v : β} (hm : m v = none) (he : E u v) :
    Augments E m (Function.update m v (some u)) u where
  holds := fun x => by
    have h := holds_update m v (some u) (some x)
    rw [hm] at h
    simpa [eq_comm] using h
  free := fun v' h => by
    by_cases hv : v' = v
    · subst hv
      simp at h
    · rwa [Function.update_of_ne hv] at h
  pairs := fun hp v' x h => by
    by_cases hv : v' = v
    · subst hv
      rw [Function.update_self, Option.some.injEq] at h
      exact h ▸ he
    · rw [Function.update_of_ne hv] at h
      exact hp v' x h

/-- A job gives up the person it holds once that person is held elsewhere. -/
lemma Augments.shift {v : β} {y : α} (h : Augments E m m' y) (hm : m' v = some y)
    (he : E u v) : Augments E m (Function.update m' v (some u)) u where
  holds := fun x => by
    have hupdate := holds_update m' v (some u) (some x)
    have hx := h.holds x
    rw [hm] at hupdate
    simp only [Option.some.injEq, eq_comm (b := x)] at hupdate
    omega
  free := fun v' hv' => by
    by_cases hv : v' = v
    · subst hv
      simp at hv'
    · rw [Function.update_of_ne hv] at hv'
      exact h.free v' hv'
  pairs := fun hp v' x hv' => by
    by_cases hv : v' = v
    · subst hv
      rw [Function.update_self, Option.some.injEq] at hv'
      exact hv' ▸ he
    · rw [Function.update_of_ne hv] at hv'
      exact h.pairs hp v' x hv'

end Matchings

/-! ### Capacities -/

section Capacities

variable {γ : Type*} [Fintype α] [Fintype β] [DecidableEq γ] {f : α → γ} {g : β → γ}

/-- How many are given a value. -/
def load (f : α → γ) (j : γ) : ℕ := (Finset.univ.filter fun u => f u = j).card

lemma load_eq_card (f : α → γ) (j : γ) : load f j = Fintype.card { u // f u = j } :=
  (Fintype.card_subtype _).symm

/-- A bijection that keeps the values keeps the loads. -/
lemma load_eq_of_equiv {p : β ≃ α} (h : ∀ v, f (p v) = g v) (j : γ) : load f j = load g j := by
  rw [load_eq_card, load_eq_card]
  exact (Fintype.card_congr (p.subtypeEquiv fun v => by rw [h])).symm

/-- **Equal loads come from a bijection** that keeps the values. -/
theorem exists_equiv_of_load (h : ∀ j, load f j = load g j) : ∃ p : β ≃ α, ∀ v, f (p v) = g v := by
  have hcard : ∀ j, Fintype.card { v // g v = j } = Fintype.card { u // f u = j } := fun j => by
    rw [← load_eq_card, ← load_eq_card, h]
  refine ⟨Equiv.ofFiberEquiv fun j => Fintype.equivOfCardEq (hcard j), fun v => ?_⟩
  exact Equiv.ofFiberEquiv_map (fun j => Fintype.equivOfCardEq (hcard j)) v

end Capacities

end Assignment

end RedAnns
