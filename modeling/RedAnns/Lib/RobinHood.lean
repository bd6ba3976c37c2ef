import Mathlib.Algebra.BigOperators.Group.Finset.Basic
import Mathlib.Tactic

/-!
Open addressing with Robin Hood displacement.

A table has `M` buckets in a circle. A value has an ideal bucket and is stored with its distance
from it; a probe for a value walks from the ideal bucket on and counts its steps, and it may stop
at the first bucket whose entry is nearer to its own ideal bucket than the probe has come.

* `Crowded b M start d`: a probe from `start` does not stop in its first `d` buckets.
* `WellPlaced`: every entry lies where a probe for its value comes by. That is all that a table has
  to keep (`WellPlaced.find`: a probe that stops has not missed anything).
* `WellPlaced.place`: an entry may take the place of a nearer one. The distances only grow by it,
  so no other probe stops earlier.
* `Carrying`: a value on its way to a bucket. It moves on (`Carrying.skip`), takes a bucket whose
  former entry moves on (`Carrying.swap`), or takes an empty one (`Carrying.place`); what comes of
  it is `Settled`.
* `values`: the contents of the buckets, and what an update does to them.
* `Crowded.le_card`: a probe passes at most as many buckets as there are values.
-/

namespace RedAnns

namespace RobinHood

/-- A value and its distance from its ideal bucket. -/
structure Entry (α : Type*) where
  value : α
  dist : ℤ

/-- Buckets, some of them empty. -/
abbrev Buckets (α : Type*) := ℕ → Option (Entry α)

variable {α κ : Type*}

/-- The distance in a bucket, which is `-1` when the bucket is empty. -/
def distAt (b : Buckets α) (i : ℕ) : ℤ := (b i).elim (-1) Entry.dist

/-- A probe from `start` does not stop in its first `d` buckets. -/
def Crowded (b : Buckets α) (M start d : ℕ) : Prop :=
  ∀ j < d, (j : ℤ) ≤ distAt b ((start + j) % M)

/-- Every entry lies where a probe for its value comes by. -/
def WellPlaced (ideal : α → ℕ) (M : ℕ) (b : Buckets α) : Prop :=
  ∀ i < M, ∀ e, b i = some e →
    ∃ d : ℕ, e.dist = d ∧ i = (ideal e.value + d) % M ∧ Crowded b M (ideal e.value) d

/-- The contents of a bucket. -/
def contents : Option (Entry α) → Multiset α
  | none => 0
  | some e => {e.value}

/-- The contents of the buckets. -/
def values (b : Buckets α) (M : ℕ) : Multiset α := ∑ i ∈ Finset.range M, contents (b i)

variable {b b' : Buckets α} {M start d i : ℕ} {e e₀ : Entry α} {ideal : α → ℕ}

lemma distAt_of_none (h : b i = none) : distAt b i = -1 := by rw [distAt, h]; rfl

lemma distAt_of_some (h : b i = some e) : distAt b i = e.dist := by rw [distAt, h]; rfl

/-! ### Contents -/

lemma mem_values {a : α} : a ∈ values b M ↔ ∃ i < M, ∃ e, b i = some e ∧ e.value = a := by
  rw [values, Multiset.mem_sum]
  refine exists_congr fun i => and_congr Finset.mem_range ?_
  cases b i with
  | none => simp [contents]
  | some e => simp [contents, eq_comm]

/-- The contents, a bucket set apart. -/
lemma values_eq (hi : i < M) (b : Buckets α) :
    values b M = contents (b i) + ∑ j ∈ (Finset.range M).erase i, contents (b j) :=
  (Finset.add_sum_erase _ _ (Finset.mem_range.mpr hi)).symm

/-- The buckets other than `i` do not see an update of `i`. -/
lemma values_update (hi : i < M) (x : Option (Entry α)) :
    values (Function.update b i x) M
      = contents x + ∑ j ∈ (Finset.range M).erase i, contents (b j) := by
  rw [values_eq hi, Function.update_self]
  refine congrArg (contents x + ·) (Finset.sum_congr rfl fun j hj => ?_)
  rw [Function.update_of_ne (Finset.mem_erase.mp hj).1]

lemma values_update_of_none (hi : i < M) (hb : b i = none) :
    values (Function.update b i (some e)) M = e.value ::ₘ values b M := by
  rw [values_update hi, values_eq hi b, hb, contents, contents, zero_add, Multiset.singleton_add]

lemma values_update_of_some (hi : i < M) (hb : b i = some e₀) :
    e₀.value ::ₘ values (Function.update b i (some e)) M = e.value ::ₘ values b M := by
  rw [values_update hi, values_eq hi b, hb, contents, contents, Multiset.singleton_add,
    Multiset.singleton_add, Multiset.cons_swap]

/-- When no two values have one key, a key has one bucket. -/
lemma index_unique {key : α → κ} (hnd : ((values b M).map key).Nodup) {j : ℕ} (hi : i < M)
    (hj : j < M) (hbi : b i = some e) (hbj : b j = some e₀) (hkey : key e.value = key e₀.value) :
    i = j := by
  by_contra hne
  rw [values_eq hi, hbi, contents, Multiset.singleton_add, Multiset.map_cons,
    Multiset.nodup_cons, Multiset.mem_map] at hnd
  refine hnd.1 ⟨e₀.value, Multiset.mem_sum.mpr ⟨j, ?_, ?_⟩, hkey.symm⟩
  · exact Finset.mem_erase.mpr ⟨fun h => hne h.symm, Finset.mem_range.mpr hj⟩
  · rw [hbj]
    exact Multiset.mem_singleton_self _

lemma card_values (b : Buckets α) (M : ℕ) :
    (values b M).card = ((Finset.range M).filter fun i => (b i).isSome).card := by
  rw [values, Multiset.card_sum, Finset.card_filter]
  refine Finset.sum_congr rfl fun i _ => ?_
  cases b i with
  | none => rfl
  | some e => rfl

/-- A probe comes by an empty bucket. -/
lemma exists_none (h : (values b M).card < M) (start : ℕ) :
    ∃ k < M, b ((start + k) % M) = none := by
  obtain ⟨i, hi, hb⟩ : ∃ i < M, b i = none := by
    by_contra hall
    push Not at hall
    rw [card_values, Finset.filter_true_of_mem, Finset.card_range] at h
    · exact lt_irrefl _ h
    · exact fun i hi => Option.isSome_iff_ne_none.mpr (hall i (Finset.mem_range.mp hi))
  have hM : 0 < M := by omega
  have hlt := Nat.mod_lt start hM
  refine ⟨(i + (M - start % M)) % M, Nat.mod_lt _ hM, ?_⟩
  rw [Nat.add_mod_mod, ← Nat.mod_add_mod, show start % M + (i + (M - start % M)) = i + M by omega,
    Nat.add_mod_right, Nat.mod_eq_of_lt hi, hb]

/-! ### Probes -/

lemma Crowded.mono {d' : ℕ} (h : Crowded b M start d) (hd : d' ≤ d) : Crowded b M start d' :=
  fun j hj => h j (hj.trans_le hd)

lemma crowded_zero : Crowded b M start 0 := fun j hj => absurd hj (Nat.not_lt_zero j)

/-- The probe goes on. -/
lemma Crowded.succ (h : Crowded b M start d) (hd : (d : ℤ) ≤ distAt b ((start + d) % M)) :
    Crowded b M start (d + 1) := by
  intro j hj
  rcases Nat.lt_succ_iff_lt_or_eq.mp hj with hj | rfl
  · exact h j hj
  · exact hd

/-- A probe ends at an empty bucket. -/
lemma Crowded.le_of_none {k : ℕ} (h : Crowded b M start d) (hk : b ((start + k) % M) = none) :
    d ≤ k := by
  by_contra hlt
  have := h k (by omega)
  rw [distAt_of_none hk] at this
  omega

/-- **The buckets a probe passes are different**, so there are at most as many as values. -/
lemma Crowded.le_card (h : Crowded b M start d) (hcard : (values b M).card < M) :
    d ≤ (values b M).card := by
  obtain ⟨k, hk, hnone⟩ := exists_none hcard start
  have hdk := h.le_of_none hnone
  rw [card_values]
  calc d = (Finset.range d).card := (Finset.card_range d).symm
    _ ≤ _ := Finset.card_le_card_of_injOn (fun j => (start + j) % M) ?_ ?_
  · intro j hj
    have hj := Finset.mem_range.mp (Finset.mem_coe.mp hj)
    refine Finset.mem_coe.mpr (Finset.mem_filter.mpr
      ⟨Finset.mem_range.mpr (Nat.mod_lt _ (by omega)), ?_⟩)
    by_contra hsome
    have := h j hj
    rw [distAt_of_none (Option.not_isSome_iff_eq_none.mp hsome)] at this
    omega
  · intro j hj j' hj' heq
    have hj := Finset.mem_range.mp (Finset.mem_coe.mp hj)
    have hj' := Finset.mem_range.mp (Finset.mem_coe.mp hj')
    have hmod : j ≡ j' [MOD M] := Nat.ModEq.add_left_cancel' start heq
    rwa [Nat.ModEq, Nat.mod_eq_of_lt (by omega), Nat.mod_eq_of_lt (by omega)] at hmod

/-- Distances that only grow let no probe stop earlier. -/
lemma Crowded.of_le (h : Crowded b M start d) (hle : ∀ i, distAt b i ≤ distAt b' i) :
    Crowded b' M start d :=
  fun j hj => (h j hj).trans (hle _)

/-- **A probe that stops has not missed anything**: a value whose probe stops after `d` buckets,
none of which has its key, is not in the table. -/
theorem WellPlaced.find {key : α → κ} (h : WellPlaced ideal M b) {k : κ}
    (hideal : ∀ a, key a = k → ideal a = start)
    (hstop : distAt b ((start + d) % M) < d)
    (hpassed : ∀ j < d, ∀ e, b ((start + j) % M) = some e → key e.value ≠ k) :
    ∀ a ∈ values b M, key a ≠ k := by
  intro a ha hkey
  obtain ⟨i, hi, e, hb, rfl⟩ := mem_values.mp ha
  obtain ⟨n, hdist, hplace, hcrowded⟩ := h i hi e hb
  rw [hideal e.value hkey] at hplace hcrowded
  have hnd : ¬ d < n := fun hlt => by
    have := hcrowded d hlt
    omega
  rcases Nat.lt_or_ge n d with hlt | hge
  · exact hpassed n hlt e (by rw [← hplace]; exact hb) hkey
  · obtain rfl : n = d := by omega
    rw [← hplace, distAt_of_some hb] at hstop
    omega

/-! ### Displacement -/

lemma distAt_update_le (hlt : distAt b i < e.dist) (j : ℕ) :
    distAt b j ≤ distAt (Function.update b i (some e)) j := by
  by_cases hj : j = i
  · subst hj
    rw [distAt_of_some (Function.update_self ..)]
    exact hlt.le
  · rw [distAt, distAt, Function.update_of_ne hj]

/-- **An entry may take the place of a nearer one.** -/
theorem WellPlaced.place (h : WellPlaced ideal M b) (hdist : e.dist = d)
    (hi : i = (ideal e.value + d) % M) (hcrowded : Crowded b M (ideal e.value) d)
    (hlt : distAt b i < d) : WellPlaced ideal M (Function.update b i (some e)) := by
  have hle := distAt_update_le (hdist ▸ hlt : distAt b i < e.dist)
  intro j hj e' hb
  by_cases hji : j = i
  · subst hji
    rw [Function.update_self] at hb
    obtain rfl := Option.some.inj hb
    exact ⟨d, hdist, hi, hcrowded.of_le hle⟩
  · rw [Function.update_of_ne hji] at hb
    obtain ⟨n, hn, hplace, hc⟩ := h j hj e' hb
    exact ⟨n, hn, hplace, hc.of_le hle⟩

/-- A value on its way to a bucket: it has come to the bucket `i`, `d` buckets from its ideal one,
and `k` buckets ahead is an empty one. -/
structure Carrying (ideal : α → ℕ) (M : ℕ) (b : Buckets α) (i : ℕ) (v : α) (d k : ℕ) : Prop where
  placed : WellPlaced ideal M b
  index : i = (ideal v + d) % M
  crowded : Crowded b M (ideal v) d
  lt : k < M
  empty : b ((i + k) % M) = none

/-- What it comes to: the table has the value too, and only buckets from `i` up to the empty one
have changed. -/
structure Settled (ideal : α → ℕ) (M : ℕ) (b : Buckets α) (i : ℕ) (v : α) (k : ℕ)
    (b' : Buckets α) : Prop where
  placed : WellPlaced ideal M b'
  values_eq : values b' M = v ::ₘ values b M
  frame : ∀ j, (∀ x ≤ k, j ≠ (i + x) % M) → b' j = b j

namespace Carrying

variable {v : α} {k : ℕ}

lemma index_lt (h : Carrying ideal M b i v d k) : i < M := by
  rw [h.index]
  exact Nat.mod_lt _ (by have := h.lt; omega)

/-- A bucket that is not the empty one. -/
lemma exists_pred (h : Carrying ideal M b i v d k) (hb : b i = some e) :
    ∃ k', k = k' + 1 ∧ b (((i + 1) % M + k') % M) = none := by
  cases k with
  | zero =>
      have := h.empty
      rw [Nat.add_zero, Nat.mod_eq_of_lt h.index_lt, hb] at this
      cases this
  | succ k' =>
      refine ⟨k', rfl, ?_⟩
      rw [Nat.mod_add_mod, Nat.add_assoc, Nat.add_comm 1]
      exact h.empty

/-- The value moves on. -/
lemma skip (h : Carrying ideal M b i v d k) (hle : (d : ℤ) ≤ distAt b i) :
    ∃ k', k = k' + 1 ∧ Carrying ideal M b ((i + 1) % M) v (d + 1) k' := by
  cases hb : b i with
  | none =>
      rw [distAt_of_none hb] at hle
      omega
  | some e =>
      obtain ⟨k', rfl, hempty⟩ := h.exists_pred hb
      refine ⟨k', rfl, h.placed, ?_, ?_, by have := h.lt; omega, hempty⟩
      · rw [h.index, Nat.mod_add_mod, Nat.add_assoc]
      · exact h.crowded.succ (h.index ▸ hle)

/-- The value takes a bucket, and its former entry moves on. -/
lemma swap (h : Carrying ideal M b i v d k) (hb : b i = some e₀) (hlt : e₀.dist < d) :
    ∃ n k' : ℕ, e₀.dist = n ∧ k = k' + 1 ∧
      Carrying ideal M (Function.update b i (some ⟨v, d⟩)) ((i + 1) % M) e₀.value (n + 1) k' := by
  obtain ⟨n, hn, hplace, hc⟩ := h.placed i h.index_lt e₀ hb
  obtain ⟨k', rfl, hempty⟩ := h.exists_pred hb
  have hlt' : distAt b i < d := by rwa [distAt_of_some hb]
  refine ⟨n, k', hn, rfl, h.placed.place rfl h.index h.crowded hlt', ?_, ?_,
    by have := h.lt; omega, ?_⟩
  · rw [← Nat.add_assoc, hplace, Nat.mod_add_mod]
  · refine (hc.of_le (distAt_update_le hlt')).succ ?_
    rw [← hplace, distAt_of_some (Function.update_self ..)]
    show (n : ℤ) ≤ (d : ℤ)
    omega
  · rw [Function.update_of_ne fun heq => ?_, hempty]
    rw [heq, hb] at hempty
    cases hempty

/-- The value takes the empty bucket. -/
lemma place (h : Carrying ideal M b i v d k) (hb : b i = none) :
    Settled ideal M b i v k (Function.update b i (some ⟨v, d⟩)) where
  placed := h.placed.place rfl h.index h.crowded (by rw [distAt_of_none hb]; omega)
  values_eq := values_update_of_none h.index_lt hb
  frame := fun j hj => Function.update_of_ne
    (by simpa [Nat.mod_eq_of_lt h.index_lt] using hj 0 (Nat.zero_le k)) _ _

end Carrying

namespace Settled

variable {v : α} {k : ℕ}

lemma of_skip (h : Settled ideal M b ((i + 1) % M) v k b') : Settled ideal M b i v (k + 1) b' :=
  ⟨h.placed, h.values_eq, fun j hj => h.frame j fun x hx => by
    rw [Nat.mod_add_mod, Nat.add_assoc, Nat.add_comm 1]
    exact hj (x + 1) (by omega)⟩

lemma of_swap (hi : i < M) (hb : b i = some e₀)
    (h : Settled ideal M (Function.update b i (some ⟨v, d⟩)) ((i + 1) % M) e₀.value k b') :
    Settled ideal M b i v (k + 1) b' := by
  refine ⟨h.placed, h.values_eq.trans (values_update_of_some hi hb), fun j hj => ?_⟩
  rw [h.of_skip.frame j hj, Function.update_of_ne]
  simpa [Nat.mod_eq_of_lt hi] using hj 0 (Nat.zero_le _)

end Settled

end RobinHood

end RedAnns
