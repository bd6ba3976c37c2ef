import RedAnns.Lib.Accumulate
import RedAnns.Lib.Loop

/-!
Arrays with checked accesses, and loops over them.

* `Allocated`: an array with its size; what an allocation leaves in it is arbitrary.
* `get`, `set`, `fill`: the accesses, which fail outside of the array.
* `get_of_lt`, `set_of_lt`: accesses inside; `lt_of_foldlM_set`: a loop of writes that does not fail
  stayed inside.
-/

namespace RedAnns

/-- An access outside of an array. -/
inductive AccessFault
  | outside
  deriving DecidableEq

/-- An array of `size` entries. -/
structure Allocated (α : Type) where
  size : ℕ
  entry : Buffer α

namespace Allocated

variable {α ι : Type} {a a' : Allocated α} {i : ℕ} {x : α}

/-- A checked read. -/
def get (a : Allocated α) (i : ℕ) : Except AccessFault α :=
  if i < a.size then .ok (a.entry i) else .error .outside

/-- A checked write. -/
def set (a : Allocated α) (i : ℕ) (x : α) : Except AccessFault (Allocated α) :=
  if i < a.size then .ok ⟨a.size, Function.update a.entry i x⟩ else .error .outside

/-- A routine that fills the first `n` entries. -/
def fill (a : Allocated α) (n : ℕ) (x : Buffer α) : Except AccessFault (Allocated α) :=
  if n ≤ a.size then .ok ⟨a.size, x⟩ else .error .outside

lemma get_of_lt (h : i < a.size) : a.get i = .ok (a.entry i) := if_pos h

lemma eq_of_get (h : a.get i = .ok x) : a.entry i = x := by
  rw [get] at h
  split at h
  · exact Except.ok.inj h
  · exact absurd h (by simp)

lemma set_of_lt (h : i < a.size) : a.set i x = .ok ⟨a.size, Function.update a.entry i x⟩ := if_pos h

lemma fill_of_le {n : ℕ} {x : Buffer α} (h : n ≤ a.size) : a.fill n x = .ok ⟨a.size, x⟩ := if_pos h

lemma lt_of_set (h : a.set i x = .ok a') : i < a.size ∧ a'.size = a.size := by
  by_cases hi : i < a.size
  · rw [set_of_lt hi] at h
    rw [← Except.ok.inj h]
    exact ⟨hi, rfl⟩
  · rw [set, if_neg hi] at h
    exact absurd h (by simp)

/-- A loop of writes that does not fail stayed inside, and left the size as it was. -/
lemma lt_of_foldlM_set {idx : ι → ℕ} {val : ι → α} {is : List ι}
    (h : is.foldlM (fun a i => a.set (idx i) (val i)) a = .ok a') :
    (∀ i ∈ is, idx i < a.size) ∧ a'.size = a.size := by
  induction is generalizing a with
  | nil =>
      rw [← Except.ok.inj h]
      exact ⟨fun i hi => absurd hi List.not_mem_nil, rfl⟩
  | cons i is ih =>
      rw [List.foldlM_cons] at h
      obtain ⟨b, hset, h⟩ := bind_eq_ok.mp h
      obtain ⟨hi, hsize⟩ := lt_of_set hset
      obtain ⟨hrest, hlast⟩ := ih h
      refine ⟨fun j hj => ?_, hlast.trans hsize⟩
      rcases List.mem_cons.mp hj with rfl | hj
      · exact hi
      · rw [← hsize]
        exact hrest j hj

end Allocated

end RedAnns
