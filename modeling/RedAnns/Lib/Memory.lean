import Mathlib.Data.List.GetD
import Mathlib.Tactic

/-!
Byte memory with pointer arithmetic.

A memory is a function from addresses to bytes, so every address may be read and what an
allocation leaves in it is arbitrary.

* `write` is `memcpy` into the memory, and `Stands m p bs` says that the bytes `bs` stand at
  the address `p`. A write makes its own bytes stand (`stands_write`) and leaves disjoint
  ones standing (`Stands.write_of_disjoint`), and two adjacent writes are one
  (`write_append`).
* `writeAll` writes piece after piece behind a moving pointer (`writeAll_eq`: one write).
* `readWord` reads four bytes, least significant first; `Stands.readWord` reads back what
  `encodeWord` wrote.
* `store`: entries put into slots of one size; entries in different slots all stand at the
  end (`stands_store`).
* `view`: the bytes from an address on, which is all that a program can tell of a pointer.
-/

namespace RedAnns

/-- A byte memory. -/
abbrev Bytes := ℕ → UInt8

namespace Bytes

/-- `memcpy`: the bytes `bs` at the address `p`. -/
def write (m : Bytes) (p : ℕ) (bs : List UInt8) : Bytes :=
  fun a => if p ≤ a then bs.getD (a - p) (m a) else m a

/-- The bytes from the address `p` on. -/
def view (m : Bytes) (p : ℕ) : Bytes := fun i => m (p + i)

/-- The `n` bytes from the address `p` on. -/
def read (m : Bytes) (p n : ℕ) : List UInt8 := (List.range n).map fun i => m (p + i)

/-- The bytes `bs` stand at the address `p`. -/
def Stands (m : Bytes) (p : ℕ) (bs : List UInt8) : Prop :=
  ∀ i (h : i < bs.length), m (p + i) = bs[i]

variable {m : Bytes} {p q : ℕ} {as bs : List UInt8}

@[simp] lemma length_read (n : ℕ) : (m.read p n).length = n := by simp [read]

lemma getElem_read {n i : ℕ} (h : i < (m.read p n).length) : (m.read p n)[i] = m (p + i) := by
  simp [read]

@[simp] lemma view_apply (i : ℕ) : m.view p i = m (p + i) := rfl

lemma read_view (n : ℕ) : (m.view p).read q n = m.read (p + q) n := by
  simp only [read, view_apply, Nat.add_assoc]

/-! ### Writing -/

/-- A write leaves every address outside its range as it is. -/
lemma write_of_outside {a : ℕ} (h : a < p ∨ p + bs.length ≤ a) : m.write p bs a = m a := by
  rw [write]
  by_cases hp : p ≤ a
  · rw [if_pos hp, List.getD_eq_default _ _ (by omega)]
  · rw [if_neg hp]

lemma stands_write (m : Bytes) (p : ℕ) (bs : List UInt8) : Stands (m.write p bs) p bs := by
  intro i hi
  rw [write, if_pos (Nat.le_add_right p i), Nat.add_sub_cancel_left, List.getD_eq_getElem _ _ hi]

lemma write_nil : m.write p [] = m := by
  funext a
  exact write_of_outside (by simp only [List.length_nil]; omega)

/-- Two adjacent writes are one. -/
lemma write_append : (m.write p as).write (p + as.length) bs = m.write p (as ++ bs) := by
  funext a
  by_cases hout : a < p ∨ p + (as ++ bs).length ≤ a
  · rw [List.length_append] at hout
    rw [write_of_outside (by omega), write_of_outside (by omega),
      write_of_outside (by rw [List.length_append]; omega)]
  · rw [List.length_append] at hout
    obtain ⟨i, rfl⟩ := Nat.exists_eq_add_of_le (show p ≤ a by omega)
    rw [stands_write m p (as ++ bs) i (by rw [List.length_append]; omega)]
    by_cases hi : i < as.length
    · rw [write_of_outside (by omega), stands_write m p as i hi, List.getElem_append_left hi]
    · obtain ⟨j, rfl⟩ := Nat.exists_eq_add_of_le (show as.length ≤ i by omega)
      rw [← Nat.add_assoc, stands_write _ (p + as.length) bs j (by omega),
        List.getElem_append_right (by omega)]
      simp only [Nat.add_sub_cancel_left]

/-- `memcpy` after `memcpy`, with a pointer that moves on by what was written. -/
def writeAll : Bytes → ℕ → List (List UInt8) → Bytes
  | m, _, [] => m
  | m, p, bs :: bss => writeAll (m.write p bs) (p + bs.length) bss

/-- Writes behind a moving pointer are one write. -/
lemma writeAll_eq (m : Bytes) (p : ℕ) (bss : List (List UInt8)) :
    m.writeAll p bss = m.write p bss.flatten := by
  have key : ∀ (bss : List (List UInt8)) (as : List UInt8),
      (m.write p as).writeAll (p + as.length) bss = m.write p (as ++ bss.flatten) := by
    intro bss
    induction bss with
    | nil => intro as; rw [List.flatten_nil, List.append_nil]; rfl
    | cons bs bss ih =>
        intro as
        rw [writeAll, write_append, Nat.add_assoc, ← List.length_append, ih, List.flatten_cons,
          List.append_assoc]
  have h := key bss []
  rwa [write_nil, List.length_nil, Nat.add_zero, List.nil_append] at h

lemma stands_nil : Stands m p [] := fun i hi => absurd hi (Nat.not_lt_zero i)

lemma stands_append : Stands m p (as ++ bs) ↔ Stands m p as ∧ Stands m (p + as.length) bs := by
  constructor
  · intro h
    refine ⟨fun i hi => ?_, fun i hi => ?_⟩
    · rw [h i (by rw [List.length_append]; omega), List.getElem_append_left hi]
    · rw [Nat.add_assoc, h _ (by rw [List.length_append]; omega),
        List.getElem_append_right (by omega)]
      simp only [Nat.add_sub_cancel_left]
  · rintro ⟨h₁, h₂⟩ i hi
    by_cases hlt : i < as.length
    · rw [h₁ i hlt, List.getElem_append_left hlt]
    · rw [List.length_append] at hi
      obtain ⟨j, rfl⟩ := Nat.exists_eq_add_of_le (show as.length ≤ i by omega)
      rw [← Nat.add_assoc, h₂ j (by omega), List.getElem_append_right (by omega)]
      simp only [Nat.add_sub_cancel_left]

/-- **The frame rule**: a write leaves bytes standing that it does not meet. -/
lemma Stands.write_of_disjoint (h : Stands m p as) (hd : p + as.length ≤ q ∨ q + bs.length ≤ p) :
    Stands (m.write q bs) p as := by
  intro i hi
  rw [write_of_outside (by omega), h i hi]

lemma stands_view : Stands (m.view p) q bs ↔ Stands m (p + q) bs := by
  simp only [Stands, view_apply, Nat.add_assoc]

/-- What stands depends on the bytes it covers only. -/
lemma Stands.congr {m' : Bytes} (h : Stands m p bs) (hm : ∀ i < bs.length, m' (q + i) = m (p + i)) :
    Stands m' q bs := fun i hi => (hm i hi).trans (h i hi)

/-! ### Words -/

/-- The four bytes of a word, least significant first. -/
def encodeWord (w : UInt32) : List UInt8 :=
  [UInt8.ofNat w.toNat, UInt8.ofNat (w.toNat / 256), UInt8.ofNat (w.toNat / 65536),
    UInt8.ofNat (w.toNat / 16777216)]

/-- The word at the address `p`. -/
def readWord (m : Bytes) (p : ℕ) : UInt32 :=
  UInt32.ofNat ((m p).toNat + 256 * (m (p + 1)).toNat + 65536 * (m (p + 2)).toNat
    + 16777216 * (m (p + 3)).toNat)

@[simp] lemma length_encodeWord (w : UInt32) : (encodeWord w).length = 4 := rfl

lemma readWord_congr {m' : Bytes} (h : ∀ i < 4, m' (q + i) = m (p + i)) :
    readWord m' q = readWord m p := by
  have h0 := h 0 (by omega)
  rw [Nat.add_zero, Nat.add_zero] at h0
  rw [readWord, readWord, h0, h 1 (by omega), h 2 (by omega), h 3 (by omega)]

/-- A word that was written reads back. -/
theorem Stands.readWord {w : UInt32} (h : Stands m p (encodeWord w)) : m.readWord p = w := by
  have h0 : m p = UInt8.ofNat w.toNat := h 0 (by simp)
  have h1 : m (p + 1) = UInt8.ofNat (w.toNat / 256) := h 1 (by simp)
  have h2 : m (p + 2) = UInt8.ofNat (w.toNat / 65536) := h 2 (by simp)
  have h3 : m (p + 3) = UInt8.ofNat (w.toNat / 16777216) := h 3 (by simp)
  have hw : w.toNat < 4294967296 := w.toNat_lt
  rw [Bytes.readWord, h0, h1, h2, h3]
  simp only [UInt8.toNat_ofNat']
  have hsum : w.toNat % 2 ^ 8 + 256 * (w.toNat / 256 % 2 ^ 8)
      + 65536 * (w.toNat / 65536 % 2 ^ 8) + 16777216 * (w.toNat / 16777216 % 2 ^ 8)
      = w.toNat := by
    omega
  rw [hsum, UInt32.ofNat_toNat]

/-- A word is its four bytes. -/
lemma stands_encodeWord_readWord (m : Bytes) (p : ℕ) : Stands m p (encodeWord (m.readWord p)) := by
  have h0 := (m p).toNat_lt
  have h1 := (m (p + 1)).toNat_lt
  have h2 := (m (p + 2)).toNat_lt
  have h3 := (m (p + 3)).toNat_lt
  have hn : (m.readWord p).toNat = (m p).toNat + 256 * (m (p + 1)).toNat
      + 65536 * (m (p + 2)).toNat + 16777216 * (m (p + 3)).toNat := by
    rw [Bytes.readWord, UInt32.toNat_ofNat']
    omega
  have hb : ∀ (b : UInt8) (n : ℕ), n % 256 = b.toNat → b = UInt8.ofNat n := fun b n h => by
    refine UInt8.toNat_inj.mp ?_
    rw [UInt8.toNat_ofNat']
    exact h.symm
  intro i hi
  rw [length_encodeWord] at hi
  interval_cases i
  · exact hb (m p) _ (by omega)
  · exact hb (m (p + 1)) _ (by omega)
  · exact hb (m (p + 2)) _ (by omega)
  · exact hb (m (p + 3)) _ (by omega)

/-! ### Runs of words -/

/-- The bytes of a run of words. -/
def encodeWords (ws : List UInt32) : List UInt8 := ws.flatMap encodeWord

/-- The `n` words from the address `p` on. -/
def readWords (m : Bytes) (p n : ℕ) : List UInt32 :=
  (List.range n).map fun i => m.readWord (p + 4 * i)

@[simp] lemma length_encodeWords (ws : List UInt32) : (encodeWords ws).length = 4 * ws.length := by
  induction ws with
  | nil => rfl
  | cons w ws ih =>
      rw [encodeWords, List.flatMap_cons, List.length_append, length_encodeWord,
        List.length_cons, ← encodeWords, ih]
      omega

lemma readWords_succ (n : ℕ) :
    readWords m p (n + 1) = m.readWord p :: readWords m (p + 4) n := by
  rw [readWords, List.range_succ_eq_map, List.map_cons, List.map_map]
  simp only [readWords, Function.comp_def, Nat.mul_zero, Nat.add_zero]
  congr 1
  refine List.map_congr_left fun i _ => ?_
  congr 1
  omega

lemma Stands.readWords {ws : List UInt32} (h : Stands m p (encodeWords ws)) :
    m.readWords p ws.length = ws := by
  induction ws generalizing p with
  | nil => rfl
  | cons w ws ih =>
      rw [encodeWords, List.flatMap_cons, stands_append, length_encodeWord, ← encodeWords] at h
      rw [List.length_cons, readWords_succ, h.1.readWord, ih h.2]

/-! ### Slots -/

section Slots

variable {β : Type*} [DecidableEq β]

/-- Entries stored one after the other, the `i`-th at the slot `slot i`: a block and a
number of places of `size` bytes. -/
def store (size : ℕ) (slot : ℕ → β × ℕ) (entry : ℕ → List UInt8) (m : β → Bytes) (n : ℕ) :
    β → Bytes :=
  (List.range n).foldl (fun m i =>
    Function.update m (slot i).1 ((m (slot i).1).write ((slot i).2 * size) (entry i))) m

variable {size n : ℕ} {slot : ℕ → β × ℕ} {entry : ℕ → List UInt8} {m : β → Bytes}

lemma store_succ : store size slot entry m (n + 1) =
    Function.update (store size slot entry m n) (slot n).1
      ((store size slot entry m n (slot n).1).write ((slot n).2 * size) (entry n)) := by
  rw [store, List.range_succ, List.foldl_append]
  rfl

/-- Two different places of a block do not meet. -/
lemma place_disjoint {i j : ℕ} (h : i ≠ j) (size : ℕ) :
    i * size + size ≤ j * size ∨ j * size + size ≤ i * size := by
  rcases Nat.lt_or_gt_of_ne h with h | h
  · exact Or.inl ((Nat.succ_mul i size) ▸ Nat.mul_le_mul_right size h)
  · exact Or.inr ((Nat.succ_mul j size) ▸ Nat.mul_le_mul_right size h)

/-- **Entries in different slots all stand** at the end. -/
theorem stands_store (slot : ℕ → β × ℕ) (hinj : ∀ i < n, ∀ j < n, slot i = slot j → i = j)
    (hsize : ∀ i < n, (entry i).length ≤ size) {i : ℕ} (hi : i < n) :
    Stands (store size slot entry m n (slot i).1) ((slot i).2 * size) (entry i) := by
  induction n with
  | zero => exact absurd hi (Nat.not_lt_zero i)
  | succ n ih =>
      rw [store_succ]
      rcases eq_or_lt_of_le (Nat.le_of_lt_succ hi) with rfl | hlt
      · rw [Function.update_self]
        exact stands_write _ _ _
      · have hstand := ih (fun i hi j hj => hinj i (by omega) j (by omega))
          (fun i hi => hsize i (by omega)) hlt
        by_cases hb : (slot i).1 = (slot n).1
        · have hne : (slot i).2 ≠ (slot n).2 := fun h =>
            hlt.ne (hinj i (by omega) n (by omega) (Prod.ext hb h))
          have h1 := hsize i (by omega)
          have h2 := hsize n (by omega)
          rw [hb, Function.update_self, ← hb]
          refine hstand.write_of_disjoint ?_
          rcases place_disjoint hne size with h | h
          · exact Or.inl (by omega)
          · exact Or.inr (by omega)
        · rwa [Function.update_of_ne hb]

end Slots

end Bytes

end RedAnns
