import RedAnns.Lib.Streams

/-!
Files that are written at offsets.

* `Codec`: a fixed-width binary format, with the law that it reads back; `uint8`, `uint32`,
  `uint64`, and runs of values (`decodeAll_encodeAll`).
* `File`: the bytes and the size of a file; a write beyond the end leaves zeros in between.
* `File.Holds`: bytes stand inside a file. A write makes its own bytes hold (`holds_write`) and
  leaves disjoint ones (`Holds.write_of_disjoint`), and what holds can be read (`Holds.read_eq`).
* `holds_writes`: sections that are apart all hold after they are written one after the other.
-/

namespace RedAnns

/-! ### Formats -/

/-- A binary format of one width. -/
structure Codec (α : Type*) where
  size : ℕ
  encode : α → List UInt8
  decode : List UInt8 → α
  length_encode : ∀ x, (encode x).length = size
  decode_encode : ∀ x, decode (encode x) = x

namespace Codec

/-- `uint8_t`. -/
def uint8 : Codec UInt8 where
  size := 1
  encode := fun x => [x]
  decode := fun bs => bs.headD 0
  length_encode := fun _ => rfl
  decode_encode := fun _ => rfl

/-- `uint32_t`, and the bits of a `float`. -/
def uint32 : Codec UInt32 where
  size := 4
  encode := fun x => encodeNat 4 x.toNat
  decode := fun bs => UInt32.ofNat (decodeNat bs)
  length_encode := fun x => length_encodeNat 4 x.toNat
  decode_encode := fun x => by
    rw [decodeNat_encodeNat (by simpa using x.toNat_lt), UInt32.ofNat_toNat]

/-- `uint64_t`. -/
def uint64 : Codec UInt64 where
  size := 8
  encode := fun x => encodeNat 8 x.toNat
  decode := fun bs => UInt64.ofNat (decodeNat bs)
  length_encode := fun x => length_encodeNat 8 x.toNat
  decode_encode := fun x => by
    rw [decodeNat_encodeNat (by simpa using x.toNat_lt), UInt64.ofNat_toNat]

variable {α : Type*} (c : Codec α)

/-- The bytes of a run of values. -/
def encodeAll (xs : List α) : List UInt8 := xs.flatMap c.encode

/-- A run of values, read from the front of some bytes. -/
def decodeAll : ℕ → List UInt8 → List α
  | 0, _ => []
  | n + 1, bs => c.decode (bs.take c.size) :: decodeAll n (bs.drop c.size)

@[simp] lemma length_encodeAll (xs : List α) : (c.encodeAll xs).length = xs.length * c.size := by
  induction xs with
  | nil => rw [List.length_nil, Nat.zero_mul]; rfl
  | cons x xs ih =>
      rw [encodeAll, List.flatMap_cons, ← encodeAll, List.length_append, c.length_encode, ih,
        List.length_cons, Nat.succ_mul, Nat.add_comm]

/-- Each value of a run has bytes of its own. -/
lemma getElem?_decodeAll {n k : ℕ} (h : k < n) (bs : List UInt8) :
    (c.decodeAll n bs)[k]? = some (c.decode ((bs.drop (k * c.size)).take c.size)) := by
  induction n generalizing k bs with
  | zero => exact absurd h (Nat.not_lt_zero k)
  | succ n ih =>
      cases k with
      | zero => rw [decodeAll, List.getElem?_cons_zero, Nat.zero_mul, List.drop_zero]
      | succ k =>
          rw [decodeAll, List.getElem?_cons_succ, ih (Nat.lt_of_succ_lt_succ h), List.drop_drop,
            Nat.succ_mul, Nat.add_comm c.size]

/-- A run of values in the middle of a longer one. -/
lemma getD_decodeAll_drop (bs : List UInt8) {start n N k : ℕ} (hk : k < n) (hN : start + n ≤ N)
    (x : α) :
    (c.decodeAll n ((bs.drop (start * c.size)).take (c.size * n))).getD k x
      = (c.decodeAll N bs).getD (start + k) x := by
  have hfit : k * c.size + c.size ≤ c.size * n := by
    rw [← Nat.succ_mul, Nat.mul_comm c.size n]
    exact Nat.mul_le_mul_right c.size hk
  rw [List.getD_eq_getElem?_getD, List.getD_eq_getElem?_getD, c.getElem?_decodeAll hk,
    c.getElem?_decodeAll (by omega), List.drop_take, List.take_take, min_eq_left (by omega),
    List.drop_drop, ← Nat.add_mul]

/-- A run of values reads back, whatever follows it. -/
theorem decodeAll_encodeAll_append (xs : List α) (bs : List UInt8) :
    c.decodeAll xs.length (c.encodeAll xs ++ bs) = xs := by
  induction xs with
  | nil => rfl
  | cons x xs ih =>
      rw [encodeAll, List.flatMap_cons, ← encodeAll, List.length_cons, decodeAll, List.append_assoc,
        List.take_left' (c.length_encode x), List.drop_left' (c.length_encode x), c.decode_encode,
        ih]

/-- A run of values reads back. -/
theorem decodeAll_encodeAll (xs : List α) : c.decodeAll xs.length (c.encodeAll xs) = xs := by
  rw [← List.append_nil (c.encodeAll xs)]
  exact c.decodeAll_encodeAll_append xs []

end Codec

/-! ### Files -/

/-- A file: what its bytes are, of which the first `size` count. -/
structure File where
  bytes : Bytes
  size : ℕ

namespace File

/-- A new file. -/
def empty : File := ⟨fun _ => 0, 0⟩

/-- A write at an offset. -/
def write (f : File) (off : ℕ) (bs : List UInt8) : File :=
  ⟨f.bytes.write off bs, max f.size (off + bs.length)⟩

/-- A read of `n` bytes at an offset, which fails at the end of the file. -/
def read (f : File) (off n : ℕ) : Option (List UInt8) :=
  if off + n ≤ f.size then some (f.bytes.read off n) else none

/-- The bytes `bs` are in the file at the offset `off`. -/
structure Holds (f : File) (off : ℕ) (bs : List UInt8) : Prop where
  le_size : off + bs.length ≤ f.size
  stands : Bytes.Stands f.bytes off bs

variable {f : File} {off off' : ℕ} {as bs : List UInt8}

lemma holds_write (f : File) (off : ℕ) (bs : List UInt8) : (f.write off bs).Holds off bs :=
  ⟨le_max_right _ _, Bytes.stands_write f.bytes off bs⟩

/-- **The frame rule** of files. -/
lemma Holds.write_of_disjoint (h : f.Holds off as)
    (hd : off + as.length ≤ off' ∨ off' + bs.length ≤ off) : (f.write off' bs).Holds off as :=
  ⟨h.le_size.trans (le_max_left _ _), h.stands.write_of_disjoint hd⟩

lemma holds_append : f.Holds off (as ++ bs) ↔ f.Holds off as ∧ f.Holds (off + as.length) bs := by
  constructor
  · rintro ⟨hle, hst⟩
    rw [List.length_append] at hle
    obtain ⟨h₁, h₂⟩ := Bytes.stands_append.mp hst
    exact ⟨⟨by omega, h₁⟩, ⟨by omega, h₂⟩⟩
  · rintro ⟨h₁, h₂⟩
    have hle := h₂.le_size
    exact ⟨by rw [List.length_append]; omega, Bytes.stands_append.mpr ⟨h₁.stands, h₂.stands⟩⟩

lemma Holds.read_eq (h : f.Holds off bs) : f.read off bs.length = some bs := by
  rw [read, if_pos h.le_size]
  refine congrArg some (List.ext_getElem (Bytes.length_read _) fun i hi hi' => ?_)
  rw [Bytes.getElem_read, h.stands i hi']

lemma Holds.read_of_length (h : f.Holds off bs) {n : ℕ} (hn : bs.length = n) :
    f.read off n = some bs := hn ▸ h.read_eq

/-! ### Sections -/

/-- Two sections, each an offset and its bytes, do not overlap. -/
def Apart (s t : ℕ × List UInt8) : Prop :=
  s.1 + s.2.length ≤ t.1 ∨ t.1 + t.2.length ≤ s.1

/-- The writes of some sections. -/
def writes (f : File) (sections : List (ℕ × List UInt8)) : File :=
  sections.foldl (fun f s => f.write s.1 s.2) f

lemma Holds.writes_of_apart {sections : List (ℕ × List UInt8)} (h : f.Holds off as)
    (hapart : ∀ s ∈ sections, Apart (off, as) s) : (f.writes sections).Holds off as := by
  induction sections generalizing f with
  | nil => exact h
  | cons s sections ih =>
      exact ih (h.write_of_disjoint (hapart s (List.mem_cons_self ..)))
        fun t ht => hapart t (List.mem_cons_of_mem s ht)

/-- **Sections that are apart all hold** in the end. -/
theorem holds_writes {sections : List (ℕ × List UInt8)} (hapart : sections.Pairwise Apart)
    {s : ℕ × List UInt8} (hs : s ∈ sections) : (f.writes sections).Holds s.1 s.2 := by
  induction sections generalizing f with
  | nil => exact absurd hs List.not_mem_nil
  | cons t sections ih =>
      obtain ⟨hfirst, hrest⟩ := List.pairwise_cons.mp hapart
      rcases List.mem_cons.mp hs with rfl | hs
      · exact (holds_write f s.1 s.2).writes_of_apart hfirst
      · exact ih hrest hs

end File

end RedAnns
