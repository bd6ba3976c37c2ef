import RedAnns.Lib.Memory

/-!
Binary streams of little-endian numbers.

* `encodeNat w n` is the number `n` in `w` bytes, least significant first; `decodeNat` reads it
  back (`decodeNat_encodeNat`, `encodeNat_decodeNat`).
* `takeExact n bs` is a read of exactly `n` bytes, which fails on a shorter stream.
* `decodeWords` reads a run of 32-bit words and inverts `encodeWords`.
-/

namespace RedAnns

variable {bs as cs : List UInt8}

/-! ### Numbers -/

/-- The low `w` bytes of a number, least significant first. -/
def encodeNat : ℕ → ℕ → List UInt8
  | 0, _ => []
  | w + 1, n => UInt8.ofNat n :: encodeNat w (n / 256)

/-- The number that some bytes stand for. -/
def decodeNat : List UInt8 → ℕ
  | [] => 0
  | b :: bs => b.toNat + 256 * decodeNat bs

@[simp] lemma length_encodeNat (w n : ℕ) : (encodeNat w n).length = w := by
  induction w generalizing n with
  | zero => rfl
  | succ w ih => rw [encodeNat, List.length_cons, ih]

/-- A number that fits is read back. -/
theorem decodeNat_encodeNat {w n : ℕ} (h : n < 256 ^ w) : decodeNat (encodeNat w n) = n := by
  induction w generalizing n with
  | zero =>
      rw [pow_zero] at h
      rw [encodeNat, decodeNat]
      omega
  | succ w ih =>
      have hdiv : n / 256 < 256 ^ w := by
        rw [pow_succ] at h
        exact Nat.div_lt_of_lt_mul (by omega)
      rw [encodeNat, decodeNat, ih hdiv, UInt8.toNat_ofNat']
      omega

/-- The bytes are those of their number. -/
theorem encodeNat_decodeNat (bs : List UInt8) : encodeNat bs.length (decodeNat bs) = bs := by
  induction bs with
  | nil => rfl
  | cons b bs ih =>
      have hb : b.toNat < 256 := b.toNat_lt
      rw [List.length_cons, encodeNat, decodeNat]
      have hdiv : (b.toNat + 256 * decodeNat bs) / 256 = decodeNat bs := by omega
      have hmod : UInt8.ofNat (b.toNat + 256 * decodeNat bs) = b := by
        refine UInt8.toNat_inj.mp ?_
        rw [UInt8.toNat_ofNat']
        omega
      rw [hdiv, hmod, ih]

lemma decodeNat_lt (bs : List UInt8) : decodeNat bs < 256 ^ bs.length := by
  induction bs with
  | nil => simp [decodeNat]
  | cons b bs ih =>
      have hb : b.toNat < 256 := b.toNat_lt
      rw [decodeNat, List.length_cons, pow_succ]
      omega

/-! ### Reads -/

/-- A read of `n` bytes: they and the rest of the stream, or nothing when the stream is
shorter. -/
def takeExact (n : ℕ) (bs : List UInt8) : Option (List UInt8 × List UInt8) :=
  if n ≤ bs.length then some (bs.take n, bs.drop n) else none

@[simp] lemma takeExact_append (as bs : List UInt8) :
    takeExact as.length (as ++ bs) = some (as, bs) := by
  simp [takeExact]

lemma takeExact_of_length {n : ℕ} (h : as.length = n) (bs : List UInt8) :
    takeExact n (as ++ bs) = some (as, bs) := h ▸ takeExact_append as bs

/-! ### Words -/

lemma encodeWord_eq (w : UInt32) : Bytes.encodeWord w = encodeNat 4 w.toNat := by
  simp [Bytes.encodeWord, encodeNat, Nat.div_div_eq_div_mul]

/-- A run of words, read from the front of some bytes. -/
def decodeWords : ℕ → List UInt8 → List UInt32
  | 0, _ => []
  | n + 1, bs => UInt32.ofNat (decodeNat (bs.take 4)) :: decodeWords n (bs.drop 4)

lemma decodeNat_encodeWord (w : UInt32) :
    UInt32.ofNat (decodeNat (Bytes.encodeWord w)) = w := by
  rw [encodeWord_eq, decodeNat_encodeNat (by simpa using w.toNat_lt), UInt32.ofNat_toNat]

theorem decodeWords_encodeWords (ws : List UInt32) :
    decodeWords ws.length (Bytes.encodeWords ws) = ws := by
  induction ws with
  | nil => rfl
  | cons w ws ih =>
      rw [Bytes.encodeWords, List.flatMap_cons, ← Bytes.encodeWords, List.length_cons,
        decodeWords, List.take_left' (Bytes.length_encodeWord w),
        List.drop_left' (Bytes.length_encodeWord w), decodeNat_encodeWord, ih]

@[simp] lemma length_decodeWords (n : ℕ) (bs : List UInt8) : (decodeWords n bs).length = n := by
  induction n generalizing bs with
  | zero => rfl
  | succ n ih => rw [decodeWords, List.length_cons, ih]

theorem encodeWords_decodeWords {n : ℕ} (h : bs.length = 4 * n) :
    Bytes.encodeWords (decodeWords n bs) = bs := by
  induction n generalizing bs with
  | zero =>
      rw [List.length_eq_zero_iff.mp (by omega : bs.length = 0)]
      rfl
  | succ n ih =>
      have htake : (bs.take 4).length = 4 := by rw [List.length_take]; omega
      have hlt : decodeNat (bs.take 4) < 2 ^ 32 := by
        have := decodeNat_lt (bs.take 4)
        rwa [htake] at this
      rw [decodeWords, Bytes.encodeWords, List.flatMap_cons, ← Bytes.encodeWords,
        ih (by rw [List.length_drop]; omega), encodeWord_eq, UInt32.toNat_ofNat_of_lt' hlt]
      have hword := encodeNat_decodeNat (bs.take 4)
      rw [htake] at hword
      rw [hword, List.take_append_drop]

end RedAnns
