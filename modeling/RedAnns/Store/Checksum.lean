import RedAnns.Lib.Loop
import RedAnns.Lib.OnesComplement
import RedAnns.Lib.Streams

/-!
`ip_checksum` (`rdma_lib/utils.hpp`).

It adds up the bytes in words of 32 bits, aligned in memory, lets the carries run until the end, and
exchanges the bytes of the result if the data began at an odd address.

* `ipChecksum`: the function; `internetChecksum`: what it is for, the words of 16 bits added up one
  after the other, from the first byte on.
* `ipChecksum_eq`: it computes that, wherever the data is in memory.
-/

namespace RedAnns

namespace Connect

open OnesComplement

/-! ### The source -/

/-- `uint32_t word = 0; memcpy(offset + (char*)&word, data, count)`; the other bytes are zero. -/
def loadWord (offset : ℕ) (data : List UInt8) : UInt32 :=
  UInt32.ofNat (decodeNat (List.replicate offset 0 ++ data))

def ntohl (word : UInt32) : UInt32 := UInt32.ofNat (decodeNat (encodeNat 4 word.toNat).reverse)

def htons (word : UInt16) : UInt16 := UInt16.ofNat (decodeNat (encodeNat 2 word.toNat).reverse)

/-- The partial block at the start of the data. -/
def startBlock (offset : ℕ) (acc : UInt64) (data : List UInt8) : UInt64 × List UInt8 :=
  if offset = 0 then (acc, data)
  else
    let count := min (4 - offset) data.length
    (acc + (ntohl (loadWord offset (data.take count))).toUInt64, data.drop count)

/-- The complete blocks. -/
def completeBlocks : UInt64 → List UInt8 → UInt64 × List UInt8
  | acc, b₀ :: b₁ :: b₂ :: b₃ :: data =>
      completeBlocks (acc + (ntohl (loadWord 0 [b₀, b₁, b₂, b₃])).toUInt64) data
  | acc, data => (acc, data)

/-- The partial block at the end of the data. -/
def endBlock (acc : UInt64) (data : List UInt8) : UInt64 :=
  if data.length = 0 then acc else acc + (ntohl (loadWord 0 data)).toUInt64

/-- `acc = (acc & 0xffff) + (acc >> 16)`. -/
def carry (acc : UInt64) : UInt64 := (acc &&& (0xffff : UInt64)) + (acc >>> 16)

/-- The deferred carries. -/
def deferredCarries (acc : UInt64) : UInt64 :=
  whileLoop (fun acc => acc >>> 16 != 0) carry 3
    ((acc &&& (0xffffffff : UInt64)) + (acc >>> 32))

/-- The exchange of the bytes, if the data began at an odd address. -/
def compensated (offset : ℕ) (acc : UInt64) : UInt64 :=
  if offset % 2 = 1 then ((acc &&& 0xff00) >>> 8) ||| ((acc &&& 0x00ff) <<< 8) else acc

/-- `ip_checksum`. -/
def ipChecksum (vdata : ℕ) (data : List UInt8) : UInt64 :=
  let offset := vdata % 4
  let start := startBlock offset 0xffff data
  let blocks := completeBlocks start.1 start.2
  let acc := deferredCarries (endBlock blocks.1 blocks.2)
  (htons (~~~compensated offset acc).toUInt16).toUInt64

/-! ### What it is for -/

/-- The complement of the sum of the words, in network byte order. -/
def internetChecksum (data : List UInt8) : UInt64 :=
  (htons (UInt16.ofNat (65535 - onesSum 65535 data))).toUInt64

/-! ### Words -/

lemma decodeNat_append_zeros (bs : List UInt8) (n : ℕ) :
    decodeNat (bs ++ List.replicate n 0) = decodeNat bs := by
  induction bs with
  | nil =>
      induction n with
      | zero => rfl
      | succ n ih => simpa [List.replicate_succ, decodeNat] using ih
  | cons b bs ih => rw [List.cons_append, decodeNat, decodeNat, ih]

/-- `ntohl` reads the bytes the other way round. -/
lemma ntohl_loadWord {offset : ℕ} {data : List UInt8} (h : offset + data.length ≤ 4) :
    (ntohl (loadWord offset data)).toNat
      = decodeNat (List.replicate offset 0 ++ data
        ++ List.replicate (4 - (offset + data.length)) 0).reverse := by
  set word := List.replicate offset 0 ++ data ++ List.replicate (4 - (offset + data.length)) 0
  have hlength : word.length = 4 := by simp [word]; omega
  have hlt : decodeNat word < 2 ^ 32 := by simpa [hlength] using decodeNat_lt word
  have hrev : decodeNat word.reverse < 2 ^ 32 := by
    simpa [hlength] using decodeNat_lt word.reverse
  have hload : (loadWord offset data).toNat = decodeNat word := by
    rw [loadWord, ← decodeNat_append_zeros _ (4 - (offset + data.length))]
    exact UInt32.toNat_ofNat_of_lt' hlt
  have hencode : encodeNat 4 (decodeNat word) = word := by
    rw [← hlength]
    exact encodeNat_decodeNat word
  rw [ntohl, hload, hencode]
  exact UInt32.toNat_ofNat_of_lt' hrev

lemma decodeNat_reverse_modEq {bs : List UInt8} (h : bs.length = 4) :
    decodeNat bs.reverse ≡ byteSum false bs [MOD 65535] := by
  obtain ⟨b₀, b₁, b₂, b₃, rfl⟩ := List.length_eq_four.mp h
  simp only [List.reverse_cons, List.reverse_nil, List.nil_append, List.cons_append, decodeNat,
    byteSum, weight, Bool.not_false, Bool.not_true, Bool.false_eq_true, if_true, if_false,
      Nat.ModEq]
  omega

/-- **A word in the sum**: modulo 65535 it counts its bytes as words of 16 bits do. -/
lemma ntohl_modEq {offset : ℕ} {data : List UInt8} (h : offset + data.length ≤ 4) :
    (ntohl (loadWord offset data)).toNat ≡ byteSum (placeAfter false offset) data [MOD 65535] := by
  have hlength : (List.replicate offset 0 ++ data
      ++ List.replicate (4 - (offset + data.length)) (0 : UInt8)).length = 4 := by
    simp
    omega
  have hmod := decodeNat_reverse_modEq hlength
  rw [byteSum_append, byteSum_append, byteSum_replicate_zero, byteSum_replicate_zero,
    List.length_replicate, Nat.zero_add, Nat.add_zero] at hmod
  rw [ntohl_loadWord h]
  exact hmod

/-! ### The sum -/

/-- An accumulator with room for `n` more words that **adds up to** some number. -/
structure Accumulates (acc : UInt64) (n x : ℕ) : Prop where
  pos : 0 < acc.toNat
  room : acc.toNat + n * 2 ^ 32 ≤ 2 ^ 64
  modEq : acc.toNat ≡ x [MOD 65535]

variable {acc : UInt64} {n x : ℕ} {offset : ℕ} {data : List UInt8}

lemma Accumulates.anti (h : Accumulates acc n x) {m : ℕ} (hm : m ≤ n) : Accumulates acc m x :=
  ⟨h.pos, (Nat.add_le_add_left (Nat.mul_le_mul_right _ hm) _).trans h.room, h.modEq⟩

/-- A word is added. -/
lemma Accumulates.add (h : Accumulates acc (n + 1) x) (hlen : offset + data.length ≤ 4) :
    Accumulates (acc + (ntohl (loadWord offset data)).toUInt64) n
      (x + byteSum (placeAfter false offset) data) := by
  have hword := (ntohl (loadWord offset data)).toNat_lt
  have hroom := h.room
  have hpos := h.pos
  have hsum : (acc + (ntohl (loadWord offset data)).toUInt64).toNat
      = acc.toNat + (ntohl (loadWord offset data)).toNat := by
    have hlt : acc.toNat + (ntohl (loadWord offset data)).toNat < 2 ^ 64 := by omega
    rw [UInt64.toNat_add, UInt32.toNat_toUInt64, Nat.mod_eq_of_lt hlt]
  refine ⟨by omega, by omega, ?_⟩
  rw [hsum]
  exact h.modEq.add (ntohl_modEq hlen)

/-- After the first block the words begin at an aligned address. -/
lemma startBlock_spec (hoff : offset < 4) (h : Accumulates acc (n + 1) x) (data : List UInt8) :
    ∃ y, Accumulates (startBlock offset acc data).1 n y ∧
      y + byteSum false (startBlock offset acc data).2
        = x + byteSum (placeAfter false offset) data ∧
      (startBlock offset acc data).2.length ≤ data.length := by
  rw [startBlock]
  split_ifs with hzero
  · subst hzero
    exact ⟨x, h.anti (Nat.le_succ n), rfl, le_rfl⟩
  · set count := min (4 - offset) data.length
    have htake : (data.take count).length = count := by simp [count]
    have hword : offset + (data.take count).length ≤ 4 := by omega
    have hadd := h.add hword
    refine ⟨_, hadd, ?_, by simp⟩
    have hsplit := byteSum_append (placeAfter false offset) (data.take count) (data.drop count)
    rw [List.take_append_drop, htake] at hsplit
    rw [hsplit, Nat.add_assoc]
    refine congrArg (x + ·) (congrArg (_ + ·) ?_)
    show byteSum false (data.drop count) = _
    rcases Nat.lt_or_ge data.length (4 - offset) with hlt | hge
    · rw [List.drop_eq_nil_of_le (by omega)]
      rfl
    · have hcount : count = 4 - offset := min_eq_left hge
      have hplace : placeAfter (placeAfter false offset) count = false := by
        have hmod : (4 - offset) % 2 = offset % 2 := by omega
        simp [placeAfter, hcount, hmod]
      rw [hplace]

lemma completeBlocks_spec (h : Accumulates acc (data.length / 4 + n) x) :
    ∃ y, Accumulates (completeBlocks acc data).1 n y ∧
      y + byteSum false (completeBlocks acc data).2 = x + byteSum false data ∧
      (completeBlocks acc data).2.length < 4 := by
  induction acc, data using completeBlocks.induct generalizing x with
  | case1 acc b₀ b₁ b₂ b₃ data ih =>
      have hlen : (b₀ :: b₁ :: b₂ :: b₃ :: data).length / 4 + n = data.length / 4 + n + 1 := by
        simp only [List.length_cons]
        omega
      rw [hlen] at h
      have hword : 0 + [b₀, b₁, b₂, b₃].length ≤ 4 := le_rfl
      obtain ⟨y, hy, hsum, hlt⟩ := ih (h.add hword)
      refine ⟨y, hy, hsum.trans ?_, hlt⟩
      simp [byteSum, placeAfter, Nat.add_assoc]
  | case2 acc data hfew =>
      have hlt : data.length < 4 := by
        rcases data with _ | ⟨b₀, _ | ⟨b₁, _ | ⟨b₂, _ | ⟨b₃, data⟩⟩⟩⟩
        · simp
        · simp
        · simp
        · simp
        · exact absurd rfl (hfew b₀ b₁ b₂ b₃ data)
      have hsame : completeBlocks acc data = (acc, data) := by
        rw [completeBlocks]
        exact hfew
      rw [hsame]
      exact ⟨x, h.anti (Nat.le_add_left _ _), rfl, hlt⟩

lemma endBlock_spec (h : Accumulates acc (n + 1) x) (hlt : data.length < 4) :
    Accumulates (endBlock acc data) n (x + byteSum false data) := by
  rw [endBlock]
  split_ifs with hzero
  · rw [List.length_eq_zero_iff.mp hzero]
    exact h.anti (Nat.le_succ n)
  · have hword : 0 + data.length ≤ 4 := by omega
    exact h.add hword

/-! ### The carries -/

lemma toNat_carry (acc : UInt64) :
    (carry acc).toNat = acc.toNat % 2 ^ 16 + acc.toNat / 2 ^ 16 := by
  have hlt := acc.toNat_lt
  have hmask : acc.toNat &&& 0xffff = acc.toNat % 2 ^ 16 := Nat.and_two_pow_sub_one_eq_mod _ 16
  have hsum : acc.toNat % 2 ^ 16 + acc.toNat / 2 ^ 16 < 2 ^ 64 := by omega
  rw [carry, UInt64.toNat_add, UInt64.toNat_and, UInt64.toNat_shiftRight, Nat.shiftRight_eq_div_pow]
  exact (congrArg (fun low => (low + acc.toNat / 2 ^ 16) % 2 ^ 64) hmask).trans
    (Nat.mod_eq_of_lt hsum)

lemma carries_iff (acc : UInt64) : (acc >>> 16 != 0) = true ↔ 2 ^ 16 ≤ acc.toNat := by
  rw [bne_iff_ne, ne_eq, ← UInt64.toNat_inj, UInt64.toNat_shiftRight, Nat.shiftRight_eq_div_pow]
  show ¬acc.toNat / 2 ^ 16 = 0 ↔ 2 ^ 16 ≤ acc.toNat
  omega

/-- How many more carries there can be. -/
def carriesLeft (acc : UInt64) : ℕ :=
  if acc.toNat < 2 ^ 16 then 0
  else if acc.toNat < 2 ^ 16 + 2 ^ 15 then 1
  else if acc.toNat < 2 ^ 18 then 2
  else 3

/-- The first step of the carries adds the two halves. -/
lemma toNat_halves (acc : UInt64) :
    ((acc &&& (0xffffffff : UInt64)) + (acc >>> 32)).toNat
      = acc.toNat % 2 ^ 32 + acc.toNat / 2 ^ 32 := by
  have hlt := acc.toNat_lt
  have hmask : acc.toNat &&& 0xffffffff = acc.toNat % 2 ^ 32 :=
    Nat.and_two_pow_sub_one_eq_mod _ 32
  have hsum : acc.toNat % 2 ^ 32 + acc.toNat / 2 ^ 32 < 2 ^ 64 := by omega
  rw [UInt64.toNat_add, UInt64.toNat_and, UInt64.toNat_shiftRight, Nat.shiftRight_eq_div_pow]
  exact (congrArg (fun low => (low + acc.toNat / 2 ^ 32) % 2 ^ 64) hmask).trans
    (Nat.mod_eq_of_lt hsum)

/-- **The carries run out**, and the result stands for what the accumulator adds up to. -/
lemma deferredCarries_stands (h : Accumulates acc n x) : Stands (deferredCarries acc).toNat x := by
  set I : UInt64 → Prop := fun acc => 0 < acc.toNat ∧ acc.toNat < 2 ^ 33 ∧ acc.toNat ≡ x [MOD 65535]
  have hlt := acc.toNat_lt
  have hpos := h.pos
  have hmod := h.modEq
  have hstart : I ((acc &&& (0xffffffff : UInt64)) + (acc >>> 32)) := by
    simp only [I, toNat_halves]
    simp only [Nat.ModEq] at hmod ⊢
    omega
  have hcarry : ∀ acc, I acc → (acc >>> 16 != 0) = true →
      I (carry acc) ∧ carriesLeft (carry acc) < carriesLeft acc := by
    rintro acc ⟨hpos, hlt, hmod⟩ hmore
    rw [carries_iff] at hmore
    refine ⟨?_, ?_⟩
    · simp only [I, toNat_carry]
      simp only [Nat.ModEq] at hmod ⊢
      omega
    · simp only [carriesLeft, toNat_carry]
      split_ifs <;> omega
  have hfuel : carriesLeft ((acc &&& (0xffffffff : UInt64)) + (acc >>> 32)) ≤ 3 := by
    rw [carriesLeft]
    split_ifs <;> omega
  have hexit := whileLoop_exits carriesLeft hcarry hstart hfuel
  obtain ⟨hpos', -, hmod'⟩ :=
    whileLoop_invariant (fun acc hI hmore => (hcarry acc hI hmore).1) hstart 3
  have hend : ¬2 ^ 16 ≤ (deferredCarries acc).toNat := by
    rw [← carries_iff]
    exact Bool.eq_false_iff.mp hexit
  exact ⟨hpos', by omega, hmod'⟩

/-! ### The result -/

/-- The exchange of the two bytes. -/
lemma toNat_swap (h : acc.toNat < 2 ^ 16) :
    (((acc &&& (0xff00 : UInt64)) >>> 8) ||| ((acc &&& (0x00ff : UInt64)) <<< 8)).toNat
      = swapBytes acc.toNat := by
  have hhigh : ((acc &&& (0xff00 : UInt64)) >>> 8).toNat = acc.toNat / 256 := by
    have hmask : acc.toNat >>> 8 &&& 0xff00 >>> 8 = acc.toNat / 256 % 2 ^ 8 := by
      rw [Nat.shiftRight_eq_div_pow acc.toNat 8]
      exact Nat.and_two_pow_sub_one_eq_mod _ 8
    rw [UInt64.toNat_shiftRight, UInt64.toNat_and]
    refine (Nat.shiftRight_and_distrib ..).trans (hmask.trans ?_)
    omega
  have hlow : ((acc &&& (0x00ff : UInt64)) <<< 8).toNat = 2 ^ 8 * (acc.toNat % 256) := by
    have hmask : acc.toNat &&& 0x00ff = acc.toNat % 256 := Nat.and_two_pow_sub_one_eq_mod _ 8
    rw [UInt64.toNat_shiftLeft, UInt64.toNat_and]
    refine (congrArg (fun low => low <<< 8 % 2 ^ 64) hmask).trans ?_
    rw [Nat.shiftLeft_eq]
    omega
  have hlt : acc.toNat / 256 < 2 ^ 8 := by omega
  rw [UInt64.toNat_or, hhigh, hlow, Nat.or_comm, ← Nat.two_pow_add_eq_or_of_lt hlt, swapBytes]

/-- The complement, cut to 16 bits. -/
lemma toUInt16_not (h : acc.toNat ≤ 65535) :
    (~~~acc).toUInt16 = UInt16.ofNat (65535 - acc.toNat) := by
  refine UInt16.toNat_inj.mp ?_
  rw [UInt64.toNat_toUInt16, UInt64.toNat_not, UInt16.toNat_ofNat']
  have hsize : UInt64.size = 2 ^ 64 := rfl
  omega

lemma compensated_stands (h : Stands acc.toNat (byteSum (placeAfter false offset) data)) :
    Stands (compensated offset acc).toNat (byteSum false data) := by
  have hle := h.le
  rw [compensated]
  split_ifs with hodd
  · have hplace : placeAfter false offset = true := by simp [placeAfter, hodd]
    rw [toNat_swap (by omega)]
    rw [hplace] at h
    exact h.swap.congr (byteSum_not_modEq true data)
  · have hplace : placeAfter false offset = false := by simp [placeAfter, hodd]
    rwa [hplace] at h

/-- **`ip_checksum` is the checksum of the bytes**, wherever they are in memory. -/
theorem ipChecksum_eq (hlen : data.length ≤ 2 ^ 33) (vdata : ℕ) :
    ipChecksum vdata data = internetChecksum data := by
  have hacc : Accumulates 0xffff (data.length / 4 + 2) 0 := by
    refine ⟨by decide, ?_, rfl⟩
    show 65535 + _ ≤ _
    omega
  obtain ⟨y, hy, hsum, hle⟩ :=
    startBlock_spec (Nat.mod_lt vdata (by omega : 0 < 4)) (n := data.length / 4 + 1) hacc data
  obtain ⟨z, hz, hsum', hlt⟩ := completeBlocks_spec (n := 1)
    (hy.anti (Nat.add_le_add_right (Nat.div_le_div_right hle) 1))
  have hend := deferredCarries_stands (endBlock_spec (n := 0) hz hlt)
  rw [hsum', hsum, Nat.zero_add] at hend
  have hfinal := compensated_stands hend
  have hones := stands_ones.onesSum data
  rw [Nat.zero_add] at hones
  rw [internetChecksum, ← (hfinal.modEq_iff hones).mpr rfl, ← toUInt16_not hfinal.le]
  rfl

/-- Nine bytes from an odd address on. -/
theorem ipChecksum_eq_nine : ipChecksum 1003 [1, 2, 3, 4, 5, 6, 7, 8, 9]
    = internetChecksum [1, 2, 3, 4, 5, 6, 7, 8, 9] := ipChecksum_eq (by simp) 1003

end Connect

end RedAnns
