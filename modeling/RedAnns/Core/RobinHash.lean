import RedAnns.Lib.Loop
import RedAnns.Lib.RobinHood

/-!
The hash table behind `tsl::robin_set` and `tsl::robin_map` (`include/tsl/robin_hash.h`,
`include/tsl/robin_growth_policy.h`), which the searches mark visited vertices in and the caches
keep their pointers in.

* `findImpl`, `insertImpl`, `insertValue`, `rehashImpl`, `insertValueOnRehash`, `growOnHighLoad`,
  `clear`, `reserve`: the source. A loop that does not end within one round of the buckets, and a
  table that gets too large, are `none`. Distances are counted in 16 bits (`increment`).
* `roundUpToPowerOfTwo_spec`, `floatOfNat_le`: the numbers of buckets.
* `exists_probed`, `displace_spec`, `insertValueOnRehash_spec`: with at most `maxDistance` elements
  no distance overflows and every loop ends, and what it has done then.
-/

namespace RedAnns

open RobinHood

/-! ### The source -/

/-- The template parameters: how a value yields its key, the hash of a key, whether an entry stores
32 bits of it (`STORE_HASH`), and the greatest size of the vector of buckets. -/
structure Hashing (κ ν : Type*) where
  keySelect : ν → κ
  hash : κ → ℕ
  storeHash : Bool
  maxSize : ℕ

/-- `robin_hash`, with the mask of `power_of_two_growth_policy<2>`. Behind the end of the buckets is
`static_empty_bucket_ptr`. -/
structure RobinHash (ν : Type*) where
  mMask : ℕ
  mBuckets : Buckets ν
  mBucketCount : ℕ
  mNbElements : ℕ
  mLoadThreshold : ℕ
  mGrowOnNextInsert : Bool

/-- Where a probe stopped, and how far from its ideal bucket. -/
structure Probe where
  ibucket : ℕ
  distFromIdealBucket : ℤ
  found : Bool

/-- `dist_from_ideal_bucket++` on an `int_least16_t`. -/
def increment (dist : ℤ) : ℤ := (dist + 1).bmod (2 ^ 16)

/-- The greatest `distance_type`. -/
def maxDistance : ℕ := 2 ^ 15 - 1

/-- `round_up_to_power_of_two`. -/
def roundUpToPowerOfTwo (value : ℕ) : ℕ :=
  if value ≠ 0 ∧ value &&& (value - 1) = 0 then value
  else if value = 0 then 1
  else [1, 2, 4, 8, 16, 32].foldl (fun value i => value ||| value >>> i) (value - 1) + 1

/-- `float(n)`: the nearest of 24 bits, ties to even. -/
def floatOfNat (n : ℕ) : ℕ :=
  let ulp := 2 ^ (n.log2 + 1 - 24)
  if ulp < 2 * (n % ulp) ∨ ulp = 2 * (n % ulp) ∧ n / ulp % 2 = 1 then (n / ulp + 1) * ulp
  else n / ulp * ulp

namespace RobinHash

variable {κ ν : Type*} (t : RobinHash ν)

/-- `bucket_for_hash`. -/
def bucketForHash (hash : ℕ) : ℕ := hash &&& t.mMask

/-- `next_bucket`. -/
def nextBucket (index : ℕ) : ℕ := (index + 1) &&& t.mMask

/-- `set_value_of_empty_bucket`, and the bucket after `swap_with_value_in_bucket`. -/
def setBucket (i : ℕ) (dist : ℤ) (value : ν) : RobinHash ν :=
  { t with mBuckets := Function.update t.mBuckets i (some ⟨value, dist⟩) }

/-- The probing loop of `find_impl` and `insert_impl`. The loop after a rehash compares no keys. -/
def probe (isKey : ν → Bool) : ℕ → ℕ → ℤ → Option Probe
  | 0, _, _ => none
  | fuel + 1, ibucket, dist =>
      if dist ≤ distAt t.mBuckets ibucket then
        if (t.mBuckets ibucket).any (fun e => isKey e.value) then some ⟨ibucket, dist, true⟩
        else probe isKey fuel (t.nextBucket ibucket) (increment dist)
      else some ⟨ibucket, dist, false⟩

/-- `load_factor() >= REHASH_ON_HIGH_NB_PROBES__MIN_LOAD_FACTOR`, which is the `float` 0.15: the
number of buckets is a power of two, so the division is exact. -/
def highLoad : Bool :=
  t.mBucketCount ≠ 0 ∧ 5033165 * t.mBucketCount ≤ 2 ^ 25 * floatOfNat t.mNbElements

/-- The loop of `insert_value`. -/
def displace : ℕ → ℕ → ℤ → ν → RobinHash ν → Option (RobinHash ν)
  | 0, _, _, _, _ => none
  | fuel + 1, ibucket, dist, value, t =>
      match t.mBuckets ibucket with
      | none => some (t.setBucket ibucket dist value)
      | some e =>
          if e.dist < dist then
            -- a high number of probes makes the next insertion grow the table
            let grow := t.mGrowOnNextInsert || (128 ≤ dist && t.highLoad)
            displace fuel (t.nextBucket ibucket) (increment e.dist) e.value
              { t.setBucket ibucket dist value with mGrowOnNextInsert := grow }
          else displace fuel (t.nextBucket ibucket) (increment dist) value t

/-- `insert_value`: the bucket is not empty. -/
def insertValue (ibucket : ℕ) (dist : ℤ) (value : ν) : Option (RobinHash ν) :=
  (t.mBuckets ibucket).bind fun e =>
    displace (t.mMask + 1) (t.nextBucket ibucket) (increment e.dist) e.value
      (t.setBucket ibucket dist value)

/-- `insert_value_on_rehash`. -/
def insertValueOnRehash : ℕ → ℕ → ℤ → ν → RobinHash ν → Option (RobinHash ν)
  | 0, _, _, _, _ => none
  | fuel + 1, ibucket, dist, value, t =>
      if distAt t.mBuckets ibucket < dist then
        match t.mBuckets ibucket with
        | none => some (t.setBucket ibucket dist value)
        | some e =>
            insertValueOnRehash fuel (t.nextBucket ibucket) (increment e.dist) e.value
              (t.setBucket ibucket dist value)
      else insertValueOnRehash fuel (t.nextBucket ibucket) (increment dist) value t

variable (h : Hashing κ ν)

/-- The constructor. The maximal load factor is 0.5. -/
def new (bucketCount : ℕ) : Option (RobinHash ν) :=
  let count := if bucketCount = 0 then 0 else roundUpToPowerOfTwo bucketCount
  if 2 ^ 63 < bucketCount ∨ min (2 ^ 63) h.maxSize < count then none
  else some ⟨count - 1, fun _ => none, count, 0, count / 2, false⟩

/-- `USE_STORED_HASH_ON_REHASH`, for a policy of powers of two. -/
def useStoredHashOnRehash (bucketCount : ℕ) : Bool :=
  h.storeHash && decide (0 < bucketCount ∧ bucketCount - 1 ≤ 2 ^ 32 - 1)

/-- The hash of a value that `rehash_impl` uses: the stored one is `truncate_hash` of the other. -/
def hashOnRehash (bucketCount : ℕ) (value : ν) : ℕ :=
  if useStoredHashOnRehash h bucketCount then h.hash (h.keySelect value) % 2 ^ 32
  else h.hash (h.keySelect value)

/-- A round of the loop of `rehash_impl`, over the buckets of the old table. -/
def moveBucket (newTable : RobinHash ν) : Option (Entry ν) → Option (RobinHash ν)
  | none => some newTable
  | some e =>
      insertValueOnRehash (newTable.mMask + 1)
        (newTable.bucketForHash (hashOnRehash h newTable.mBucketCount e.value)) 0 e.value newTable

/-- `rehash_impl`. -/
def rehashImpl (count : ℕ) : Option (RobinHash ν) :=
  (new h count).bind fun newTable =>
    ((List.range t.mBucketCount).foldlM (fun s i => moveBucket h s (t.mBuckets i)) newTable).map
      fun s : RobinHash ν => { s with mNbElements := t.mNbElements }

/-- `rehash`. -/
def rehash (count : ℕ) : Option (RobinHash ν) :=
  t.rehashImpl h (max count (2 * floatOfNat t.mNbElements))

/-- `reserve`. -/
def reserve (count : ℕ) : Option (RobinHash ν) := t.rehash h (2 * floatOfNat count)

/-- `next_bucket_count`. -/
def nextBucketCount : Option ℕ :=
  if 2 ^ 63 / 2 < t.mMask + 1 then none else some ((t.mMask + 1) * 2)

/-- `grow_on_high_load`: the table after it, if it has grown. -/
def growOnHighLoad : Option (Option (RobinHash ν)) :=
  if t.mGrowOnNextInsert ∨ t.mLoadThreshold ≤ t.mNbElements then
    t.nextBucketCount.bind fun count => (t.rehashImpl h count).map some
  else some none

/-- The end of `insert_impl`, from the bucket for the value on. -/
def insertAt (p : Probe) (value : ν) : Option (RobinHash ν × ℕ × Bool) :=
  (if (t.mBuckets p.ibucket).isNone then
      some (t.setBucket p.ibucket p.distFromIdealBucket value)
    else t.insertValue p.ibucket p.distFromIdealBucket value).map
    fun s : RobinHash ν => ({ s with mNbElements := s.mNbElements + 1 }, p.ibucket, true)

/-- The rest of `insert_impl` for a new key; a table that has grown is probed again. -/
def insertNew (hash : ℕ) (p : Probe) (value : ν) :
    Option (RobinHash ν) → Option (RobinHash ν × ℕ × Bool)
  | none => t.insertAt p value
  | some s =>
      (s.probe (fun _ => false) (s.mMask + 1) (s.bucketForHash hash) 0).bind
        fun p => s.insertAt p value

variable [DecidableEq κ]

/-- The key comparison of a lookup. -/
def isKey (key : κ) (value : ν) : Bool := h.keySelect value = key

/-- `find_impl`: the bucket of a key, `cend()` being `none`. -/
def findImpl (key : κ) : Option (Option ℕ) :=
  (t.probe (isKey h key) (t.mMask + 1) (t.bucketForHash (h.hash key)) 0).map
    fun p => if p.found then some p.ibucket else none

/-- `insert_impl`: the table, the bucket of the key, and whether it is new. -/
def insertImpl (value : ν) : Option (RobinHash ν × ℕ × Bool) :=
  let hash := h.hash (h.keySelect value)
  (t.probe (isKey h (h.keySelect value)) (t.mMask + 1) (t.bucketForHash hash) 0).bind fun p =>
    if p.found then some (t, p.ibucket, false)
    else (t.growOnHighLoad h).bind (t.insertNew hash p value)

/-- `clear`. -/
def clear : RobinHash ν :=
  { t with mBuckets := fun _ => none, mNbElements := 0, mGrowOnNextInsert := false }

/-- The value in a bucket. -/
def valueAt (i : ℕ) : Option ν := (t.mBuckets i).map Entry.value

/-- `iterator::value() = …`: the value in a bucket is changed, and its key is not. -/
def mapBucket (i : ℕ) (f : ν → ν) : RobinHash ν :=
  { t with
    mBuckets := Function.update t.mBuckets i
      ((t.mBuckets i).map fun e => { e with value := f e.value }) }

/-- A lookup: the value of a key. -/
def find (key : κ) : Option (Option ν) := (t.findImpl h key).map fun i => i.bind t.valueAt

end RobinHash

/-! ### Powers of two, floats and the circle of buckets -/

/-- The ideal bucket of a value under a mask. -/
def Hashing.ideal {κ ν : Type*} (h : Hashing κ ν) (mask : ℕ) (v : ν) : ℕ :=
  h.hash (h.keySelect v) &&& mask

/-- Every bit of `y` is set that has a set bit of `x` among the `k` from it on. -/
def Smeared (x k y : ℕ) : Prop := ∀ j, y.testBit j = true ↔ ∃ i < k, x.testBit (j + i) = true

lemma Smeared.double {x k y : ℕ} (h : Smeared x k y) : Smeared x (k + k) (y ||| y >>> k) := by
  intro j
  rw [Nat.testBit_or, Nat.testBit_shiftRight, Bool.or_eq_true, h, h]
  constructor
  · rintro (⟨i, hi, hbit⟩ | ⟨i, hi, hbit⟩)
    · exact ⟨i, by omega, hbit⟩
    · exact ⟨k + i, by omega, by rwa [← Nat.add_assoc, Nat.add_comm j k]⟩
  · rintro ⟨i, hi, hbit⟩
    by_cases hik : i < k
    · exact Or.inl ⟨i, hik, hbit⟩
    · refine Or.inr ⟨i - k, by omega, ?_⟩
      rwa [show k + j + (i - k) = j + i by omega]

lemma smeared_one (x : ℕ) : Smeared x 1 x := fun j => by simp

/-- `round_up_to_power_of_two`. -/
lemma roundUpToPowerOfTwo_spec {value : ℕ} (h : value ≤ 2 ^ 63) :
    ∃ n, roundUpToPowerOfTwo value = 2 ^ n ∧ value ≤ 2 ^ n ∧ 2 ^ n ≤ max 1 (2 * value - 1) := by
  rw [roundUpToPowerOfTwo]
  split_ifs with hpow hzero
  · obtain ⟨n, hn⟩ := Nat.ne_zero_and_sub_one_eq_zero_iff_isPowerOfTwo.mp hpow
    exact ⟨n, hn, hn.le, by omega⟩
  · exact ⟨0, rfl, by omega, by omega⟩
  · have hne : value - 1 ≠ 0 := fun h0 => hpow ⟨hzero, by rw [h0, Nat.and_zero]⟩
    have hsmeared : Smeared (value - 1) 64
        ([1, 2, 4, 8, 16, 32].foldl (fun value i => value ||| value >>> i) (value - 1)) :=
      (smeared_one _).double.double.double.double.double.double
    refine ⟨(value - 1).log2 + 1, ?_, ?_, ?_⟩
    · have hlog : (value - 1).log2 < 63 := (Nat.log2_lt hne).mpr (by omega)
      have hsmear : [1, 2, 4, 8, 16, 32].foldl (fun value i => value ||| value >>> i) (value - 1)
          = 2 ^ ((value - 1).log2 + 1) - 1 := by
        refine Nat.eq_of_testBit_eq fun j => Bool.eq_iff_iff.mpr ?_
        rw [hsmeared j, Nat.testBit_two_pow_sub_one, decide_eq_true_iff]
        constructor
        · rintro ⟨i, -, hbit⟩
          by_contra hj
          rw [Nat.testBit_lt_two_pow (lt_of_lt_of_le Nat.lt_log2_self
            (Nat.pow_le_pow_right Nat.two_pos (show _ ≤ j + i by omega)))] at hbit
          exact Bool.false_ne_true hbit
        · intro hj
          exact ⟨(value - 1).log2 - j, by omega, by
            rw [Nat.add_sub_cancel' (by omega)]; exact Nat.testBit_log2 hne⟩
      rw [hsmear, Nat.sub_add_cancel Nat.one_le_two_pow]
    · have := Nat.lt_log2_self (n := value - 1)
      omega
    · have := Nat.log2_self_le hne
      rw [pow_succ]
      omega

/-- What is at most a power of two stays so when it is rounded up. -/
lemma roundUpToPowerOfTwo_le {value k : ℕ} (h : value ≤ 2 ^ k) (hk : k ≤ 63) :
    roundUpToPowerOfTwo value ≤ 2 ^ k := by
  obtain ⟨n, hn, -, hle⟩ :=
    roundUpToPowerOfTwo_spec (h.trans (Nat.pow_le_pow_right Nat.two_pos hk))
  rw [hn]
  refine Nat.pow_le_pow_right Nat.two_pos (Nat.lt_succ_iff.mp ?_)
  refine (Nat.pow_lt_pow_iff_right Nat.one_lt_two).mp ?_
  have := Nat.one_le_two_pow (n := k)
  rw [Nat.succ_eq_add_one, pow_succ]
  omega

lemma floatOfNat_eq {n : ℕ} (h : n < 2 ^ 24) : floatOfNat n = n := by
  have hlog : n.log2 < 24 := by
    by_cases h0 : n = 0
    · rw [h0]; decide
    · exact (Nat.log2_lt h0).mpr h
  rw [floatOfNat, Nat.sub_eq_zero_of_le (by omega)]
  simp [Nat.mod_one]

/-- What is at most a power of two stays so as a `float`. -/
lemma floatOfNat_le {n k : ℕ} (h : n ≤ 2 ^ k) : floatOfNat n ≤ 2 ^ k := by
  rcases Nat.eq_zero_or_pos n with rfl | hpos
  · exact (floatOfNat_eq (by omega)).le.trans (Nat.zero_le _)
  set e := n.log2 + 1 - 24 with he
  have hek : e ≤ k := by
    have hlog : n.log2 ≤ k := by
      have h1 := (Nat.log2_self_le (by omega : n ≠ 0)).trans h
      exact (Nat.pow_le_pow_iff_right Nat.one_lt_two).mp h1
    omega
  have hsplit : 2 ^ k = 2 ^ (k - e) * 2 ^ e := by rw [← pow_add, Nat.sub_add_cancel hek]
  have hdivmod := Nat.div_add_mod n (2 ^ e)
  rw [Nat.mul_comm] at hdivmod
  rw [floatOfNat, ← he]
  split_ifs with hup
  · -- what is rounded up was not a multiple of the unit, so the next one is not beyond either
    have hlt : n / 2 ^ e * 2 ^ e < 2 ^ (k - e) * 2 ^ e := by
      have := Nat.two_pow_pos e
      omega
    rw [hsplit]
    exact Nat.mul_le_mul_right _ (Nat.lt_of_mul_lt_mul_right hlt)
  · omega

lemma increment_eq {d : ℕ} (h : d < maxDistance) : increment d = (d + 1 : ℕ) := by
  rw [maxDistance] at h
  rw [increment, Int.bmod_eq_of_le] <;> push_cast <;> omega

namespace RobinHash

variable {κ ν : Type*} {h : Hashing κ ν} {t t' : RobinHash ν} {M start d k i : ℕ}

lemma and_mask (hpow : ∃ n, t.mMask + 1 = 2 ^ n) (x : ℕ) : x &&& t.mMask = x % (t.mMask + 1) := by
  obtain ⟨n, hn⟩ := hpow
  rw [hn, ← Nat.and_two_pow_sub_one_eq_mod, ← hn, Nat.add_sub_cancel]

lemma nextBucket_eq (hpow : ∃ n, t.mMask + 1 = 2 ^ n) (i : ℕ) :
    t.nextBucket i = (i + 1) % (t.mMask + 1) := and_mask hpow _

lemma ideal_lt (hpow : ∃ n, t.mMask + 1 = 2 ^ n) (v : ν) : h.ideal t.mMask v < t.mMask + 1 := by
  rw [Hashing.ideal, and_mask hpow]
  exact Nat.mod_lt _ (Nat.succ_pos _)

/-- The stored hash of a value leads to its ideal bucket too. -/
lemma bucketForHash_hashOnRehash (hpow : ∃ n, t.mMask + 1 = 2 ^ n)
    (hcount : t.mBucketCount = t.mMask + 1 ∨ t.mBucketCount = 0 ∧ t.mMask = 0) (v : ν) :
    t.bucketForHash (hashOnRehash h t.mBucketCount v) = h.ideal t.mMask v := by
  rw [hashOnRehash]
  split_ifs with hstored
  · rw [useStoredHashOnRehash, Bool.and_eq_true, decide_eq_true_iff] at hstored
    obtain ⟨-, hpos, hle⟩ := hstored
    obtain ⟨n, hn⟩ := hpow
    have hdvd : t.mMask + 1 ∣ 2 ^ 32 := by
      rw [hn]
      exact Nat.pow_dvd_pow 2 ((Nat.pow_le_pow_iff_right Nat.one_lt_two).mp (by omega))
    rw [bucketForHash, Hashing.ideal, and_mask ⟨n, hn⟩, and_mask ⟨n, hn⟩,
      Nat.mod_mod_of_dvd _ hdvd]
  · rfl

/-! ### Probes -/

/-- What a probe from `start` that stopped after `n` buckets has seen. -/
structure Probed (b : Buckets ν) (M start : ℕ) (isKey : ν → Bool) (n : ℕ) (p : Probe) : Prop where
  ibucket : p.ibucket = (start + n) % M
  dist : p.distFromIdealBucket = n
  crowded : Crowded b M start n
  passed : ∀ j < n, ∀ e, b ((start + j) % M) = some e → isKey e.value = false
  hit : p.found = true → ∃ e, b p.ibucket = some e ∧ isKey e.value = true
  stopped : p.found = false → distAt b p.ibucket < n

/-- **A probe stops**, within one round of the buckets and before a distance overflows. -/
lemma exists_probed (hpow : ∃ n, t.mMask + 1 = 2 ^ n)
    (hlt : (values t.mBuckets (t.mMask + 1)).card < t.mMask + 1)
    (hmax : (values t.mBuckets (t.mMask + 1)).card ≤ maxDistance) (isKey : ν → Bool) {fuel : ℕ}
    (hfuel : t.mMask + 1 ≤ fuel + d) (hc : Crowded t.mBuckets (t.mMask + 1) start d)
    (hpassed : ∀ j < d, ∀ e, t.mBuckets ((start + j) % (t.mMask + 1)) = some e →
      isKey e.value = false) :
    ∃ p n, t.probe isKey fuel ((start + d) % (t.mMask + 1)) d = some p ∧
      Probed t.mBuckets (t.mMask + 1) start isKey n p := by
  induction fuel generalizing d with
  | zero =>
      have := hc.le_card hlt
      omega
  | succ fuel ih =>
      rw [probe]
      split_ifs with hle hkey
      · refine ⟨_, d, rfl, rfl, rfl, hc, hpassed, fun _ => ?_, fun hf => absurd hf (by simp)⟩
        rwa [Option.any_eq_true] at hkey
      · have hc' := hc.succ hle
        have hd := (hc'.le_card hlt).trans hmax
        rw [increment_eq (by omega), nextBucket_eq hpow, Nat.mod_add_mod, Nat.add_assoc]
        refine ih (by omega) hc' fun j hj e hb => ?_
        rcases Nat.lt_succ_iff_lt_or_eq.mp hj with hj | rfl
        · exact hpassed j hj e hb
        · rw [hb] at hkey
          simpa using hkey
      · exact ⟨_, d, rfl, rfl, rfl, hc, hpassed, fun hf => absurd hf (by simp), fun _ =>
          not_le.mp hle⟩

/-! ### Displacement -/

/-- Two tables that differ in their buckets and in `mGrowOnNextInsert` only. -/
structure SameShape (t t' : RobinHash ν) : Prop where
  mMask : t'.mMask = t.mMask
  mBucketCount : t'.mBucketCount = t.mBucketCount
  mNbElements : t'.mNbElements = t.mNbElements
  mLoadThreshold : t'.mLoadThreshold = t.mLoadThreshold

lemma sameShape_setBucket (t : RobinHash ν) (i : ℕ) (dist : ℤ) (value : ν) :
    SameShape t (t.setBucket i dist value) := ⟨rfl, rfl, rfl, rfl⟩

lemma SameShape.trans {t'' : RobinHash ν} (h : SameShape t t') (h' : SameShape t' t'') :
    SameShape t t'' :=
  ⟨h'.mMask.trans h.mMask, h'.mBucketCount.trans h.mBucketCount,
    h'.mNbElements.trans h.mNbElements, h'.mLoadThreshold.trans h.mLoadThreshold⟩

lemma SameShape.highLoad (h : SameShape t t') : t'.highLoad = t.highLoad := by
  rw [RobinHash.highLoad, RobinHash.highLoad, h.mBucketCount, h.mNbElements]

/-- A value moves on without an overflow. -/
lemma increment_of_crowded {b : Buckets ν} (hc : Crowded b M start (d + 1))
    (hlt : (values b M).card < M) (hmax : (values b M).card ≤ maxDistance) :
    increment d = (d + 1 : ℕ) :=
  increment_eq (Nat.lt_of_succ_le ((hc.le_card hlt).trans hmax))

/-- The number of values while one is carried. -/
lemma card_update {b : Buckets ν} {e e₀ : Entry ν} (hi : i < M) (hb : b i = some e₀) :
    (values (Function.update b i (some e)) M).card = (values b M).card := by
  have := congrArg Multiset.card (values_update_of_some (e := e) hi hb)
  rwa [Multiset.card_cons, Multiset.card_cons, Nat.add_right_cancel_iff] at this

/-- **The loop of `insert_value`** finds a bucket for the value it carries. -/
lemma displace_spec (hpow : ∃ n, t.mMask + 1 = 2 ^ n)
    (hlt : (values t.mBuckets (t.mMask + 1)).card < t.mMask + 1)
    (hmax : (values t.mBuckets (t.mMask + 1)).card ≤ maxDistance) {v : ν}
    (hc : Carrying (h.ideal t.mMask) (t.mMask + 1) t.mBuckets i v d k) {fuel : ℕ}
    (hfuel : k < fuel) :
    ∃ t', displace fuel i d v t = some t' ∧ SameShape t t' ∧
      Settled (h.ideal t.mMask) (t.mMask + 1) t.mBuckets i v k t'.mBuckets ∧
      (t'.mGrowOnNextInsert = true → t.mGrowOnNextInsert = true ∨ t.highLoad = true) := by
  induction fuel generalizing t i v d k with
  | zero => exact absurd hfuel (Nat.not_lt_zero k)
  | succ fuel ih =>
      rw [displace]
      cases hb : t.mBuckets i with
      | none => exact ⟨_, rfl, sameShape_setBucket t i d v, hc.place hb, Or.inl⟩
      | some e =>
          dsimp only
          split_ifs with hdist
          · obtain ⟨n, k', hn, rfl, hc'⟩ := hc.swap hb hdist
            have hcard := card_update (e := ⟨v, d⟩) hc.index_lt hb
            rw [hn, increment_of_crowded hc'.crowded (hcard ▸ hlt) (hcard ▸ hmax),
              nextBucket_eq hpow]
            set grow := t.mGrowOnNextInsert || (128 ≤ (d : ℤ) && t.highLoad)
            obtain ⟨t', heq, hsame, hset, hgrow⟩ :=
              ih (t := { t.setBucket i d v with mGrowOnNextInsert := grow }) hpow (hcard ▸ hlt)
                (hcard ▸ hmax) hc' (by omega)
            refine ⟨t', heq, ⟨hsame.1, hsame.2, hsame.3, hsame.4⟩, hset.of_swap hc.index_lt hb,
              fun h => ?_⟩
            rcases hgrow h with h | h
            · simp only [grow, Bool.or_eq_true, Bool.and_eq_true] at h
              exact h.imp_right And.right
            · exact Or.inr h
          · have hle : (d : ℤ) ≤ distAt t.mBuckets i := by
              rw [distAt_of_some hb]
              exact not_lt.mp hdist
            obtain ⟨k', rfl, hc'⟩ := hc.skip hle
            rw [increment_of_crowded hc'.crowded hlt hmax, nextBucket_eq hpow]
            obtain ⟨t', heq, hsame, hset, hgrow⟩ := ih hpow hlt hmax hc' (by omega)
            exact ⟨t', heq, hsame, hset.of_skip, hgrow⟩

/-- **`insert_value_on_rehash`** finds a bucket for the value. -/
lemma insertValueOnRehash_spec (hpow : ∃ n, t.mMask + 1 = 2 ^ n)
    (hlt : (values t.mBuckets (t.mMask + 1)).card < t.mMask + 1)
    (hmax : (values t.mBuckets (t.mMask + 1)).card ≤ maxDistance) {v : ν}
    (hc : Carrying (h.ideal t.mMask) (t.mMask + 1) t.mBuckets i v d k) {fuel : ℕ}
    (hfuel : k < fuel) :
    ∃ t', insertValueOnRehash fuel i d v t = some t' ∧ SameShape t t' ∧
      Settled (h.ideal t.mMask) (t.mMask + 1) t.mBuckets i v k t'.mBuckets ∧
      t'.mGrowOnNextInsert = t.mGrowOnNextInsert := by
  induction fuel generalizing t i v d k with
  | zero => exact absurd hfuel (Nat.not_lt_zero k)
  | succ fuel ih =>
      rw [insertValueOnRehash]
      split_ifs with hdist
      · cases hb : t.mBuckets i with
        | none => exact ⟨_, rfl, sameShape_setBucket t i d v, hc.place hb, rfl⟩
        | some e =>
            rw [distAt_of_some hb] at hdist
            obtain ⟨n, k', hn, rfl, hc'⟩ := hc.swap hb hdist
            have hcard := card_update (e := ⟨v, d⟩) hc.index_lt hb
            dsimp only
            rw [hn, increment_of_crowded hc'.crowded (hcard ▸ hlt) (hcard ▸ hmax),
              nextBucket_eq hpow]
            obtain ⟨t', heq, hsame, hset, hgrow⟩ :=
              ih (t := t.setBucket i d v) hpow (hcard ▸ hlt) (hcard ▸ hmax) hc' (by omega)
            exact ⟨t', heq, (sameShape_setBucket t i d v).trans hsame,
              hset.of_swap hc.index_lt hb, hgrow⟩
      · obtain ⟨k', rfl, hc'⟩ := hc.skip (not_lt.mp hdist)
        rw [increment_of_crowded hc'.crowded hlt hmax, nextBucket_eq hpow]
        obtain ⟨t', heq, hsame, hset, hgrow⟩ := ih hpow hlt hmax hc' (by omega)
        exact ⟨t', heq, hsame, hset.of_skip, hgrow⟩

end RobinHash

end RedAnns
