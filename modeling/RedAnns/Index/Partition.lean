import Mathlib.Data.Int.CardIntervalMod
import RedAnns.Index.Matching

/-!
The partition of the learn vertices: `MaximumWeightMatch` of `include/hungary.h`.

There is a slot for every row of the table, the slots belong to the buckets in turn, and a row is
worth in a slot what it is worth in the bucket of it. So a best matching of rows and slots is a best
assignment of rows to buckets among those that fill the buckets evenly.

* `maximumWeightMatch`: the source. The number of columns becomes an `int`, and `width` is what
  `slot % bucket_count` divides by.
* `maximumWeightMatch_eq`: what it returns, from a best matching.
* `partitionsEvenly_iff`: when it finds a best balanced partition.
-/

namespace RedAnns

namespace Hungary

open Assignment

/-! ### The program -/

/-- `MAXN`. -/
def maxN : ℕ := 100000

/-- Why `MaximumWeightMatch` does not return. -/
inductive Failure
  | fault (why : Fault)
  | divisionByZero
  | threw (what : String)

/-- `_learn_in_bucket` and `_learn_local_ratio`. -/
structure Learned (n : ℕ) (F : Type) where
  learnInBucket : Fin n → UInt32
  learnLocalRatio : Fin n → F

/-- `int bucket_count = data_affinity[0].size()`. -/
def intBucketCount (b : ℕ) : ℤ := (b : ℤ).bmod (2 ^ 32)

/-- The conversion of an `unsigned` to an `int`. -/
def toInt (x : UInt32) : ℤ := (x.toNat : ℤ).bmod (2 ^ 32)

/-- `slot % bucket_count`, as the index of a column. -/
def slotBucket (b slot : ℕ) : Except Failure (Fin b) :=
  if intBucketCount b = 0 then throw .divisionByZero
  else
    let bucketId := ((slot : ℤ).tmod (intBucketCount b)).toNat
    if h : bucketId < b then return ⟨bucketId, h⟩ else throw (.fault .outOfBounds)

section Program

variable {n b : ℕ} {F : Type} [DecidableEq F] (toFloat : ℤ → F)
  (dataAffinity : Fin n → Fin b → UInt32)

/-- The loops that fill `weight`. -/
def fillWeights (s : State n) : Except Failure (State n) := do
  let weight ← updateEach (fun qid row => updateEach (fun (slot : Fin n) _ => do
      let bucketId ← slotBucket b slot
      return toInt (dataAffinity qid bucketId)) (List.finRange n) row) (List.finRange n) s.weight
  return { s with weight }

/-- The body of the loop over the slots at the end. -/
def writeSlot (s : State n) (out : Learned n F) (slot : Fin n) : Except Failure (Learned n F) :=
  match s.mate slot with
  | none => throw (.threw "HungaryMatch Error")
  | some qid => do
      let bucketId ← slotBucket b slot
      let ratio := toFloat (s.weight qid slot)
      if ratio ≠ toFloat (dataAffinity qid bucketId).toNat then throw (.threw "HungaryMatch Error")
      else return {
        learnInBucket := Function.update out.learnInBucket qid (UInt32.ofNat bucketId)
        learnLocalRatio := Function.update out.learnLocalRatio qid ratio }

/-- `MaximumWeightMatch` for a table of `n` rows and `b` columns, on the globals `s`. -/
def maximumWeightMatch (s : State n) (out : Learned n F) : Except Failure (Learned n F) := do
  if maxN < n then throw (.threw "HungaryMatch Error: n > MAXN")
  let s ← fillWeights dataAffinity s
  let (_, s) ← (hungaryMatch true s).mapError .fault
  (List.finRange n).foldlM (writeSlot toFloat dataAffinity s) out

end Program

/-! ### The buckets of the slots -/

/-- What `slot % bucket_count` divides by. -/
def width (b : ℕ) : ℕ := (intBucketCount b).natAbs

lemma width_eq {b : ℕ} (h : b < 2 ^ 31) : width b = b := by
  have hb : intBucketCount b = b := Int.bmod_eq_of_le (by omega) (by omega)
  rw [width, hb]
  rfl

lemma width_le (b : ℕ) : width b ≤ b := by
  rcases Nat.lt_or_ge b (2 ^ 31) with h | h
  · exact (width_eq h).le
  · have hlo : -(2 ^ 31) ≤ intBucketCount b := Int.le_bmod (by norm_num)
    have hhi : intBucketCount b < 2 ^ 31 := Int.bmod_lt (by norm_num)
    rw [width]
    omega

variable {n b : ℕ}

/-- The bucket of a slot. -/
def bucketOf (hw : 0 < width b) (slot : ℕ) : Fin b :=
  ⟨slot % width b, (Nat.mod_lt slot hw).trans_le (width_le b)⟩

lemma slotBucket_eq (hw : 0 < width b) (slot : ℕ) : slotBucket b slot = .ok (bucketOf hw slot) := by
  have hmod : ((slot : ℤ).tmod (intBucketCount b)).toNat = slot % width b := by
    rw [Int.tmod_eq_emod_of_nonneg (Int.natCast_nonneg slot), ← Int.emod_abs, Int.abs_eq_natAbs,
      ← Int.natCast_mod, Int.toNat_natCast, width]
  have hlt : slot % width b < b := (bucketOf hw slot).isLt
  have hne : intBucketCount b ≠ 0 := Int.natAbs_pos.mp hw
  rw [slotBucket, if_neg hne]
  simp only [hmod, dif_pos hlt]
  rfl

lemma slotBucket_of_width_eq_zero (hw : width b = 0) (slot : ℕ) :
    slotBucket b slot = .error .divisionByZero := if_pos (Int.natAbs_eq_zero.mp hw)

/-! ### What the loops leave -/

section Loops

variable {F : Type} [DecidableEq F] (toFloat : ℤ → F) (dataAffinity : Fin n → Fin b → UInt32)

/-- The matrix of rows and slots. -/
def slotWeights (hw : 0 < width b) (u v : Fin n) : ℤ := (dataAffinity u (bucketOf hw v)).toNat

variable {dataAffinity}

lemma toInt_eq {x : UInt32} (h : x.toNat ≤ 2 ^ 28) : toInt x = x.toNat :=
  Int.bmod_eq_of_le (by omega) (by omega)

lemma fillWeights_eq (hw : 0 < width b) (hsmall : ∀ u j, (dataAffinity u j).toNat ≤ 2 ^ 28)
    (s : State n) :
    fillWeights dataAffinity s = .ok { s with weight := slotWeights dataAffinity hw } := by
  have hrow : ∀ (qid : Fin n) (row : Fin n → ℤ), updateEach (fun (slot : Fin n) _ => do
      let bucketId ← slotBucket b slot
      return toInt (dataAffinity qid bucketId)) (List.finRange n) row
        = .ok (slotWeights dataAffinity hw qid) := fun qid row =>
    updateEach_finRange fun slot => by
      rw [slotBucket_eq hw]
      show Except.ok (toInt (dataAffinity qid (bucketOf hw slot))) = _
      rw [toInt_eq (hsmall qid _), slotWeights]
  rw [fillWeights, updateEach_finRange fun qid => hrow qid (s.weight qid)]
  rfl

/-- What the loop at the end makes of an assignment of the slots. -/
def learned (hw : 0 < width b) (dataAffinity : Fin n → Fin b → UInt32) (p : Fin n ≃ Fin n) :
    Learned n F where
  learnInBucket := fun u => UInt32.ofNat (bucketOf hw (p.symm u))
  learnLocalRatio := fun u => toFloat (dataAffinity u (bucketOf hw (p.symm u))).toNat

/-- **The loop over the slots** writes every row once. -/
lemma foldlM_writeSlot (hw : 0 < width b) {s : State n} {p : Fin n ≃ Fin n}
    (hmate : ∀ v, s.mate v = some (p v)) (hweight : s.weight = slotWeights dataAffinity hw)
    (out : Learned n F) :
    (List.finRange n).foldlM (writeSlot toFloat dataAffinity s) out
      = .ok (learned toFloat hw dataAffinity p) := by
  obtain ⟨out', hout, hwritten⟩ := foldlM_finRange
    (I := fun k (out : Learned n F) => ∀ u, (p.symm u).val < k →
      out.learnInBucket u = (learned toFloat hw dataAffinity p).learnInBucket u ∧
        out.learnLocalRatio u = (learned toFloat hw dataAffinity p).learnLocalRatio u)
    (f := writeSlot toFloat dataAffinity s)
    (fun v out hout => by
      refine ⟨⟨Function.update out.learnInBucket (p v) (UInt32.ofNat (bucketOf hw v)),
        Function.update out.learnLocalRatio (p v)
          (toFloat (dataAffinity (p v) (bucketOf hw v)).toNat)⟩, ?_, fun u hu => ?_⟩
      · simp only [writeSlot, hmate v, slotBucket_eq hw, hweight, slotWeights]
        show (if toFloat _ ≠ toFloat _ then _ else _) = _
        rw [if_neg (not_not.mpr rfl)]
        rfl
      · by_cases heq : u = p v
        · subst heq
          simp [learned]
        · have hlt : (p.symm u).val < v.val := by
            have hne : (p.symm u).val ≠ v.val := fun h =>
              heq ((Equiv.symm_apply_eq p).mp (Fin.ext h))
            omega
          simp only [Function.update_of_ne heq]
          exact hout u hlt)
    (s := out) (fun u hu => absurd hu (Nat.not_lt_zero _))
  rw [hout]
  have hb : out'.learnInBucket = _ := funext fun u => (hwritten u (p.symm u).isLt).1
  have hr : out'.learnLocalRatio = _ := funext fun u => (hwritten u (p.symm u).isLt).2
  exact congrArg Except.ok (by cases out'; simp only at hb hr; rw [hb, hr])

/-- **What `MaximumWeightMatch` returns**: the buckets of a best matching of rows and slots, unless
the sum of the matching overflows. -/
theorem maximumWeightMatch_eq (hn : n ≤ maxN) (hw : 0 < width b)
    (hsmall : ∀ u j, (dataAffinity u j).toNat ≤ 2 ^ 28) (s : State n) (out : Learned n F) :
    ∃ p : Fin n ≃ Fin n, (∀ q, total (slotWeights dataAffinity hw) q
        ≤ total (slotWeights dataAffinity hw) p) ∧
      maximumWeightMatch toFloat dataAffinity s out
        = ((sumAlong (slotWeights dataAffinity hw) p).mapError .fault).map
            fun _ => learned toFloat hw dataAffinity p := by
  obtain ⟨s', p, hmatch, hweight, hp, hbest⟩ :=
    hungaryMatch_max (s := { s with weight := slotWeights dataAffinity hw }) fun u v => by
      have := hsmall u (bucketOf hw v)
      show -2 ^ 28 ≤ ((dataAffinity u (bucketOf hw v)).toNat : ℤ) ∧
        ((dataAffinity u (bucketOf hw v)).toNat : ℤ) ≤ 2 ^ 28
      omega
  refine ⟨p, hbest, ?_⟩
  rw [maximumWeightMatch, if_neg (by omega), fillWeights_eq hw hsmall]
  show ((hungaryMatch true { s with weight := slotWeights dataAffinity hw }).mapError .fault
    >>= fun r => (List.finRange n).foldlM (writeSlot toFloat dataAffinity r.2) out) = _
  rw [hmatch]
  cases sumAlong (slotWeights dataAffinity hw) p with
  | error why => rfl
  | ok sum => exact foldlM_writeSlot toFloat hw hp hweight out

end Loops

/-! ### The partition -/

/-- How many of `n` slots belong to a bucket. -/
def slots (n : ℕ) (j : Fin b) : ℕ := (Finset.univ.filter fun s : Fin n => s.val % b = j).card

lemma slots_eq (n : ℕ) (j : Fin b) : slots n j = n / b + if j.val < n % b then 1 else 0 := by
  have hb : 0 < b := j.pos
  have hmod : ∀ s, s ≡ j [MOD b] ↔ s % b = j := fun s => by
    rw [Nat.ModEq, Nat.mod_eq_of_lt j.isLt]
  have hcount := Nat.count_modEq_card n hb j
  rw [Nat.mod_eq_of_lt j.isLt, Nat.count_eq_card_filter_range, Finset.card_filter] at hcount
  rw [slots, Finset.card_filter, ← hcount,
    Fin.sum_univ_eq_sum_range (fun s => if s % b = j.val then 1 else 0) n]
  simp only [hmod]

lemma slots_le (n : ℕ) (j j' : Fin b) : slots n j ≤ slots n j' + 1 := by
  rw [slots_eq, slots_eq]
  split_ifs <;> omega

/-- An assignment fills the buckets as the slots do. -/
def Even (f : Fin n → Fin b) : Prop := ∀ j, load f j = slots n j

/-- The worth of an assignment. -/
def affinity (dataAffinity : Fin n → Fin b → UInt32) (f : Fin n → Fin b) : ℕ :=
  ∑ u, (dataAffinity u (f u)).toNat

/-- The tables that `HungaryMatch` supports: small entries, and sums of type `int`. -/
structure Supported (dataAffinity : Fin n → Fin b → UInt32) : Prop where
  entry : ∀ u j, (dataAffinity u j).toNat ≤ 2 ^ 28
  sum : ∀ f, Even f → affinity dataAffinity f < 2 ^ 31

/-- **What is asked of the partition**: every row has one bucket, the buckets are filled evenly, no
other such assignment is worth more, and a row is stored with its affinity. -/
structure PartitionsEvenly {F : Type} (toFloat : ℤ → F) (dataAffinity : Fin n → Fin b → UInt32)
    (out : Learned n F) (f : Fin n → Fin b) : Prop where
  bucket : ∀ u, (out.learnInBucket u).toNat = f u
  size : Even f
  balanced : ∀ j j', load f j ≤ load f j' + 1
  best : ∀ f', Even f' → affinity dataAffinity f' ≤ affinity dataAffinity f
  ratio : ∀ u, out.learnLocalRatio u = toFloat (dataAffinity u (f u)).toNat

section Partition

variable {F : Type} [DecidableEq F] (toFloat : ℤ → F) {dataAffinity : Fin n → Fin b → UInt32}

/-- An assignment that goes along a matching is worth what the matching weighs. -/
lemma total_slotWeights (hw : 0 < width b) {f : Fin n → Fin b} {p : Fin n ≃ Fin n}
    (h : ∀ v : Fin n, f (p v) = bucketOf hw v) :
    total (slotWeights dataAffinity hw) p = affinity dataAffinity f := by
  rw [affinity, ← Equiv.sum_comp p, Nat.cast_sum]
  refine Finset.sum_congr rfl fun v _ => ?_
  rw [h, slotWeights]

/-- The partial sums along a matching do not overflow if the whole sum does not. -/
lemma sumAlong_ok (hw : 0 < width b) {p : Fin n ≃ Fin n}
    (hsum : total (slotWeights dataAffinity hw) p < 2 ^ 31) :
    sumAlong (slotWeights dataAffinity hw) p
      = .ok (total (slotWeights dataAffinity hw) p) := by
  have hpos : ∀ a ∈ (List.finRange n).map fun v => slotWeights dataAffinity hw (p v) v, 0 ≤ a :=
    fun a ha => by
      obtain ⟨v, -, rfl⟩ := List.mem_map.mp ha
      exact Int.natCast_nonneg _
  refine sumAlong_eq fun k => ?_
  have hsub : (((List.finRange n).take k).map fun v => slotWeights dataAffinity hw (p v) v).Sublist
      ((List.finRange n).map fun v => slotWeights dataAffinity hw (p v) v) :=
    (List.take_sublist k _).map _
  have hnonneg := List.sum_nonneg fun a ha => hpos a (hsub.subset ha)
  have hle := hsub.sum_le_sum hpos
  rw [sum_finRange] at hle
  rw [partialSum]
  constructor <;> omega

/-- The slots belong to the buckets in turn, unless the number of columns is not an `int`. -/
lemma bucketOf_val (hw : 0 < width b) (h : b < 2 ^ 31 ∨ n ≤ width b) (v : Fin n) :
    (bucketOf hw v).val = v.val % b := by
  show v.val % width b = v.val % b
  rcases h with h | h
  · rw [width_eq h]
  · have hv : v.val < width b := v.isLt.trans_le h
    rw [Nat.mod_eq_of_lt hv, Nat.mod_eq_of_lt (hv.trans_le (width_le b))]

/-- **`MaximumWeightMatch` finds a best balanced partition.** -/
lemma partitionsEvenly_of (hn : n ≤ maxN) (hw : 0 < width b) (h : b < 2 ^ 31 ∨ n ≤ width b)
    (hA : Supported dataAffinity) (s : State n) (out : Learned n F) :
    ∃ out' f, maximumWeightMatch toFloat dataAffinity s out = .ok out' ∧
      PartitionsEvenly toFloat dataAffinity out' f := by
  obtain ⟨p, hbest, hmatch⟩ := maximumWeightMatch_eq toFloat hn hw hA.entry s out
  set f : Fin n → Fin b := fun u => bucketOf hw (p.symm u) with hf
  have hfp : ∀ v : Fin n, f (p v) = bucketOf hw v := fun v =>
    congrArg (fun x : Fin n => bucketOf hw x) (p.symm_apply_apply v)
  have hslots : ∀ j, load (fun v : Fin n => bucketOf hw v) j = slots n j := fun j => by
    rw [load, slots]
    congr 1
    refine Finset.filter_congr fun v _ => ?_
    rw [← bucketOf_val hw h v, Fin.ext_iff]
  have heven : Even f := fun j => (load_eq_of_equiv hfp j).trans (hslots j)
  have hsum := hA.sum f heven
  rw [sumAlong_ok hw (by rw [total_slotWeights hw hfp]; omega)] at hmatch
  refine ⟨_, f, hmatch, fun u => ?_, heven, fun j j' => ?_, fun f' hf' => ?_, fun u => rfl⟩
  · have hlt : (f u).val < n := by
      have hmod := Nat.mod_le (p.symm u).val (width b)
      show (p.symm u).val % width b < n
      omega
    have hmax : n ≤ 100000 := hn
    exact UInt32.toNat_ofNat_of_lt' (by
      show (f u).val < 2 ^ 32
      omega)
  · rw [heven j, heven j']
    exact slots_le n j j'
  · obtain ⟨q, hq⟩ := exists_equiv_of_load fun j => (hf' j).trans (hslots j).symm
    have hle := hbest q
    rw [total_slotWeights hw hq, total_slotWeights hw hfp] at hle
    omega

/-- Without a column to divide by the call divides by zero. -/
lemma maximumWeightMatch_of_width_eq_zero (hn0 : 0 < n) (hn : n ≤ maxN) (hw : width b = 0)
    (s : State n) (out : Learned n F) :
    maximumWeightMatch toFloat dataAffinity s out = .error .divisionByZero := by
  obtain ⟨m, rfl⟩ := Nat.exists_eq_succ_of_ne_zero hn0.ne'
  have hfill : fillWeights dataAffinity s = .error .divisionByZero := by
    simp only [fillWeights, updateEach, List.finRange_succ, List.foldlM_cons,
      slotBucket_of_width_eq_zero hw]
    rfl
  rw [maximumWeightMatch, if_neg (by omega), hfill]
  rfl

/-- Where two slots fall into the first bucket too early, the partition is not balanced. -/
lemma not_partitionsEvenly (hn0 : 0 < n) (hn : n ≤ maxN) (h : ¬ (b < 2 ^ 31 ∨ n ≤ width b))
    (hsmall : ∀ u j, (dataAffinity u j).toNat ≤ 2 ^ 28) (s : State n) (out : Learned n F) :
    ¬ ∃ out' f, maximumWeightMatch toFloat dataAffinity s out = .ok out' ∧
      PartitionsEvenly toFloat dataAffinity out' f := by
  rintro ⟨out', f, hout, hf⟩
  rw [not_or, Nat.not_lt, Nat.not_le] at h
  have hmax : n ≤ 100000 := hn
  rcases Nat.eq_zero_or_pos (width b) with hzero | hw
  · rw [maximumWeightMatch_of_width_eq_zero toFloat hn0 hn hzero] at hout
    exact absurd hout (by simp)
  · obtain ⟨p, -, hmatch⟩ := maximumWeightMatch_eq toFloat hn hw hsmall s out
    rw [hmatch] at hout
    have hlearned : learned toFloat hw dataAffinity p = out' := by
      cases hs : sumAlong (slotWeights dataAffinity hw) p with
      | error why => rw [hs] at hout; exact absurd hout (by simp [Except.mapError, Except.map])
      | ok sum => rw [hs] at hout; exact Except.ok.inj hout
    -- the rows of the slots 0 and `width b` are both in the first bucket
    have hbucket : ∀ v : Fin n, v.val % width b = 0 → (f (p v)).val = 0 := fun v hv => by
      have hrow := hf.bucket (p v)
      rw [← hlearned] at hrow
      simp only [learned, p.symm_apply_apply, bucketOf, hv] at hrow
      exact hrow.symm
    have hnb : n < b := hmax.trans_lt (lt_of_lt_of_le (by norm_num) h.1)
    have hone : load f ⟨0, Nat.zero_lt_of_lt hnb⟩ = 1 := by
      rw [hf.size, slots_eq, Nat.div_eq_of_lt hnb, Nat.mod_eq_of_lt hnb, if_pos hn0]
    obtain ⟨u, hu⟩ := Finset.card_eq_one.mp hone
    obtain ⟨w, hwb⟩ : ∃ w, width b = w := ⟨_, rfl⟩
    rw [hwb] at hbucket h
    have hmem : ∀ v : Fin n, v.val % w = 0 → p v = u := fun v hv =>
      Finset.mem_singleton.mp (hu ▸ Finset.mem_filter.mpr
        ⟨Finset.mem_univ _, Fin.ext (hbucket v hv)⟩)
    have hfirst : p ⟨0, hn0⟩ = u := hmem ⟨0, hn0⟩ (Nat.zero_mod w)
    have hagain : p ⟨w, h.2⟩ = u := hmem ⟨w, h.2⟩ (Nat.mod_self w)
    have hzero := Fin.ext_iff.mp (p.injective (hfirst.trans hagain.symm))
    exact absurd hzero (hwb ▸ hw).ne

/-- **When `MaximumWeightMatch` finds a best balanced partition**: when the number of columns is an
`int`, or as an `int` has an absolute value with room for all rows. -/
theorem partitionsEvenly_iff (hn0 : 0 < n) (hn : n ≤ maxN) (hb : 0 < b)
    (hA : Supported dataAffinity) (s : State n) (out : Learned n F) :
    (∃ out' f, maximumWeightMatch toFloat dataAffinity s out = .ok out' ∧
      PartitionsEvenly toFloat dataAffinity out' f) ↔ b < 2 ^ 31 ∨ n ≤ width b := by
  refine ⟨fun h => ?_, fun h => ?_⟩
  · by_contra hnot
    exact not_partitionsEvenly toFloat hn0 hn hnot hA.entry s out h
  · refine partitionsEvenly_of toFloat hn ?_ h hA s out
    rcases h with h | h
    · rwa [width_eq h]
    · omega

/-- A table of two rows, whose number of columns is -1 as an `int`. -/
def widestTable : Fin 2 → Fin 4294967295 → UInt32 := fun _ _ => 0

/-- The globals before the first call. -/
def freshState (n : ℕ) : State n where
  weight := fun _ _ => 0
  lx := fun _ => 0
  ly := fun _ => 0
  sx := fun _ => false
  sy := fun _ => false
  mate := fun _ => none

theorem not_partitionsEvenly_widestTable :
    ¬ ∃ out' f, maximumWeightMatch id widestTable (freshState 2)
        ⟨fun _ => 0, fun _ => 0⟩ = .ok out' ∧ PartitionsEvenly id widestTable out' f := by
  have hwidth : width 4294967295 = 1 := by decide
  refine not_partitionsEvenly id (by norm_num) (by norm_num [maxN]) ?_ (fun u j => ?_) _ _
  · rw [hwidth]
    norm_num
  · exact Nat.zero_le _

end Partition

/-- Three rows and two buckets: two of the rows are worth most in the first one. -/
def threeRows : Fin 3 → Fin 2 → UInt32 := fun u j => if j.val = 0 then 7 - UInt32.ofNat u else 1

theorem partitionsEvenly_iff_threeRows :
    (∃ out' f, maximumWeightMatch id threeRows (freshState 3) ⟨fun _ => 0, fun _ => 0⟩ = .ok out' ∧
      PartitionsEvenly id threeRows out' f) ↔ 2 < 2 ^ 31 ∨ 3 ≤ width 2 := by
  have hentry : ∀ u j, (threeRows u j).toNat ≤ 7 := by decide
  refine partitionsEvenly_iff id (by norm_num) (by norm_num [maxN]) (by norm_num) ⟨?_, ?_⟩ _ _
  · exact fun u j => (hentry u j).trans (by norm_num)
  · intro f _
    calc affinity threeRows f ≤ ∑ _u : Fin 3, 7 := Finset.sum_le_sum fun u _ => hentry u (f u)
      _ < 2 ^ 31 := by norm_num

end Hungary

end RedAnns
