import Mathlib.Data.Finmap
import RedAnns.Core.RobinHash

/-!
What the tables of `include/tsl/robin_hash.h` keep, and the sets and maps they stand for.

* `WellFormed`: the invariant of a table; every operation keeps it and does to the `elements` what
  it should (`find_spec`, `insertImpl_spec`, `rehashImpl_spec`, `reserve_spec`, `clear_spec`,
  `mapBucket_spec`), and none of them fails.
* `SetOp`, `runSet`: sequences of operations on a `robin_set`; `runSet_eq`: they are those of a
  finite set.
* `MapOp`, `runMap`: the same for a `robin_map`, whose `operator[]` overwrites; `runMap_eq`.
-/

namespace RedAnns

open RobinHood

namespace RobinHash

variable {κ ν : Type*} {h : Hashing κ ν} {t t' : RobinHash ν}

/-! ### The invariant -/

/-- The elements of a table. -/
def elements (t : RobinHash ν) : Multiset ν := values t.mBuckets (t.mMask + 1)

/-- **The invariant of a table.** -/
structure WellFormed (h : Hashing κ ν) (t : RobinHash ν) : Prop where
  pow : ∃ n, t.mMask + 1 = 2 ^ n
  mBucketCount : t.mBucketCount = t.mMask + 1 ∨ t.mBucketCount = 0 ∧ t.mMask = 0
  mLoadThreshold : t.mLoadThreshold = t.mBucketCount / 2
  placed : WellPlaced (h.ideal t.mMask) (t.mMask + 1) t.mBuckets
  nodup : (t.elements.map h.keySelect).Nodup
  card : t.elements.card = t.mNbElements
  lt : t.mNbElements < t.mMask + 1
  grow : t.mGrowOnNextInsert = true → 5033165 * t.mBucketCount ≤ 2 ^ 25 * t.mNbElements

lemma mem_elements {v : ν} :
    v ∈ t.elements ↔ ∃ i < t.mMask + 1, t.valueAt i = some v := by
  rw [elements, mem_values]
  simp only [valueAt, Option.map_eq_some_iff]

lemma probed_of_wellFormed (hw : t.WellFormed h) (hmax : t.mNbElements ≤ maxDistance)
    (isKey : ν → Bool) (hash : ℕ) :
    ∃ p n, t.probe isKey (t.mMask + 1) (t.bucketForHash hash) 0 = some p ∧
      Probed t.mBuckets (t.mMask + 1) (t.bucketForHash hash) isKey n p := by
  have hstart : Crowded t.mBuckets (t.mMask + 1) (t.bucketForHash hash) 0 := crowded_zero
  have hp := exists_probed hw.pow (hw.card ▸ hw.lt) (hw.card ▸ hmax) isKey
    (show t.mMask + 1 ≤ t.mMask + 1 + 0 from le_rfl) hstart fun j hj =>
      absurd hj (Nat.not_lt_zero j)
  rwa [Nat.add_zero (t.bucketForHash hash), bucketForHash, and_mask hw.pow, Nat.mod_mod,
    ← and_mask hw.pow] at hp

/-- A probe that stops has seen that the key is not there. -/
lemma Probed.fresh [DecidableEq κ] (hw : t.WellFormed h) {key : κ} {n : ℕ} {p : Probe}
    (hp : Probed t.mBuckets (t.mMask + 1) (t.bucketForHash (h.hash key)) (isKey h key) n p)
    (hfound : p.found = false) : ∀ w ∈ t.elements, h.keySelect w ≠ key := by
  have hideal : ∀ w, h.keySelect w = key →
      h.ideal t.mMask w = t.bucketForHash (h.hash key) := fun w hkey => by
    rw [Hashing.ideal, hkey, bucketForHash]
  refine hw.placed.find (d := n) hideal ?_ ?_
  · rw [← hp.ibucket]
    exact hp.stopped hfound
  · intro j hj e hb hkey
    have := hp.passed j hj e hb
    rw [isKey, decide_eq_false_iff_not] at this
    exact this hkey

/-! ### Rehashing -/

lemma new_eq {count : ℕ} (hle : count ≤ 2 ^ 63)
    (hfit : roundUpToPowerOfTwo count ≤ min (2 ^ 63) h.maxSize) :
    ∃ mask buckets, new h count = some ⟨mask, fun _ => none, buckets, 0, buckets / 2, false⟩ ∧
      (∃ n, mask + 1 = 2 ^ n) ∧ (buckets = mask + 1 ∨ buckets = 0 ∧ mask = 0) ∧
        count ≤ mask + 1 := by
  rcases Nat.eq_zero_or_pos count with rfl | hpos
  · exact ⟨0, 0, rfl, ⟨0, rfl⟩, Or.inr ⟨rfl, rfl⟩, Nat.zero_le _⟩
  · obtain ⟨n, hn, hcount, -⟩ := roundUpToPowerOfTwo_spec hle
    have hmask : 2 ^ n - 1 + 1 = 2 ^ n := Nat.sub_add_cancel Nat.one_le_two_pow
    refine ⟨2 ^ n - 1, 2 ^ n, ?_, ⟨n, hmask⟩, Or.inl hmask.symm, hcount.trans_eq hmask.symm⟩
    rw [new, if_neg (Nat.pos_iff_ne_zero.mp hpos), hn, if_neg]
    rw [hn] at hfit
    omega

/-- The elements lie in the first buckets, one of which there always is. -/
lemma WellFormed.elements_eq (hw : t.WellFormed h) :
    values t.mBuckets t.mBucketCount = t.elements := by
  rcases hw.mBucketCount with hcount | ⟨hcount, hmask⟩
  · rw [hcount, elements]
  · have hcard := hw.card
    have hlt := hw.lt
    rw [hmask] at hlt
    rw [show t.mNbElements = 0 by omega, Multiset.card_eq_zero] at hcard
    rw [hcard, hcount]
    rfl

/-- What the loop of `rehash_impl` has done after its first `j` rounds. -/
structure Moved (h : Hashing κ ν) (t newTable : RobinHash ν) (j : ℕ) (s : RobinHash ν) : Prop where
  shape : SameShape newTable s
  placed : WellPlaced (h.ideal s.mMask) (s.mMask + 1) s.mBuckets
  values_eq : s.elements = values t.mBuckets j
  grow : s.mGrowOnNextInsert = newTable.mGrowOnNextInsert

/-- **One round of the loop.** -/
lemma Moved.step {newTable s : RobinHash ν} {j : ℕ} (hpow : ∃ n, newTable.mMask + 1 = 2 ^ n)
    (hcount : newTable.mBucketCount = newTable.mMask + 1 ∨
      newTable.mBucketCount = 0 ∧ newTable.mMask = 0)
    (hlt : (values t.mBuckets j).card < newTable.mMask + 1)
    (hmax : (values t.mBuckets j).card ≤ maxDistance) (hs : Moved h t newTable j s) :
    ∃ s', moveBucket h s (t.mBuckets j) = some s' ∧ Moved h t newTable (j + 1) s' := by
  have hnext : values t.mBuckets (j + 1) = values t.mBuckets j + contents (t.mBuckets j) :=
    Finset.sum_range_succ ..
  cases hb : t.mBuckets j with
  | none =>
      refine ⟨s, rfl, hs.shape, hs.placed, ?_, hs.grow⟩
      rw [hnext, hb, hs.values_eq, contents, add_zero]
  | some e =>
      rw [← hs.shape.mMask] at hpow hlt
      rw [← hs.shape.mMask, ← hs.shape.mBucketCount] at hcount
      rw [← hs.values_eq] at hlt hmax
      obtain ⟨k, hk, hempty⟩ := exists_none hlt (h.ideal s.mMask e.value)
      have hc : Carrying (h.ideal s.mMask) (s.mMask + 1) s.mBuckets (h.ideal s.mMask e.value)
          e.value 0 k :=
        ⟨hs.placed, by rw [Nat.add_zero, Nat.mod_eq_of_lt (ideal_lt hpow _)], crowded_zero, hk,
          hempty⟩
      obtain ⟨s', heq, hsame, hset, hgrow⟩ := insertValueOnRehash_spec hpow hlt hmax hc hk
      refine ⟨s', by rwa [moveBucket, bucketForHash_hashOnRehash hpow hcount],
        hs.shape.trans hsame, hsame.mMask ▸ hset.placed, ?_, hgrow.trans hs.grow⟩
      rw [elements, hsame.mMask, hset.values_eq, hnext, hb, ← hs.values_eq, contents,
        ← Multiset.singleton_add]
      exact add_comm _ _

/-- **A rehash keeps the elements**, in a table of at least as many buckets as it was asked for. -/
theorem rehashImpl_spec (hw : t.WellFormed h) (hmax : t.mNbElements ≤ maxDistance) {count : ℕ}
    (hnb : t.mNbElements < count ∨ t.mNbElements = 0) (hle : count ≤ 2 ^ 63)
    (hfit : roundUpToPowerOfTwo count ≤ min (2 ^ 63) h.maxSize) :
    ∃ t', t.rehashImpl h count = some t' ∧ t'.WellFormed h ∧ t'.elements = t.elements ∧
      count ≤ t'.mMask + 1 := by
  obtain ⟨mask, buckets, hnew, hpow, hbuckets, hcount⟩ := new_eq (h := h) hle hfit
  set newTable : RobinHash ν := ⟨mask, fun _ => none, buckets, 0, buckets / 2, false⟩
  have hlt : t.mNbElements < mask + 1 := by omega
  have hcard : ∀ j ≤ t.mBucketCount, (values t.mBuckets j).card ≤ t.mNbElements := fun j hj => by
    rw [← hw.card, ← hw.elements_eq]
    exact Multiset.card_le_card (Finset.sum_le_sum_of_subset (Finset.range_subset_range.mpr hj))
  have hstart : Moved h t newTable 0 newTable := by
    refine ⟨⟨rfl, rfl, rfl, rfl⟩, fun i _ e he => absurd he (Option.some_ne_none e).symm, ?_, rfl⟩
    rw [elements, values, values, Finset.sum_range_zero]
    exact Finset.sum_eq_zero fun _ _ => rfl
  obtain ⟨s, hrun, hs⟩ := foldlM_range (m := Option) (I := Moved h t newTable)
    (f := fun s i => moveBucket h s (t.mBuckets i)) (n := t.mBucketCount)
    (fun j hj s hs => hs.step hpow hbuckets ((hcard j hj.le).trans_lt hlt)
        ((hcard j hj.le).trans hmax))
    hstart
  have hsmask : s.mMask = mask := hs.shape.mMask
  have helements : s.elements = t.elements := hs.values_eq.trans hw.elements_eq
  refine ⟨{ s with mNbElements := t.mNbElements }, ?_, ?_, helements, ?_⟩
  · rw [rehashImpl, hnew, Option.bind_some, hrun]
    rfl
  · refine ⟨hsmask ▸ hpow, ?_, ?_, hs.placed, ?_, ?_, ?_, fun hgrow => ?_⟩
    · show s.mBucketCount = s.mMask + 1 ∨ s.mBucketCount = 0 ∧ s.mMask = 0
      rw [hs.shape.mBucketCount, hsmask]
      exact hbuckets
    · rw [hs.shape.mLoadThreshold, hs.shape.mBucketCount]
    · exact (congrArg (fun m => (m.map h.keySelect).Nodup) helements).mpr hw.nodup
    · exact (congrArg Multiset.card helements).trans hw.card
    · show t.mNbElements < s.mMask + 1
      rwa [hsmask]
    · exact absurd (hs.grow.symm.trans hgrow) Bool.false_ne_true
  · show count ≤ s.mMask + 1
    rwa [hsmask]

/-! ### Lookups and insertions -/

/-- **A lookup** returns the value of the key, if there is one. -/
theorem find_spec [DecidableEq κ] (hw : t.WellFormed h) (hmax : t.mNbElements ≤ maxDistance)
    (key : κ) : ∃ r, t.find h key = some r ∧
      (t.findImpl h key).map Option.isSome = some r.isSome ∧
      ∀ w, r = some w ↔ w ∈ t.elements ∧ h.keySelect w = key := by
  obtain ⟨p, n, hprobe, hp⟩ := probed_of_wellFormed hw hmax (isKey h key) (h.hash key)
  have hM : p.ibucket < t.mMask + 1 := hp.ibucket ▸ Nat.mod_lt _ (Nat.succ_pos _)
  have himpl : t.findImpl h key = some (if p.found then some p.ibucket else none) := by
    rw [findImpl, hprobe]
    rfl
  cases hfound : p.found with
  | false =>
      rw [hfound] at himpl
      refine ⟨none, by rw [find, himpl]; rfl, by rw [himpl]; rfl, fun w => ?_⟩
      exact iff_of_false (by simp) fun ⟨hmem, hkey⟩ => hp.fresh hw hfound w hmem hkey
  | true =>
      obtain ⟨e, hb, hkey⟩ := hp.hit hfound
      rw [isKey, decide_eq_true_iff] at hkey
      have hvalue : t.valueAt p.ibucket = some e.value := by rw [valueAt, hb]; rfl
      rw [hfound, if_pos rfl] at himpl
      refine ⟨some e.value, ?_, by rw [himpl]; rfl, fun w => ?_⟩
      · rw [find, himpl, Option.map_some, Option.bind_some, hvalue]
      · rw [Option.some.injEq]
        constructor
        · rintro rfl
          exact ⟨mem_elements.mpr ⟨_, hM, hvalue⟩, hkey⟩
        · rintro ⟨hmem, hw'⟩
          obtain ⟨i, hi, e', hb', rfl⟩ := mem_values.mp hmem
          obtain rfl := index_unique hw.nodup hM hi hb hb' (hkey.trans hw'.symm)
          rw [hb, Option.some.injEq] at hb'
          rw [hb']

/-- A table in which a new element has found a bucket. -/
lemma insertAt_spec (hw : t.WellFormed h) (hmax : t.mNbElements ≤ maxDistance)
    (hroom : t.mNbElements + 1 < t.mMask + 1) (hcount : t.mBucketCount = t.mMask + 1) {v : ν}
    (hfresh : ∀ w ∈ t.elements, h.keySelect w ≠ h.keySelect v) {isKey : ν → Bool} {n : ℕ}
    {p : Probe} (hp : Probed t.mBuckets (t.mMask + 1) (h.ideal t.mMask v) isKey n p)
    (hfound : p.found = false) :
    ∃ t', t.insertAt p v = some (t', p.ibucket, true) ∧ t'.WellFormed h ∧
      t'.elements = v ::ₘ t.elements ∧ p.ibucket < t'.mMask + 1 ∧
      t'.valueAt p.ibucket = some v := by
  have hlt : (values t.mBuckets (t.mMask + 1)).card < t.mMask + 1 := hw.card ▸ hw.lt
  obtain ⟨k, hk, hempty⟩ := exists_none hlt p.ibucket
  have hc : Carrying (h.ideal t.mMask) (t.mMask + 1) t.mBuckets p.ibucket v n k :=
    ⟨hw.placed, hp.ibucket, hp.crowded, hk, hempty⟩
  have hdist := hp.stopped hfound
  -- the bucket is empty, or its entry is nearer to its ideal bucket and goes on
  obtain ⟨s, heq, hsame, hset, hgrow, hvalue⟩ : ∃ s, (if (t.mBuckets p.ibucket).isNone then
      some (t.setBucket p.ibucket p.distFromIdealBucket v)
      else t.insertValue p.ibucket p.distFromIdealBucket v) = some s ∧ SameShape t s ∧
      Settled (h.ideal t.mMask) (t.mMask + 1) t.mBuckets p.ibucket v k s.mBuckets ∧
      (s.mGrowOnNextInsert = true → t.mGrowOnNextInsert = true ∨ t.highLoad = true) ∧
      s.valueAt p.ibucket = some v := by
    rw [hp.dist]
    cases hb : t.mBuckets p.ibucket with
    | none =>
        refine ⟨_, if_pos rfl, sameShape_setBucket t _ _ v, hc.place hb, Or.inl, ?_⟩
        simp [valueAt, setBucket]
    | some e =>
        rw [distAt_of_some hb] at hdist
        obtain ⟨m, k', hm, rfl, hc'⟩ := hc.swap hb hdist
        have hcard := card_update (e := ⟨v, n⟩) hc.index_lt hb
        obtain ⟨s, heq, hsame, hset, hgrow⟩ := displace_spec (t := t.setBucket p.ibucket n v) hw.pow
          (hcard ▸ hlt) (hcard ▸ hw.card ▸ hmax) hc' (show k' < t.mMask + 1 by omega)
        refine ⟨s, ?_, (sameShape_setBucket t _ _ v).trans hsame,
          hset.of_swap hc.index_lt hb, hgrow, ?_⟩
        · rw [if_neg (by simp), insertValue, hb, Option.bind_some, hm,
            increment_of_crowded hc'.crowded (hcard ▸ hlt) (hcard ▸ hw.card ▸ hmax),
            nextBucket_eq hw.pow]
          exact heq
        · -- the buckets behind it are fewer than a round
          have hframe := hset.frame p.ibucket fun x hx hcontra => by
            have hi := hc.index_lt
            change p.ibucket = ((p.ibucket + 1) % (t.mMask + 1) + x) % (t.mMask + 1) at hcontra
            rw [Nat.mod_add_mod] at hcontra
            have hmod : p.ibucket + 0 ≡ p.ibucket + (1 + x) [MOD t.mMask + 1] := by
              rw [Nat.ModEq, Nat.add_zero, ← Nat.add_assoc, ← hcontra, Nat.mod_eq_of_lt hi]
            have := Nat.ModEq.add_left_cancel' _ hmod
            rw [Nat.ModEq, Nat.zero_mod, Nat.mod_eq_of_lt (by omega)] at this
            omega
          rw [valueAt, hframe]
          simp [setBucket]
  have hmask := hsame.mMask
  have helements : s.elements = v ::ₘ t.elements := by rw [elements, hmask, hset.values_eq]; rfl
  refine ⟨{ s with mNbElements := s.mNbElements + 1 }, by rw [insertAt, heq]; rfl, ?_, helements,
    hmask.symm ▸ hc.index_lt, hvalue⟩
  refine ⟨hmask ▸ hw.pow, Or.inl ?_, ?_, hmask ▸ hset.placed, ?_, ?_, ?_, fun hg => ?_⟩
  · show s.mBucketCount = s.mMask + 1
    rw [hsame.mBucketCount, hmask, hcount]
  · show s.mLoadThreshold = s.mBucketCount / 2
    rw [hsame.mLoadThreshold, hsame.mBucketCount, hw.mLoadThreshold]
  · refine (congrArg (fun m => (m.map h.keySelect).Nodup) helements).mpr ?_
    rw [Multiset.map_cons, Multiset.nodup_cons, Multiset.mem_map]
    exact ⟨fun ⟨w, hmem, hkey⟩ => hfresh w hmem hkey, hw.nodup⟩
  · refine (congrArg Multiset.card helements).trans ?_
    rw [Multiset.card_cons, hw.card, hsame.mNbElements]
  · show s.mNbElements + 1 < s.mMask + 1
    rwa [hsame.mNbElements, hmask]
  · show 5033165 * s.mBucketCount ≤ 2 ^ 25 * (s.mNbElements + 1)
    rw [hsame.mBucketCount, hsame.mNbElements]
    rw [maxDistance] at hmax
    rcases hgrow hg with hg | hg
    · have := hw.grow hg
      omega
    · rw [highLoad, decide_eq_true_iff, floatOfNat_eq (by omega)] at hg
      omega

/-- A number of buckets that suffices for every table of at most `maxDistance` elements and for
every reservation by a 32-bit number. -/
def roomyCount : ℕ := 2 ^ 33

/-- **Growing keeps the elements** and leaves room for one more. -/
lemma growOnHighLoad_spec (hw : t.WellFormed h) (hmax : t.mNbElements ≤ maxDistance)
    (hsize : roomyCount ≤ h.maxSize) :
    (t.growOnHighLoad h = some none ∧ t.mNbElements + 1 < t.mMask + 1 ∧
        t.mBucketCount = t.mMask + 1) ∨
      ∃ s, t.growOnHighLoad h = some (some s) ∧ s.WellFormed h ∧ s.elements = t.elements ∧
        s.mNbElements + 1 < s.mMask + 1 ∧ s.mBucketCount = s.mMask + 1 := by
  have hlt := hw.lt
  rw [growOnHighLoad]
  split_ifs with hgrow
  · right
    rw [maxDistance] at hmax
    have hcount : 5033165 * t.mBucketCount ≤ 2 ^ 25 * (t.mNbElements + 1) := by
      rcases hgrow with hgrow | hgrow
      · have := hw.grow hgrow
        omega
      · rw [hw.mLoadThreshold] at hgrow
        omega
    have hmask : (t.mMask + 1) * 2 ≤ 2 ^ 19 := by
      obtain ⟨n, hn⟩ := hw.pow
      have hle : t.mMask + 1 < 2 ^ 19 := by
        rcases hw.mBucketCount with hc | ⟨-, hc⟩ <;> omega
      rw [hn] at hle ⊢
      rw [← pow_succ]
      exact Nat.pow_le_pow_right Nat.two_pos ((Nat.pow_lt_pow_iff_right Nat.one_lt_two).mp hle)
    have hround : roundUpToPowerOfTwo ((t.mMask + 1) * 2) = (t.mMask + 1) * 2 := by
      obtain ⟨n, hn⟩ := hw.pow
      rw [roundUpToPowerOfTwo, if_pos]
      exact Nat.ne_zero_and_sub_one_eq_zero_iff_isPowerOfTwo.mpr ⟨n + 1, by rw [hn, pow_succ]⟩
    obtain ⟨s, heq, hs, helements, hroom⟩ := rehashImpl_spec hw hmax
      (show t.mNbElements < (t.mMask + 1) * 2 ∨ t.mNbElements = 0 by omega) (by omega)
      (by rw [hround]; rw [roomyCount] at hsize; omega)
    have hnb : s.mNbElements = t.mNbElements := by rw [← hs.card, helements, hw.card]
    refine ⟨s, ?_, hs, helements, by omega, ?_⟩
    · rw [nextBucketCount, if_neg (by omega), Option.bind_some, heq]
      rfl
    · rcases hs.mBucketCount with hc | ⟨-, hc⟩ <;> omega
  · left
    rw [not_or, not_le, hw.mLoadThreshold] at hgrow
    refine ⟨rfl, ?_, ?_⟩ <;> rcases hw.mBucketCount with hc | ⟨hc, -⟩ <;> omega

/-- **An insertion** adds the value if its key is new, and otherwise changes nothing; the bucket it
returns holds the key. -/
theorem insertImpl_spec [DecidableEq κ] (hw : t.WellFormed h) (hmax : t.mNbElements ≤ maxDistance)
    (hsize : roomyCount ≤ h.maxSize) (v : ν) :
    ((∀ w ∈ t.elements, h.keySelect w ≠ h.keySelect v) ∧ ∃ t' i,
      t.insertImpl h v = some (t', i, true) ∧ t'.WellFormed h ∧ t'.elements = v ::ₘ t.elements ∧
        i < t'.mMask + 1 ∧ t'.valueAt i = some v) ∨
    ∃ w ∈ t.elements, h.keySelect w = h.keySelect v ∧ ∃ i,
      t.insertImpl h v = some (t, i, false) ∧ i < t.mMask + 1 ∧ t.valueAt i = some w := by
  obtain ⟨p, n, hprobe, hp⟩ :=
    probed_of_wellFormed hw hmax (isKey h (h.keySelect v)) (h.hash (h.keySelect v))
  have hM : p.ibucket < t.mMask + 1 := hp.ibucket ▸ Nat.mod_lt _ (Nat.succ_pos _)
  have hinsert : t.insertImpl h v = if p.found then some (t, p.ibucket, false) else
      (t.growOnHighLoad h).bind (t.insertNew (h.hash (h.keySelect v)) p v) := by
    rw [insertImpl, hprobe]
    rfl
  rw [hinsert]
  cases hfound : p.found with
  | true =>
      right
      obtain ⟨e, hb, hkey⟩ := hp.hit hfound
      have hvalue : t.valueAt p.ibucket = some e.value := by rw [valueAt, hb]; rfl
      rw [isKey, decide_eq_true_iff] at hkey
      exact ⟨e.value, mem_elements.mpr ⟨_, hM, hvalue⟩, hkey, p.ibucket, rfl, hM, hvalue⟩
  | false =>
      left
      have hfresh := hp.fresh hw hfound
      refine ⟨hfresh, ?_⟩
      rw [if_neg Bool.false_ne_true]
      rcases growOnHighLoad_spec hw hmax hsize with
        ⟨hgrow, hroom, hcount⟩ | ⟨s, hgrow, hs, helements, hroom, hcount⟩
      · obtain ⟨t', hrest⟩ := insertAt_spec hw hmax hroom hcount hfresh hp hfound
        rw [hgrow]
        exact ⟨t', p.ibucket, hrest⟩
      · have hnb : s.mNbElements = t.mNbElements := by rw [← hs.card, helements, hw.card]
        obtain ⟨q, m, hprobe', hq⟩ :=
          probed_of_wellFormed hs (hnb ▸ hmax) (fun _ => false) (h.hash (h.keySelect v))
        have hfound' : q.found = false := by
          cases hq' : q.found with
          | false => rfl
          | true =>
              obtain ⟨e, -, hkey⟩ := hq.hit hq'
              exact absurd hkey Bool.false_ne_true
        obtain ⟨t', hrest⟩ :=
          insertAt_spec hs (hnb ▸ hmax) hroom hcount (helements ▸ hfresh) hq hfound'
        rw [hgrow, Option.bind_some, insertNew, hprobe', ← helements]
        exact ⟨t', q.ibucket, hrest⟩

/-! ### The other operations -/

/-- A new table. -/
theorem new_spec {count : ℕ} (hle : count ≤ 2 ^ 32) (hsize : roomyCount ≤ h.maxSize) :
    ∃ t, new h count = some t ∧ t.WellFormed h ∧ t.elements = 0 := by
  have hround := roundUpToPowerOfTwo_le hle (by omega)
  rw [roomyCount] at hsize
  obtain ⟨mask, buckets, hnew, hpow, hbuckets, -⟩ := new_eq (h := h) (show count ≤ 2 ^ 63 by omega)
    (by omega)
  have hempty : values (fun _ => none : Buckets ν) (mask + 1) = 0 :=
    Finset.sum_eq_zero fun _ _ => rfl
  refine ⟨_, hnew, ⟨hpow, hbuckets, rfl, ?_, ?_, ?_, Nat.succ_pos _, ?_⟩, hempty⟩
  · exact fun i _ e he => absurd he (Option.some_ne_none e).symm
  · rw [elements, hempty]
    exact Multiset.nodup_zero
  · rw [elements, hempty]
    rfl
  · exact fun hgrow => absurd hgrow Bool.false_ne_true

theorem clear_spec (hw : t.WellFormed h) : t.clear.WellFormed h ∧ t.clear.elements = 0 := by
  have hempty : t.clear.elements = 0 := by
    rw [elements, values]
    exact Finset.sum_eq_zero fun _ _ => rfl
  refine ⟨⟨hw.pow, hw.mBucketCount, hw.mLoadThreshold, ?_, ?_, ?_, Nat.succ_pos _, ?_⟩, hempty⟩
  · exact fun i _ e he => absurd he (Option.some_ne_none e).symm
  · rw [hempty]
    exact Multiset.nodup_zero
  · rw [hempty]
    rfl
  · exact fun hgrow => absurd hgrow Bool.false_ne_true

/-- **A reservation** keeps the elements. -/
theorem reserve_spec (hw : t.WellFormed h) (hmax : t.mNbElements ≤ maxDistance)
    (hsize : roomyCount ≤ h.maxSize) {count : ℕ} (hle : count ≤ 2 ^ 32) :
    ∃ t', t.reserve h count = some t' ∧ t'.WellFormed h ∧ t'.elements = t.elements := by
  have hfloat := floatOfNat_le hle
  rw [maxDistance] at hmax
  have hnb : floatOfNat t.mNbElements = t.mNbElements := floatOfNat_eq (by omega)
  have hround := roundUpToPowerOfTwo_le (k := 33)
    (show max (2 * floatOfNat count) (2 * floatOfNat t.mNbElements) ≤ 2 ^ 33 by omega) (by omega)
  rw [roomyCount] at hsize
  have hroom : t.mNbElements < max (2 * floatOfNat count) (2 * floatOfNat t.mNbElements) ∨
      t.mNbElements = 0 := by omega
  obtain ⟨t', heq, hw', helements, -⟩ := rehashImpl_spec hw hmax hroom (by omega) (by omega)
  exact ⟨t', heq, hw', helements⟩

theorem mapBucket_spec (hw : t.WellFormed h) (hi : i < t.mMask + 1) {v : ν} {f : ν → ν}
    (hv : t.valueAt i = some v) (hkey : h.keySelect (f v) = h.keySelect v) :
    (t.mapBucket i f).WellFormed h ∧ v ::ₘ (t.mapBucket i f).elements = f v ::ₘ t.elements := by
  obtain ⟨e, hb, rfl⟩ := Option.map_eq_some_iff.mp hv
  have hbuckets : (t.mapBucket i f).mBuckets
      = Function.update t.mBuckets i (some ⟨f e.value, e.dist⟩) := by rw [mapBucket, hb]; rfl
  have helements : e.value ::ₘ (t.mapBucket i f).elements = f e.value ::ₘ t.elements := by
    rw [elements, hbuckets]
    exact values_update_of_some hi hb
  have hmap : (t.mapBucket i f).elements.map h.keySelect = t.elements.map h.keySelect := by
    have := congrArg (Multiset.map h.keySelect) helements
    rwa [Multiset.map_cons, Multiset.map_cons, hkey, Multiset.cons_inj_right] at this
  have hideal : h.ideal t.mMask (f e.value) = h.ideal t.mMask e.value := by
    rw [Hashing.ideal, hkey, Hashing.ideal]
  have hdist : ∀ j, distAt t.mBuckets j ≤ distAt (t.mapBucket i f).mBuckets j := fun j => by
    rw [hbuckets]
    by_cases hj : j = i
    · rw [hj, distAt_of_some hb, distAt_of_some (Function.update_self ..)]
    · rw [distAt, distAt, Function.update_of_ne hj]
  refine ⟨⟨hw.pow, hw.mBucketCount, hw.mLoadThreshold, fun j hj e' hb' => ?_, hmap ▸ hw.nodup, ?_,
    hw.lt, hw.grow⟩, helements⟩
  · by_cases hji : j = i
    · subst hji
      rw [hbuckets, Function.update_self, Option.some.injEq] at hb'
      obtain ⟨n, hn, hplace, hc⟩ := hw.placed j hj e hb
      rw [← hb']
      exact ⟨n, hn, hplace.trans (congrArg (fun x => (x + n) % (t.mMask + 1)) hideal.symm),
        hideal.symm ▸ hc.of_le hdist⟩
    · rw [hbuckets, Function.update_of_ne hji] at hb'
      obtain ⟨n, hn, hplace, hc⟩ := hw.placed j hj e' hb'
      exact ⟨n, hn, hplace, hc.of_le hdist⟩
  · have := congrArg Multiset.card hmap
    rw [Multiset.card_map, Multiset.card_map] at this
    exact this.trans hw.card

/-! ### Sets -/

/-- What a program does with a `robin_set`. -/
inductive SetOp (κ : Type*)
  | insert (key : κ)
  | find (key : κ)
  | clear
  | reserve (count : UInt32)

/-- The instance of a `robin_set`: an element is its own key. -/
def setHashing (hash : κ → ℕ) (storeHash : Bool) (maxSize : ℕ) : Hashing κ κ :=
  ⟨id, hash, storeHash, maxSize⟩

section Sets

variable [DecidableEq κ]

/-- An operation on the table: what it leaves, and whether the key was inserted or is there. -/
def setOp (h : Hashing κ κ) (t : RobinHash κ) : SetOp κ → Option (RobinHash κ × Bool)
  | .insert key => (t.insertImpl h key).map fun r => (r.1, r.2.2)
  | .find key => (t.findImpl h key).map fun r => (t, r.isSome)
  | .clear => some (t.clear, false)
  | .reserve count => (t.reserve h count.toNat).map fun t' => (t', false)

/-- A sequence of operations, and what they return. -/
def runSet (h : Hashing κ κ) : List (SetOp κ) → RobinHash κ → Option (RobinHash κ × List Bool)
  | [], t => some (t, [])
  | op :: ops, t =>
      (t.setOp h op).bind fun r => (runSet h ops r.1).map fun q => (q.1, r.2 :: q.2)

/-- The operation on a finite set. -/
def SetOp.apply (S : Finset κ) : SetOp κ → Finset κ × Bool
  | .insert key => (Insert.insert key S, decide (key ∉ S))
  | .find key => (S, decide (key ∈ S))
  | .clear => (∅, false)
  | .reserve _ => (S, false)

/-- The sequence on a finite set. -/
def SetOp.run : List (SetOp κ) → Finset κ → Finset κ × List Bool
  | [], S => (S, [])
  | op :: ops, S => ((run ops (op.apply S).1).1, (op.apply S).2 :: (run ops (op.apply S).1).2)

/-- A sequence for which distances of 16 bits suffice: the set never has more than `maxDistance`
elements before an operation. -/
def SetOp.Fits : List (SetOp κ) → Finset κ → Prop
  | [], _ => True
  | op :: ops, S => S.card ≤ maxDistance ∧ Fits ops (op.apply S).1

/-- A table that stands for a finite set. -/
structure IsSet (h : Hashing κ κ) (t : RobinHash κ) (S : Finset κ) : Prop where
  wellFormed : t.WellFormed h
  elements_eq : t.elements = S.val

variable {hash : κ → ℕ} {storeHash : Bool} {maxSize : ℕ} {t : RobinHash κ} {S : Finset κ}

omit [DecidableEq κ] in
lemma IsSet.mNbElements {h : Hashing κ κ} (ht : t.IsSet h S) : t.mNbElements = S.card := by
  rw [← ht.wellFormed.card, ht.elements_eq]
  rfl

/-- **One operation.** -/
lemma IsSet.setOp (hsize : roomyCount ≤ maxSize)
    (ht : t.IsSet (setHashing hash storeHash maxSize) S)
    (hmax : S.card ≤ maxDistance) (op : SetOp κ) :
    ∃ t', t.setOp (setHashing hash storeHash maxSize) op = some (t', (op.apply S).2) ∧
      t'.IsSet (setHashing hash storeHash maxSize) (op.apply S).1 := by
  have hnb : t.mNbElements ≤ maxDistance := ht.mNbElements ▸ hmax
  cases op with
  | insert key =>
      rcases insertImpl_spec ht.wellFormed hnb hsize key with
        ⟨hfresh, t', i, heq, hw', helements, -, -⟩ | ⟨w, hmem, hw, i, heq, -, -⟩
      · have hnot : key ∉ S := fun hmem => hfresh key (ht.elements_eq ▸ hmem) rfl
        refine ⟨t', ?_, hw', ?_⟩
        · simp [RobinHash.setOp, SetOp.apply, heq, hnot]
        · rw [helements, ht.elements_eq, SetOp.apply, Finset.insert_val_of_notMem hnot]
      · obtain rfl : w = key := hw
        have hmem' : w ∈ S := by rwa [ht.elements_eq] at hmem
        refine ⟨t, ?_, ht.wellFormed, ?_⟩
        · simp [RobinHash.setOp, SetOp.apply, heq, hmem']
        · rw [ht.elements_eq, SetOp.apply, Finset.insert_eq_of_mem hmem']
  | find key =>
      obtain ⟨r, -, hfind, hr⟩ := find_spec ht.wellFormed hnb key
      obtain ⟨i, hi, hir⟩ := Option.map_eq_some_iff.mp hfind
      have hmem : key ∈ S ↔ r.isSome = true := by
        rw [Option.isSome_iff_exists]
        simp only [hr, ht.elements_eq, Finset.mem_val]
        exact ⟨fun hmem => ⟨key, hmem, rfl⟩, fun ⟨w, hmem, hw⟩ => (show w = key from hw) ▸ hmem⟩
      refine ⟨t, ?_, ht⟩
      simp [RobinHash.setOp, SetOp.apply, hi, hir, hmem]
  | clear =>
      obtain ⟨hw', helements⟩ := clear_spec ht.wellFormed
      exact ⟨t.clear, rfl, hw', helements⟩
  | reserve count =>
      obtain ⟨t', heq, hw', helements⟩ := reserve_spec ht.wellFormed hnb hsize
        (show count.toNat ≤ 2 ^ 32 from count.toNat_lt.le)
      refine ⟨t', ?_, hw', helements.trans ht.elements_eq⟩
      simp [RobinHash.setOp, SetOp.apply, heq]

/-- Sequences of operations. -/
lemma IsSet.runSet (hsize : roomyCount ≤ maxSize) {ops : List (SetOp κ)}
    (ht : t.IsSet (setHashing hash storeHash maxSize) S) (hfits : SetOp.Fits ops S) :
    ∃ t', runSet (setHashing hash storeHash maxSize) ops t = some (t', (SetOp.run ops S).2) ∧
      t'.IsSet (setHashing hash storeHash maxSize) (SetOp.run ops S).1 := by
  induction ops generalizing t S with
  | nil => exact ⟨t, rfl, ht⟩
  | cons op ops ih =>
      obtain ⟨hmax, hfits⟩ := hfits
      obtain ⟨t₁, hstep, ht₁⟩ := ht.setOp hsize hmax op
      obtain ⟨t', hrun, ht'⟩ := ih ht₁ hfits
      exact ⟨t', by rw [RobinHash.runSet, hstep, Option.bind_some, hrun]; rfl, ht'⟩

/-- `DEFAULT_INIT_BUCKETS_SIZE`. -/
def defaultInitBucketsSize : ℕ := 16

omit [DecidableEq κ] in
lemma exists_new_isSet (hash : κ → ℕ) (hsize : roomyCount ≤ maxSize) :
    ∃ t, new (setHashing hash storeHash maxSize) defaultInitBucketsSize = some t ∧
      t.IsSet (setHashing hash storeHash maxSize) ∅ := by
  obtain ⟨t, hnew, hw, helements⟩ := new_spec (h := setHashing hash storeHash maxSize)
    (show defaultInitBucketsSize ≤ 2 ^ 32 by decide) hsize
  exact ⟨t, hnew, hw, helements⟩

/-- **A `robin_set` is a finite set**: whatever the hash function, a sequence of insertions,
lookups, clearings and reservations on a new table returns what it returns on a finite set, and no
loop of the table fails to end. -/
theorem runSet_eq (hash : κ → ℕ) (storeHash : Bool) (hsize : roomyCount ≤ maxSize)
    {ops : List (SetOp κ)} (hfits : SetOp.Fits ops ∅) :
    ∃ t, (new (setHashing hash storeHash maxSize) defaultInitBucketsSize).bind
        (RobinHash.runSet (setHashing hash storeHash maxSize) ops) = some (t, (SetOp.run ops ∅).2) ∧
      t.mNbElements = (SetOp.run ops ∅).1.card ∧ t.mNbElements ≤ t.mBucketCount := by
  obtain ⟨t₀, hnew, ht₀⟩ := exists_new_isSet hash hsize
  obtain ⟨t, hrun, ht⟩ := ht₀.runSet hsize hfits
  refine ⟨t, by rw [hnew, Option.bind_some, hrun], ht.mNbElements, ?_⟩
  have hlt := ht.wellFormed.lt
  rcases ht.wellFormed.mBucketCount with hcount | ⟨hcount, hmask⟩ <;> omega

/-- Keys that all have one hash value, and a reservation between them. -/
theorem runSet_collisions :
    ∃ t, (new (setHashing (fun _ : UInt32 => 7) true roomyCount) defaultInitBucketsSize).bind
        (RobinHash.runSet (setHashing (fun _ => 7) true roomyCount)
          [.insert 3, .insert 5, .insert 3, .reserve 40, .find 5, .clear, .find 5])
        = some (t, [true, true, false, false, true, false, false]) ∧
      t.mNbElements = 0 ∧ t.mNbElements ≤ t.mBucketCount := by
  have hfits : SetOp.Fits [.insert (3 : UInt32), .insert 5, .insert 3, .reserve 40, .find 5, .clear,
      .find 5] ∅ := by simp [SetOp.Fits, SetOp.apply, maxDistance]
  exact runSet_eq (fun _ => 7) true le_rfl hfits

end Sets

/-! ### Maps -/

/-- What a program does with a `robin_map`: `map[key] = value`, a lookup, and `clear`. -/
inductive MapOp (κ τ : Type*)
  | assign (key : κ) (value : τ)
  | find (key : κ)
  | clear

/-- The instance of a `robin_map`. -/
def mapHashing {τ : Type*} (hash : κ → ℕ) (storeHash : Bool) (maxSize : ℕ) : Hashing κ (κ × τ) :=
  ⟨Prod.fst, hash, storeHash, maxSize⟩

section Maps

variable {τ : Type*} [DecidableEq κ] [Inhabited τ]

/-- `map[key] = value`: `operator[]` enters a default value if the key is new, and what it returns
is assigned to. -/
def assign (h : Hashing κ (κ × τ)) (t : RobinHash (κ × τ)) (key : κ) (value : τ) :
    Option (RobinHash (κ × τ)) :=
  (t.insertImpl h (key, default)).map fun r => r.1.mapBucket r.2.1 fun w => (w.1, value)

/-- An operation on the table: what it leaves, and what was found. -/
def mapOp (h : Hashing κ (κ × τ)) (t : RobinHash (κ × τ)) :
    MapOp κ τ → Option (RobinHash (κ × τ) × Option τ)
  | .assign key value => (t.assign h key value).map fun t' => (t', none)
  | .find key => (t.find h key).map fun r => (t, r.map Prod.snd)
  | .clear => some (t.clear, none)

/-- A sequence of operations, and what they found. -/
def runMap (h : Hashing κ (κ × τ)) :
    List (MapOp κ τ) → RobinHash (κ × τ) → Option (RobinHash (κ × τ) × List (Option τ))
  | [], t => some (t, [])
  | op :: ops, t =>
      (t.mapOp h op).bind fun r => (runMap h ops r.1).map fun q => (q.1, r.2 :: q.2)

/-- The operation on a finite map. -/
def MapOp.apply (f : Finmap fun _ : κ => τ) : MapOp κ τ → (Finmap fun _ : κ => τ) × Option τ
  | .assign key value => (f.insert key value, none)
  | .find key => (f, f.lookup key)
  | .clear => (∅, none)

/-- The sequence on a finite map. -/
def MapOp.run : List (MapOp κ τ) → (Finmap fun _ : κ => τ) →
    (Finmap fun _ : κ => τ) × List (Option τ)
  | [], f => (f, [])
  | op :: ops, f => ((run ops (op.apply f).1).1, (op.apply f).2 :: (run ops (op.apply f).1).2)

/-- A sequence for which distances of 16 bits suffice. -/
def MapOp.Fits : List (MapOp κ τ) → (Finmap fun _ : κ => τ) → Prop
  | [], _ => True
  | op :: ops, f => f.keys.card ≤ maxDistance ∧ Fits ops (op.apply f).1

/-- A table that stands for a finite map. -/
structure IsMap (h : Hashing κ (κ × τ)) (t : RobinHash (κ × τ)) (f : Finmap fun _ : κ => τ) :
    Prop where
  wellFormed : t.WellFormed h
  lookup_eq : ∀ key value, f.lookup key = some value ↔ (key, value) ∈ t.elements

variable {hash : κ → ℕ} {storeHash : Bool} {maxSize : ℕ} {t : RobinHash (κ × τ)}
    {f : Finmap fun _ : κ => τ}
  {key : κ} {value : τ}

omit [DecidableEq κ] [Inhabited τ] in
/-- No key has two values. -/
lemma WellFormed.value_unique (hw : t.WellFormed (mapHashing hash storeHash maxSize)) {v w : τ}
    (hv : (key, v) ∈ t.elements) (hw' : (key, w) ∈ t.elements) : v = w :=
  congrArg Prod.snd (Multiset.inj_on_of_nodup_map hw.nodup _ hv _ hw' rfl)

omit [Inhabited τ] in
lemma IsMap.mNbElements (ht : t.IsMap (mapHashing hash storeHash maxSize) f) :
    t.mNbElements = f.keys.card := by
  have hkeys : t.elements.map Prod.fst = f.keys.val := by
    refine (Multiset.Nodup.ext ht.wellFormed.nodup f.keys.nodup).mpr fun key => ?_
    rw [Finset.mem_val, Finmap.mem_keys, Finmap.mem_iff, Multiset.mem_map]
    simp only [ht.lookup_eq]
    exact ⟨fun ⟨⟨k, v⟩, hmem, hk⟩ => ⟨v, (show k = key from hk) ▸ hmem⟩,
      fun ⟨v, hmem⟩ => ⟨(key, v), hmem, rfl⟩⟩
  rw [← ht.wellFormed.card, ← Multiset.card_map Prod.fst, hkeys]
  rfl

/-- **An assignment** overwrites. -/
lemma IsMap.assign (hsize : roomyCount ≤ maxSize)
    (ht : t.IsMap (mapHashing hash storeHash maxSize) f)
    (hmax : f.keys.card ≤ maxDistance) (key : κ) (value : τ) :
    ∃ t', t.assign (mapHashing hash storeHash maxSize) key value = some t' ∧
      t'.IsMap (mapHashing hash storeHash maxSize) (f.insert key value) := by
  -- a table with the key, whatever its value, in which the value is then changed
  obtain ⟨s, i, new, w, heq, hs, hi, hvalue, hcons⟩ : ∃ s i new w,
      t.insertImpl (mapHashing hash storeHash maxSize) (key, default) = some (s, i, new) ∧
      s.WellFormed (mapHashing hash storeHash maxSize) ∧ i < s.mMask + 1 ∧
        s.valueAt i = some (key, w) ∧
      ∀ k v, k ≠ key → ((k, v) ∈ s.elements ↔ (k, v) ∈ t.elements) := by
    rcases insertImpl_spec ht.wellFormed (ht.mNbElements ▸ hmax) hsize (key, default) with
      ⟨-, s, i, heq, hs, helements, hi, hvalue⟩ | ⟨⟨k, w⟩, -, hkey, i, heq, hi, hvalue⟩
    · refine ⟨s, i, true, default, heq, hs, hi, hvalue, fun k v hk => ?_⟩
      rw [helements, Multiset.mem_cons, or_iff_right fun h => hk (congrArg Prod.fst h)]
    · obtain rfl : k = key := hkey
      exact ⟨t, i, false, w, heq, ht.wellFormed, hi, hvalue, fun _ _ _ => Iff.rfl⟩
  obtain ⟨hw', helements⟩ := mapBucket_spec (f := fun w => (w.1, value)) hs hi hvalue rfl
  refine ⟨s.mapBucket i fun w => (w.1, value), by rw [RobinHash.assign, heq]; rfl, hw',
    fun k v => ?_⟩
  by_cases hk : k = key
  · subst hk
    have hmem : (k, value) ∈ (s.mapBucket i fun w => (w.1, value)).elements := by
      have hin : (k, value) ∈ (k, w) ::ₘ (s.mapBucket i fun w => (w.1, value)).elements := by
        rw [helements]
        exact Multiset.mem_cons_self _ _
      rcases Multiset.mem_cons.mp hin with hw | hin
      · rw [hw, Multiset.cons_inj_right] at helements
        rw [helements, hw]
        exact mem_elements.mpr ⟨i, hi, hvalue⟩
      · exact hin
    rw [Finmap.lookup_insert, Option.some.injEq]
    exact ⟨fun h => h ▸ hmem, fun h => hw'.value_unique hmem h⟩
  · rw [Finmap.lookup_insert_of_ne _ hk, ht.lookup_eq, ← hcons k v hk]
    have hiff : (k, v) ∈ (key, w) ::ₘ (s.mapBucket i fun w => (w.1, value)).elements
        ↔ (k, v) ∈ (key, value) ::ₘ s.elements := by rw [helements]
    rw [Multiset.mem_cons, Multiset.mem_cons, or_iff_right fun h => hk (congrArg Prod.fst h),
      or_iff_right fun h => hk (congrArg Prod.fst h)] at hiff
    exact hiff.symm

/-- **One operation.** -/
lemma IsMap.mapOp (hsize : roomyCount ≤ maxSize)
    (ht : t.IsMap (mapHashing hash storeHash maxSize) f)
    (hmax : f.keys.card ≤ maxDistance) (op : MapOp κ τ) :
    ∃ t', t.mapOp (mapHashing hash storeHash maxSize) op = some (t', (op.apply f).2) ∧
      t'.IsMap (mapHashing hash storeHash maxSize) (op.apply f).1 := by
  cases op with
  | assign key value =>
      obtain ⟨t', heq, ht'⟩ := ht.assign hsize hmax key value
      exact ⟨t', by rw [RobinHash.mapOp, heq]; rfl, ht'⟩
  | find key =>
      obtain ⟨r, hfind, -, hr⟩ := find_spec ht.wellFormed (ht.mNbElements ▸ hmax) key
      refine ⟨t, ?_, ht⟩
      rw [RobinHash.mapOp, hfind]
      refine congrArg (fun x => some (t, x)) (Option.ext fun v => ?_)
      show r.map Prod.snd = some v ↔ f.lookup key = some v
      rw [Option.map_eq_some_iff, ht.lookup_eq]
      simp only [hr]
      exact ⟨fun ⟨⟨k, w⟩, ⟨hmem, hk⟩, hw⟩ => (show k = key from hk) ▸ (show w = v from hw) ▸ hmem,
        fun hmem => ⟨(key, v), ⟨hmem, rfl⟩, rfl⟩⟩
  | clear =>
      obtain ⟨hw', helements⟩ := clear_spec ht.wellFormed
      exact ⟨t.clear, rfl, hw', fun key value => by simp [MapOp.apply, helements]⟩

/-- Sequences of operations. -/
lemma IsMap.runMap (hsize : roomyCount ≤ maxSize) {ops : List (MapOp κ τ)}
    (ht : t.IsMap (mapHashing hash storeHash maxSize) f) (hfits : MapOp.Fits ops f) :
    ∃ t', runMap (mapHashing hash storeHash maxSize) ops t = some (t', (MapOp.run ops f).2) ∧
      t'.IsMap (mapHashing hash storeHash maxSize) (MapOp.run ops f).1 := by
  induction ops generalizing t f with
  | nil => exact ⟨t, rfl, ht⟩
  | cons op ops ih =>
      obtain ⟨hmax, hfits⟩ := hfits
      obtain ⟨t₁, hstep, ht₁⟩ := ht.mapOp hsize hmax op
      obtain ⟨t', hrun, ht'⟩ := ih ht₁ hfits
      exact ⟨t', by rw [RobinHash.runMap, hstep, Option.bind_some, hrun]; rfl, ht'⟩

omit [Inhabited τ] in
lemma exists_new_isMap (hash : κ → ℕ) (hsize : roomyCount ≤ maxSize) :
    ∃ t, new (mapHashing (τ := τ) hash storeHash maxSize) defaultInitBucketsSize = some t ∧
      t.IsMap (mapHashing hash storeHash maxSize) ∅ := by
  obtain ⟨t, hnew, hw, helements⟩ := new_spec (h := mapHashing (τ := τ) hash storeHash maxSize)
    (show defaultInitBucketsSize ≤ 2 ^ 32 by decide) hsize
  exact ⟨t, hnew, hw, fun key value => by simp [helements]⟩

/-- **A `robin_map` is a finite map**: whatever the hash function, a sequence of assignments,
lookups and clearings on a new table finds what it finds in a finite map, and no loop of the table
fails to end. -/
theorem runMap_eq (hash : κ → ℕ) (storeHash : Bool) (hsize : roomyCount ≤ maxSize)
    {ops : List (MapOp κ τ)} (hfits : MapOp.Fits ops ∅) :
    ∃ t, (new (mapHashing hash storeHash maxSize) defaultInitBucketsSize).bind
        (RobinHash.runMap (mapHashing hash storeHash maxSize) ops) = some (t, (MapOp.run ops ∅).2) ∧
      t.mNbElements = (MapOp.run ops ∅).1.keys.card := by
  obtain ⟨t₀, hnew, ht₀⟩ := exists_new_isMap hash hsize
  obtain ⟨t, hrun, ht⟩ := ht₀.runMap hsize hfits
  exact ⟨t, by rw [hnew, Option.bind_some, hrun], ht.mNbElements⟩

/-- Two keys of one hash value, one of them assigned to twice. -/
theorem runMap_collisions :
    ∃ t, (new (mapHashing (fun _ : UInt32 => 7) true roomyCount) defaultInitBucketsSize).bind
        (RobinHash.runMap (mapHashing (fun _ => 7) true roomyCount)
          [.assign 3 10, .assign 5 11, .assign 3 12, .find 3, .find 5, .find 4])
        = some (t, [none, none, none, some 12, some 11, none]) ∧
      t.mNbElements = 2 := by
  have hfits : MapOp.Fits [.assign (3 : UInt32) 10, .assign 5 11, .assign 3 12, .find 3, .find 5,
      .find 4] ∅ := by
    simp only [MapOp.Fits, MapOp.apply]
    decide
  exact runMap_eq (τ := ℕ) (fun _ => 7) true le_rfl hfits

end Maps

end RobinHash

end RedAnns
