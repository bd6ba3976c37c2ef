import RedAnns.Core.PqLookups
import RedAnns.Lib.Smallest

/-!
The brute-force search over PQ codes, `BFSearch` of `include/index_bf.h`.

A queue of at most `k` pairs, the largest on top, takes every pair of a PQ distance and an id that
is nearer than its top, and is unloaded from the back of the result to its front.

* `IndexBF.bfSearch`: the source, with the `int` that counts down when the queue is unloaded.
* `IndexBF.queue_eq`: after `i` points the queue holds the `k` smallest of their pairs.
* `IndexBF.selects_iff`: when the result is the front of the sorted list of all pairs.
-/

namespace RedAnns

/-- What `BFSearch` uses of the class `IndexBF`. -/
structure IndexBF (K : Type*) where
  baseNum : UInt32
  numPqChunks : ℕ
  pqData : Bytes
  pqTable : FixedChunkPQTable K

/-- `res_dists` and `indices`. -/
structure BFResult (K : Type*) where
  resDists : List K
  indices : Buffer UInt32

section Source

variable {K : Type*} [Field K] [LinearOrder K]

/-- `std::vector::resize` of a vector of floats. -/
def resizeFloats (n : ℕ) (v : List K) : List K := v.take n ++ List.replicate (n - v.length) 0

/-- The body of the loop over the points, on a `std::priority_queue`: the pairs in increasing order,
the last of which is on top. A top of an empty queue is undefined. -/
def offerPair (k : ℕ) (dists : ℕ → K) (topK : List (K ×ₗ UInt32)) (i : ℕ) :
    Option (List (K ×ₗ UInt32)) :=
  let pair := toLex (dists i, UInt32.ofNat i)
  if topK.length < k then some (topK.orderedInsert (· ≤ ·) pair)
  else do
    let top ← topK.getLast?
    if dists i < (ofLex top).1 then return topK.dropLast.orderedInsert (· ≤ ·) pair
    else return topK

/-- The loop that unloads the queue, for `i` rounds. -/
def unload : ℕ → List (K ×ₗ UInt32) → BFResult K → Option (BFResult K)
  | 0, _, res => some res
  | i + 1, topK, res => do
      let top ← topK.getLast?
      unload i topK.dropLast
        ⟨res.resDists.set i (ofLex top).1, Function.update res.indices i (ofLex top).2⟩

/-- `int i = k - 1`. -/
def lastIndex (k : ℕ) : ℤ := ((k - 1 : ℕ) : ℤ).bmod (2 ^ 32)

namespace IndexBF

variable (ix : IndexBF K) (heap : Buffer K) (query : List K)

/-- `dists`. -/
def dists (i : ℕ) : K :=
  pqDistLookupSingleIn (ix.pqData.view (i * ix.numPqChunks)) ix.numPqChunks
    (ix.pqTable.populateChunkInnerProducts query heap)

/-- The queue after `n` points. -/
def queue (k n : ℕ) : Option (List (K ×ₗ UInt32)) :=
  (List.range n).foldlM (offerPair k (ix.dists heap query)) []

/-- `BFSearch`; `heap` is what the allocation of the table leaves in it. -/
def bfSearch (k : ℕ) (res : BFResult K) : Option (BFResult K) := do
  let topK ← ix.queue heap query k ix.baseNum.toNat
  unload (lastIndex k + 1).toNat topK { res with resDists := resizeFloats k res.resDists }

/-- All pairs of a distance and an id. -/
def pairs : List (K ×ₗ UInt32) :=
  (List.range ix.baseNum.toNat).map fun i => toLex (ix.dists heap query i, UInt32.ofNat i)

/-- The selection of `test_pq.cpp`: sort all pairs and take the first ones. -/
def sortAndTake (k : ℕ) : List (K ×ₗ UInt32) := ((ix.pairs heap query).mergeSort (· ≤ ·)).take k

/-- The result is the selection, in its order. -/
structure Selects (k : ℕ) (res : BFResult K) : Prop where
  resDists : res.resDists = (ix.sortAndTake heap query k).map fun pair => (ofLex pair).1
  indices : res.indices.take k = (ix.sortAndTake heap query k).map fun pair => (ofLex pair).2

end IndexBF

end Source

/-! ### The queue -/

section Queue

variable {K : Type*} [LinearOrder K] {dists : ℕ → K}

/-- The pairs of the first `n` points. -/
def firstPairs (dists : ℕ → K) (n : ℕ) : Finset (K ×ₗ UInt32) :=
  (Finset.range n).image fun i => toLex (dists i, UInt32.ofNat i)

lemma ofNat_lt_ofNat {i n : ℕ} (hi : i < n) (hn : n < 2 ^ 32) :
    UInt32.ofNat i < UInt32.ofNat n := by
  rw [UInt32.lt_iff_toNat_lt, UInt32.toNat_ofNat_of_lt' (hi.trans hn), UInt32.toNat_ofNat_of_lt' hn]
  exact hi

lemma mem_firstPairs {n : ℕ} {a : K ×ₗ UInt32} :
    a ∈ firstPairs dists n ↔ ∃ i < n, toLex (dists i, UInt32.ofNat i) = a := by
  simp [firstPairs]

lemma firstPairs_succ (n : ℕ) : firstPairs dists (n + 1)
    = insert (toLex (dists n, UInt32.ofNat n)) (firstPairs dists n) := by
  rw [firstPairs, Finset.range_add_one, Finset.image_insert]
  rfl

lemma notMem_firstPairs {n : ℕ} (hn : n < 2 ^ 32) :
    toLex (dists n, UInt32.ofNat n) ∉ firstPairs dists n := by
  intro h
  obtain ⟨i, hi, heq⟩ := mem_firstPairs.mp h
  have hid : UInt32.ofNat i = UInt32.ofNat n := congrArg (fun a => (ofLex a).2) heq
  exact absurd hid (ofNat_lt_ofNat hi hn).ne

lemma card_firstPairs {n : ℕ} (hn : n ≤ 2 ^ 32) : (firstPairs dists n).card = n := by
  induction n with
  | zero => rfl
  | succ n ih =>
      rw [firstPairs_succ, Finset.card_insert_of_notMem (notMem_firstPairs (by omega)),
        ih (by omega)]

/-- **One point**: the queue of the `k` smallest pairs stays that. -/
lemma offerPair_smallest [Field K] {k n : ℕ} (hk : 0 < k) (hn : n < 2 ^ 32) :
    offerPair k dists (smallest k (firstPairs dists n)) n
      = some (smallest k (firstPairs dists (n + 1))) := by
  have hnew : toLex (dists n, UInt32.ofNat n) ∉ firstPairs dists n := notMem_firstPairs hn
  have hcard : (firstPairs dists n).card = n := card_firstPairs hn.le
  have hlength : (smallest k (firstPairs dists n)).length = min k n := by
    rw [length_smallest, hcard]
  rw [offerPair, hlength, firstPairs_succ]
  by_cases hfew : min k n < k
  · rw [if_pos hfew, smallest_insert k hnew, List.take_of_length_le]
    rw [List.orderedInsert_length, hlength]
    omega
  · rw [if_neg hfew]
    have hfull : k ≤ (firstPairs dists n).card := by omega
    have hne : smallest k (firstPairs dists n) ≠ [] := fun h => by
      rw [h, List.length_nil] at hlength
      omega
    obtain ⟨init, top, hl⟩ :=
      (List.eq_nil_or_concat' (smallest k (firstPairs dists n))).resolve_left hne
    rw [hl, List.getLast?_concat]
    show (if dists n < (ofLex top).1 then _ else _) = _
    by_cases hlt : dists n < (ofLex top).1
    · rw [if_pos hlt, smallest_insert_of_lt hl hfull hnew (Prod.Lex.lt_iff.mpr (Or.inl hlt)),
        List.dropLast_concat]
      rfl
    · -- an equal distance comes with a larger id
      rw [if_neg hlt, smallest_insert_of_full hfull fun a ha => ?_, hl]
      · rfl
      · have hle : a ≤ top := by
          have hsorted := pairwise_smallest k (firstPairs dists n)
          rw [hl, List.pairwise_append] at hsorted
          rw [hl] at ha
          rcases List.mem_append.mp ha with ha | ha
          · exact (hsorted.2.2 a ha top (List.mem_singleton_self top)).le
          · exact (List.mem_singleton.mp ha).le
        have htop : top ∈ firstPairs dists n :=
          mem_of_mem_smallest (hl ▸ List.mem_append_right _ (List.mem_singleton_self top))
        obtain ⟨i, hi, rfl⟩ := mem_firstPairs.mp htop
        refine hle.trans_lt (Prod.Lex.lt_iff.mpr ?_)
        rcases lt_or_eq_of_le (not_lt.mp hlt) with hlt | heq
        · exact Or.inl hlt
        · exact Or.inr ⟨heq, ofNat_lt_ofNat hi hn⟩

end Queue

/-! ### The result -/

section Result

variable {K : Type*} [Field K] [LinearOrder K]

omit [Field K] [LinearOrder K] in
/-- **The queue is unloaded** from the back of the result to its front. -/
lemma unload_eq (topK : List (K ×ₗ UInt32)) (res : BFResult K)
    (hlen : topK.length ≤ res.resDists.length) :
    ∃ res', unload topK.length topK res = some res' ∧
      res'.resDists
        = topK.map (fun pair => (ofLex pair).1) ++ res.resDists.drop topK.length ∧
      ∀ j, res'.indices j = ((topK.map fun pair => (ofLex pair).2)[j]?).getD (res.indices j) := by
  induction topK using List.reverseRecOn generalizing res with
  | nil => exact ⟨res, rfl, rfl, fun j => rfl⟩
  | append_singleton init top ih =>
      rw [List.length_append, List.length_singleton] at hlen ⊢
      obtain ⟨res', hres', hdists, hindices⟩ := ih
        ⟨res.resDists.set init.length (ofLex top).1,
          Function.update res.indices init.length (ofLex top).2⟩ (by
          rw [List.length_set]
          omega)
      refine ⟨res', ?_, ?_, fun j => ?_⟩
      · rw [unload, List.getLast?_concat, List.dropLast_concat]
        exact hres'
      · have hdrop : (res.resDists.set init.length (ofLex top).1).drop init.length
            = (ofLex top).1 :: res.resDists.drop (init.length + 1) := by
          rw [List.drop_eq_getElem_cons (by rw [List.length_set]; omega), List.getElem_set_self,
            List.drop_set_of_lt (Nat.lt_succ_self _)]
        rw [hdists, hdrop, List.map_append, List.append_assoc]
        rfl
      · rw [hindices, List.map_append]
        rcases Nat.lt_trichotomy j init.length with hlt | rfl | hgt
        · rw [List.getElem?_append_left (by rwa [List.length_map]),
            List.getElem?_eq_getElem (by rwa [List.length_map])]
          rfl
        · rw [List.getElem?_eq_none (by rw [List.length_map]), Option.getD_none,
            List.getElem?_append_right (by rw [List.length_map])]
          simp
        · rw [List.getElem?_eq_none (by rw [List.length_map]; omega), Option.getD_none,
            List.getElem?_eq_none (by simp; omega), Option.getD_none]
          exact Function.update_of_ne hgt.ne' ..

/-- The `int` counts down from `k - 1`, if that is an `int`. -/
lemma rounds_eq {k : ℕ} (hk : 0 < k) (h : k ≤ 2 ^ 31) : (lastIndex k + 1).toNat = k := by
  have hlast : lastIndex k = ((k - 1 : ℕ) : ℤ) := Int.bmod_eq_of_le (by omega) (by omega)
  rw [hlast]
  omega

lemma rounds_eq_zero {k : ℕ} (h : 2 ^ 31 < k) (hk : k < 2 ^ 32) :
    (lastIndex k + 1).toNat = 0 := by
  have hneg : (((k - 1 : ℕ) : ℤ) - (2 ^ 32 : ℕ)).bmod (2 ^ 32) = ((k - 1 : ℕ) : ℤ) - 2 ^ 32 :=
    Int.bmod_eq_of_le (by omega) (by omega)
  have hlast : lastIndex k = ((k - 1 : ℕ) : ℤ) - 2 ^ 32 :=
    (Int.sub_bmod_right _ _).symm.trans hneg
  omega

omit [LinearOrder K] in
lemma length_resizeFloats (n : ℕ) (v : List K) : (resizeFloats n v).length = n := by
  simp only [resizeFloats, List.length_append, List.length_take, List.length_replicate]
  omega

namespace IndexBF

variable (ix : IndexBF K) (heap : Buffer K) (query : List K)

/-- **After `n` points the queue holds the `k` smallest of their pairs.** -/
theorem queue_eq {k n : ℕ} (hk : 0 < k) (hn : n ≤ 2 ^ 32) :
    ix.queue heap query k n = some (smallest k (firstPairs (ix.dists heap query) n)) := by
  induction n with
  | zero =>
      rw [firstPairs, Finset.range_zero, Finset.image_empty, smallest_empty]
      rfl
  | succ n ih =>
      rw [queue, List.range_succ, List.foldlM_append, ← queue, ih (by omega)]
      show (offerPair k _ _ n >>= fun topK => some topK) = _
      rw [offerPair_smallest hk (by omega)]
      rfl

/-- Sorting all pairs and taking the first ones takes the smallest ones. -/
lemma sortAndTake_eq (k : ℕ) : ix.sortAndTake heap query k
    = smallest k (firstPairs (ix.dists heap query) ix.baseNum.toNat) := by
  have hlt : ix.baseNum.toNat < 2 ^ 32 := ix.baseNum.toNat_lt
  have hnodup : (ix.pairs heap query).Nodup := by
    refine List.Nodup.map_on (fun i hi j hj heq => ?_) List.nodup_range
    have hi : i < ix.baseNum.toNat := List.mem_range.mp hi
    have hj : j < ix.baseNum.toNat := List.mem_range.mp hj
    have hid : UInt32.ofNat i = UInt32.ofNat j := congrArg (fun a => (ofLex a).2) heq
    rcases Nat.lt_trichotomy i j with h | h | h
    · exact absurd hid (ofNat_lt_ofNat h (by omega)).ne
    · exact h
    · exact absurd hid (ofNat_lt_ofNat h (by omega)).ne'
  have hset : (ix.pairs heap query).toFinset
      = firstPairs (ix.dists heap query) ix.baseNum.toNat := by
    ext a
    rw [List.mem_toFinset, pairs, List.mem_map, mem_firstPairs]
    simp only [List.mem_range]
  rw [sortAndTake, take_mergeSort hnodup, hset]

lemma length_sortAndTake {k : ℕ} (hk : k ≤ ix.baseNum.toNat) :
    (ix.sortAndTake heap query k).length = k := by
  have hlt : ix.baseNum.toNat < 2 ^ 32 := ix.baseNum.toNat_lt
  rw [sortAndTake_eq, length_smallest, card_firstPairs hlt.le, min_eq_left hk]

/-- The search selects what sorting selects, if `k - 1` is an `int`. -/
lemma selects_of {k : ℕ} (hk : 0 < k) (hkn : k ≤ ix.baseNum.toNat) (h : k ≤ 2 ^ 31)
    (res : BFResult K) :
    ∃ res', ix.bfSearch heap query k res = some res' ∧ ix.Selects heap query k res' := by
  have hlt : ix.baseNum.toNat < 2 ^ 32 := ix.baseNum.toNat_lt
  have hlen := ix.length_sortAndTake heap query hkn
  obtain ⟨res', hres', hdists, hindices⟩ := unload_eq (ix.sortAndTake heap query k)
    { res with resDists := resizeFloats k res.resDists } (by rw [hlen, length_resizeFloats])
  refine ⟨res', ?_, ?_, ?_⟩
  · rw [bfSearch, queue_eq ix heap query hk hlt.le, rounds_eq hk h, ← sortAndTake_eq]
    rw [hlen] at hres'
    exact hres'
  · rw [hdists, hlen, List.drop_of_length_le (length_resizeFloats k _).le, List.append_nil]
  · refine List.ext_getElem (by simp [hlen]) fun j hj hj' => ?_
    have hget := hindices j
    rw [List.getElem?_eq_getElem hj', Option.getD_some] at hget
    rw [← hget]
    simp [Buffer.take]

/-- Otherwise the queue is not unloaded at all. -/
lemma not_selects {k : ℕ} (hkn : k ≤ ix.baseNum.toNat) (h : 2 ^ 31 < k) :
    ∃ res, ¬ ∃ res', ix.bfSearch heap query k res = some res' ∧ ix.Selects heap query k res' := by
  have hlt : ix.baseNum.toNat < 2 ^ 32 := ix.baseNum.toNat_lt
  have hlen := ix.length_sortAndTake heap query hkn
  obtain ⟨first, rest, hfirst⟩ := List.exists_cons_of_length_pos (hlen ▸ Nat.zero_lt_of_lt h)
  -- an array that holds another id in its first place keeps it
  refine ⟨⟨[], fun _ => (ofLex first).2 + 1⟩, ?_⟩
  rintro ⟨res', hres', hsel⟩
  rw [bfSearch, queue_eq ix heap query (Nat.zero_lt_of_lt h) hlt.le,
    rounds_eq_zero h (hkn.trans_lt hlt)] at hres'
  have hsame : res'.indices = fun _ => (ofLex first).2 + 1 :=
    (congrArg BFResult.indices (Option.some.inj hres')).symm
  have hindices := hsel.indices
  obtain ⟨m, rfl⟩ := Nat.exists_eq_succ_of_ne_zero (Nat.zero_lt_of_lt h).ne'
  rw [hfirst, hsame, List.map_cons, Buffer.take, List.range_succ_eq_map, List.map_cons,
    List.cons.injEq] at hindices
  exact absurd hindices.1 (by simp)

/-- **When the search selects what sorting selects**, whatever the arrays for its result hold: when
`k - 1` is an `int`. -/
theorem selects_iff {k : ℕ} (hk : 1 ≤ k) (hkn : k ≤ ix.baseNum.toNat) :
    (∀ res, ∃ res', ix.bfSearch heap query k res = some res' ∧ ix.Selects heap query k res')
      ↔ k ≤ 2 ^ 31 := by
  refine ⟨fun h => ?_, fun h => ix.selects_of heap query hk hkn h⟩
  by_contra hnot
  obtain ⟨res, hres⟩ := ix.not_selects heap query hkn (not_le.mp hnot)
  exact hres (h res)

end IndexBF

/-- A base set of points in one dimension whose codes are all zero. -/
def zeroCodes (baseNum : UInt32) : IndexBF ℚ where
  baseNum := baseNum
  numPqChunks := 1
  pqData := fun _ => 0
  pqTable :=
    { tables := [1]
      ndims := 1
      nChunks := 1
      chunkOffsets := [0, 1]
      centroid := [0]
      first_eq := rfl
      last_eq := rfl
      mono := by decide }

theorem not_selects_zeroCodes : ¬ ∀ res, ∃ res',
    (zeroCodes 2147483649).bfSearch (fun _ => 0) [2] 2147483649 res = some res' ∧
      (zeroCodes 2147483649).Selects (fun _ => 0) [2] 2147483649 res' := by
  have hnum : (zeroCodes 2147483649).baseNum.toNat = 2147483649 := rfl
  obtain ⟨res, hres⟩ := (zeroCodes 2147483649).not_selects (k := 2147483649) (fun _ => 0) [2]
    hnum.ge (by norm_num)
  exact fun h => hres (h res)

theorem selects_iff_zeroCodes :
    (∀ res, ∃ res', (zeroCodes 3).bfSearch (fun _ => 0) [2] 2 res = some res' ∧
      (zeroCodes 3).Selects (fun _ => 0) [2] 2 res') ↔ 2 ≤ 2 ^ 31 :=
  (zeroCodes 3).selects_iff (fun _ => 0) [2] (by norm_num) (by decide)

end Result

end RedAnns
