import RedAnns.Lib.Best
import RedAnns.Store.Cache
import RedAnns.Store.Fetching

/-!
Which records `GStore::set_cache` chooses for the RDMA cache.

The counts of all remote records are sorted downwards, as pairs with the record, and the loop takes
records from the front until the budget is used up or a count is zero.

* `pickKeys_eq`: the loop takes the front of the records with a positive count.
* `GStore.remoteItems`: the records on other servers, each once, although servers and local ids are
  narrowed to one and four bytes (`mem_remoteItems`).
* `cachesHottest`: the chosen keys are a best selection by their counts.
-/

namespace RedAnns

namespace GStore

/-! ### The loop -/

/-- The loop takes the front of what is left of the sorted counts before the first zero. -/
lemma pickKeys_eq (numNodesToCache : ℕ) (frequency : List (ℕ × Item)) (keys : List Item) :
    pickKeys numNodesToCache frequency keys = keys ++ (((frequency.takeWhile (·.1 ≠ 0)).take
      (numNodesToCache - keys.length)).map Prod.snd) := by
  induction frequency generalizing keys with
  | nil => simp [pickKeys]
  | cons f frequency ih =>
      rw [pickKeys]
      split_ifs with hfull hzero
      · rw [Nat.sub_eq_zero_of_le hfull, List.take_zero, List.map_nil, List.append_nil]
      · rw [List.takeWhile_cons_of_neg (by simp [hzero]), List.take_nil, List.map_nil,
          List.append_nil]
      · have hroom : numNodesToCache - keys.length
            = (numNodesToCache - (keys ++ [f.2]).length) + 1 := by
          rw [List.length_append, List.length_singleton]
          omega
        rw [ih, List.takeWhile_cons_of_pos (by simpa using hzero), hroom, List.take_succ_cons,
          List.map_cons, List.append_assoc, List.singleton_append]

/-- In a list that falls, what comes before the first zero is what is not zero. -/
lemma takeWhile_eq_filter {l : List (ℕ × Item)} (h : l.Pairwise fun f f' => f'.1 ≤ f.1) :
    l.takeWhile (·.1 ≠ 0) = l.filter (·.1 ≠ 0) := by
  induction l with
  | nil => rfl
  | cons f l ih =>
      obtain ⟨hhead, htail⟩ := List.pairwise_cons.mp h
      by_cases hzero : f.1 = 0
      · have hall : ∀ f' ∈ l, ¬ decide (f'.1 ≠ 0) = true := fun f' hf' => by
          have hle := hhead f' hf'
          simp only [ne_eq, decide_not, Bool.not_eq_true, Bool.not_eq_false',
            decide_eq_true_eq]
          omega
        rw [List.takeWhile_cons_of_neg (by simp [hzero]), List.filter_cons_of_neg (by simp [hzero]),
          List.filter_eq_nil_iff.mpr hall]
      · rw [List.takeWhile_cons_of_pos (by simpa using hzero),
          List.filter_cons_of_pos (by simpa using hzero), ih htail]

/-! ### The records on other servers -/

section Remote

variable (gs : GStore) (accessCount : ℕ → ℕ → ℕ) (dataNum : List ℕ)

/-- The records on other servers, in the order of the two loops. -/
def remoteItems : List Item :=
  (List.range gs.numServers).flatMap fun dsid =>
    if dsid = gs.sid.toNat then []
    else (List.range (dataNum.getD dsid 0)).map fun dlid =>
      ⟨UInt8.ofNat dsid, UInt32.ofNat dlid⟩

/-- The count of a record. -/
def count (accessCount : ℕ → ℕ → ℕ) (key : Item) : ℕ :=
  accessCount key.first.toNat key.second.toNat

variable {gs accessCount dataNum}

/-- **A record is on another server** when its server is one of the cluster but not this one, and
its local id is one of the server's. -/
lemma mem_remoteItems (h256 : gs.numServers ≤ 256) (hdata : ∀ dsid, dataNum.getD dsid 0 < 2 ^ 32)
    {key : Item} : key ∈ gs.remoteItems dataNum ↔ key.first.toNat < gs.numServers ∧
      key.first ≠ gs.sid ∧ key.second.toNat < dataNum.getD key.first.toNat 0 := by
  rw [remoteItems, List.mem_flatMap]
  constructor
  · rintro ⟨dsid, hdsid, hkey⟩
    rw [List.mem_range] at hdsid
    split_ifs at hkey with hsid
    · exact absurd hkey List.not_mem_nil
    · obtain ⟨dlid, hdlid, rfl⟩ := List.mem_map.mp hkey
      rw [List.mem_range] at hdlid
      have hlt := hdata dsid
      have hfirst : (UInt8.ofNat dsid).toNat = dsid := by
        rw [UInt8.toNat_ofNat', Nat.mod_eq_of_lt (by omega)]
      have hsecond : (UInt32.ofNat dlid).toNat = dlid := by
        rw [UInt32.toNat_ofNat', Nat.mod_eq_of_lt (by omega)]
      simp only [hfirst, hsecond]
      exact ⟨hdsid, fun heq => hsid (by rw [← heq, hfirst]), hdlid⟩
  · rintro ⟨hfirst, hne, hsecond⟩
    refine ⟨key.first.toNat, List.mem_range.mpr hfirst, ?_⟩
    rw [if_neg fun heq => hne (UInt8.toNat_inj.mp heq)]
    exact List.mem_map.mpr ⟨key.second.toNat, List.mem_range.mpr hsecond, by
      rw [UInt8.ofNat_toNat, UInt32.ofNat_toNat]⟩

/-- Narrowing tells all records apart. -/
lemma nodup_remoteItems (h256 : gs.numServers ≤ 256)
    (hdata : ∀ dsid, dataNum.getD dsid 0 < 2 ^ 32) : (gs.remoteItems dataNum).Nodup := by
  rw [remoteItems, List.nodup_flatMap]
  refine ⟨fun dsid _ => ?_, List.nodup_range.imp_of_mem fun {a b} ha hb hab => ?_⟩
  · split_ifs
    · exact List.nodup_nil
    · refine List.nodup_range.map_on fun i hi j hj hij => ?_
      have hlt := hdata dsid
      rw [List.mem_range] at hi hj
      have hsecond := congrArg (fun t : Item => t.second.toNat) hij
      simp only [UInt32.toNat_ofNat'] at hsecond
      rwa [Nat.mod_eq_of_lt (by omega), Nat.mod_eq_of_lt (by omega)] at hsecond
  · rw [List.mem_range] at ha hb
    refine List.disjoint_left.mpr fun key hkey hkey' => hab ?_
    dsimp only at hkey hkey'
    split_ifs at hkey
    · exact absurd hkey List.not_mem_nil
    · split_ifs at hkey'
      · exact absurd hkey' List.not_mem_nil
      · obtain ⟨_, -, rfl⟩ := List.mem_map.mp hkey
        obtain ⟨_, -, heq⟩ := List.mem_map.mp hkey'
        have hfirst := congrArg (fun t : Item => t.first.toNat) heq
        simp only [UInt8.toNat_ofNat'] at hfirst
        rw [Nat.mod_eq_of_lt (by omega), Nat.mod_eq_of_lt (by omega)] at hfirst
        exact hfirst.symm

/-- The sorted table holds every record on another server once, with its count. -/
lemma frequency_eq (h256 : gs.numServers ≤ 256) (hdata : ∀ dsid, dataNum.getD dsid 0 < 2 ^ 32) :
    gs.frequency accessCount dataNum
      = (gs.remoteItems dataNum).map fun key => (count accessCount key, key) := by
  rw [frequency, remoteItems, List.map_flatMap]
  refine List.flatMap_congr fun dsid hdsid => ?_
  rw [List.mem_range] at hdsid
  split_ifs
  · rfl
  · rw [List.map_map]
    refine List.map_congr_left fun dlid hdlid => ?_
    have hlt := hdata dsid
    rw [List.mem_range] at hdlid
    have hfirst : (UInt8.ofNat dsid).toNat = dsid := by
      rw [UInt8.toNat_ofNat', Nat.mod_eq_of_lt (by omega)]
    have hsecond : (UInt32.ofNat dlid).toNat = dlid := by
      rw [UInt32.toNat_ofNat', Nat.mod_eq_of_lt (by omega)]
    simp only [Function.comp_apply, count, hfirst, hsecond]

variable (gs accessCount dataNum)

/-- The records on other servers that were accessed. -/
def hotItems : Finset Item :=
  ((gs.remoteItems dataNum).filter fun key => count accessCount key ≠ 0).toFinset

variable {gs accessCount dataNum}

/-- **The chosen keys** are a best selection of the accessed records, by their counts. -/
lemma best_cacheKeys (h256 : gs.numServers ≤ 256) (hdata : ∀ dsid, dataNum.getD dsid 0 < 2 ^ 32)
    (numNodesToCache : ℕ) :
    Best (fun key => OrderDual.toDual (count accessCount key)) numNodesToCache
      (gs.hotItems accessCount dataNum) (gs.cacheKeys accessCount dataNum numNodesToCache) := by
  set sorted := (gs.frequency accessCount dataNum).mergeSort
    fun f f' => decide (toLex f' ≤ toLex f) with hsorted
  have hperm : sorted.Perm ((gs.remoteItems dataNum).map fun key => (count accessCount key, key)) :=
    (List.mergeSort_perm _ _).trans (by rw [frequency_eq h256 hdata])
  have hfst : ∀ f ∈ sorted, f.1 = count accessCount f.2 := by
    intro f hf
    obtain ⟨key, -, rfl⟩ := List.mem_map.mp (hperm.mem_iff.mp hf)
    rfl
  have hfalls : sorted.Pairwise fun f f' => f'.1 ≤ f.1 := by
    have hpair : sorted.Pairwise fun f f' => decide (toLex f' ≤ toLex f) = true :=
      List.pairwise_mergeSort
        (fun a b c hab hbc => decide_eq_true
            ((of_decide_eq_true hbc).trans (of_decide_eq_true hab)))
        (fun a b => by
          rw [Bool.or_eq_true, decide_eq_true_iff, decide_eq_true_iff]
          exact le_total _ _) _
    refine hpair.imp fun {f f'} hle => ?_
    rcases Prod.Lex.le_iff.mp (of_decide_eq_true hle) with hlt | ⟨heq, -⟩
    · exact hlt.le
    · exact heq.le
  have hkeys : gs.cacheKeys accessCount dataNum numNodesToCache
      = ((sorted.filter (·.1 ≠ 0)).map Prod.snd).take numNodesToCache := by
    rw [cacheKeys, pickKeys_eq, ← hsorted, takeWhile_eq_filter hfalls, List.nil_append,
      List.length_nil, Nat.sub_zero, List.map_take]
  rw [hkeys]
  refine Best.of_sorted ?_ ?_ (fun key => ?_) numNodesToCache
  · rw [List.pairwise_map]
    refine (hfalls.filter _).imp_of_mem fun {f f'} hf hf' hle => ?_
    show OrderDual.toDual _ ≤ OrderDual.toDual _
    rw [OrderDual.toDual_le_toDual, ← hfst f (List.mem_of_mem_filter hf),
      ← hfst f' (List.mem_of_mem_filter hf')]
    exact hle
  · have hnodup : (sorted.map Prod.snd).Nodup := by
      refine (hperm.map Prod.snd).nodup_iff.mpr ?_
      rw [List.map_map]
      exact (List.map_id _).symm ▸ nodup_remoteItems h256 hdata
    exact hnodup.sublist ((List.filter_sublist).map Prod.snd)
  · rw [hotItems, List.mem_toFinset, List.mem_filter, List.mem_map]
    constructor
    · rintro ⟨f, hf, rfl⟩
      obtain ⟨hf, hpos⟩ := List.mem_filter.mp hf
      obtain ⟨key, hkey, rfl⟩ := List.mem_map.mp (hperm.mem_iff.mp hf)
      exact ⟨hkey, by simpa using hpos⟩
    · rintro ⟨hkey, hpos⟩
      refine ⟨(count accessCount key, key), List.mem_filter.mpr ⟨?_, by simpa using hpos⟩, rfl⟩
      exact hperm.mem_iff.mpr (List.mem_map.mpr ⟨key, hkey, rfl⟩)

variable (gs accessCount dataNum)

/-- **The keys are the hottest records on other servers**, as many as the budget allows, and no
other choice within the budget is accessed more often in total. -/
structure CachesHottest (numNodesToCache : ℕ) (keys : List Item) : Prop where
  nodup : keys.Nodup
  remote : ∀ key ∈ keys, key ∈ gs.remoteItems dataNum ∧ key.first ≠ gs.sid
  accessed : ∀ key ∈ keys, 0 < count accessCount key
  length_eq : keys.length = min numNodesToCache (gs.hotItems accessCount dataNum).card
  hottest : ∀ key ∈ gs.remoteItems dataNum, key ∉ keys → ∀ key' ∈ keys,
    count accessCount key ≤ count accessCount key'
  maximal : ∀ other : Finset Item, (∀ key ∈ other, key ∈ gs.remoteItems dataNum) →
    other.card ≤ numNodesToCache →
      ∑ key ∈ other, count accessCount key ≤ (keys.map (count accessCount)).sum

variable {gs accessCount dataNum}

lemma mem_hotItems {key : Item} : key ∈ gs.hotItems accessCount dataNum ↔
    key ∈ gs.remoteItems dataNum ∧ count accessCount key ≠ 0 := by
  rw [hotItems, List.mem_toFinset, List.mem_filter, decide_eq_true_iff]

/-- **The cache is filled with the hottest remote vertices.** -/
theorem cachesHottest (h256 : gs.numServers ≤ 256) (hdata : ∀ dsid, dataNum.getD dsid 0 < 2 ^ 32)
    (numNodesToCache : ℕ) : CachesHottest gs accessCount dataNum numNodesToCache
      (gs.cacheKeys accessCount dataNum numNodesToCache) := by
  have hbest : Best (fun key => OrderDual.toDual (count accessCount key)) numNodesToCache
      (gs.hotItems accessCount dataNum) (gs.cacheKeys accessCount dataNum numNodesToCache) :=
    best_cacheKeys h256 hdata numNodesToCache
  refine
    { nodup := hbest.nodup
      remote := fun key hkey => ?_
      accessed := fun key hkey => Nat.pos_of_ne_zero (mem_hotItems.mp (hbest.subset key hkey)).2
      length_eq := hbest.length_eq
      hottest := fun key hkey hnot key' hkey' => ?_
      maximal := fun other hother hcard => ?_ }
  · have hmem := (mem_hotItems.mp (hbest.subset key hkey)).1
    exact ⟨hmem, ((mem_remoteItems h256 hdata).mp hmem).2.1⟩
  · by_cases hzero : count accessCount key = 0
    · rw [hzero]
      exact Nat.zero_le _
    · exact hbest.rest key (mem_hotItems.mpr ⟨hkey, hzero⟩) hnot key' hkey'
  · -- records that were not accessed add nothing
    have hsub : other.filter (fun key => count accessCount key ≠ 0)
        ⊆ gs.hotItems accessCount dataNum := fun key hkey => by
      obtain ⟨hmem, hpos⟩ := Finset.mem_filter.mp hkey
      exact mem_hotItems.mpr ⟨hother key hmem, hpos⟩
    have hle := hbest.sum_le (w := count accessCount) (fun _ _ h => h) hsub
      ((Finset.card_filter_le _ _).trans hcard)
    calc ∑ key ∈ other, count accessCount key
        = ∑ key ∈ other.filter (fun key => count accessCount key ≠ 0), count accessCount key :=
          (Finset.sum_filter_ne_zero other).symm
      _ ≤ ∑ key ∈ (gs.cacheKeys accessCount dataNum numNodesToCache).toFinset,
            count accessCount key := hle
      _ = ((gs.cacheKeys accessCount dataNum numNodesToCache).map (count accessCount)).sum :=
          List.sum_toFinset _ hbest.nodup

end Remote

/-- Two of the three records on the other server were accessed, and there is room for one. -/
theorem cachesHottest_twoServers :
    CachesHottest twoServersStore (fun dsid dlid =>
        ([[4, 4, 4], [2, 0, 5]].getD dsid []).getD dlid 0)
      [3, 3] 1 (twoServersStore.cacheKeys
        (fun dsid dlid => ([[4, 4, 4], [2, 0, 5]].getD dsid []).getD dlid 0) [3, 3] 1) := by
  refine cachesHottest (by decide) (fun dsid => ?_) 1
  rcases dsid with _ | _ | dsid
  · decide
  · decide
  · exact Nat.two_pow_pos 32

end GStore

end RedAnns
