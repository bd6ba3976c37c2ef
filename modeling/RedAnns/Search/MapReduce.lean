import Mathlib.Algebra.Order.BigOperators.Group.Finset
import RedAnns.Core.NeighborQueue
import RedAnns.Lib.Best

/-!
The map-reduce baseline, `tests/test_map_reduce.cpp`, on one query: the loops over the queries do
the same for every one of them.

Each server searches its own shard, turns the labels of its results into ids of the whole base set
with the size of this one shard, and sends them to the first server, which sorts all results.

* `MapReduce`: the shards in rank order and what the search has found in each, a best selection
  (`Best`) of its vertices.
* `toGlobal`, `msg`, `collect`, `merge`: the source, with the widths of its integers.
* `Correct`: what the baseline is for; `InPlace`: when the ids are positions of the whole base set.
* `MapReduce.correct_iff`: the two are the same. `MapReduce.inPlace_of_equal`: shards of one size.
-/

namespace RedAnns

/-- The position of the first vertex of the shard of the server `sid`. -/
def shardOffset (baseNum : ℕ → UInt32) (sid : ℕ) : ℕ := ∑ t ∈ Finset.range sid, (baseNum t).toNat

/-- The servers of a run, the sizes of their shards, which `load_base_data` reads into an
`unsigned`, and the labels that their searches return, `K` nearest vertices of each shard. `stoi`
reads `K`, and an `int` counts up to it. The distances to the query are those of the whole base set,
by position. -/
structure MapReduce (δ : Type) [LinearOrder δ] where
  serverNum : ℕ
  K : UInt32
  baseNum : ℕ → UInt32
  distance : ℕ → δ
  label : ℕ → List UInt32
  serverNum_pos : 0 < serverNum
  K_pos : 0 < K
  K_lt : K.toNat < 2 ^ 31
  length_label : ∀ sid < serverNum, (label sid).length = K.toNat
  best : ∀ sid < serverNum, Best (fun l => distance (shardOffset baseNum sid + l)) K.toNat
    (Finset.range (baseNum sid).toNat) ((label sid).map UInt32.toNat)

/-- What a server sends: `indices` and `distances` of a `ResultMsg`. -/
structure ResultMsg (δ : Type) where
  indices : List UInt32
  distances : List δ

/-- `prev_num`: `sid * index._base_num`, where `_base_num` is a `size_t`. -/
def prevNum (sid : ℕ) (baseNum : UInt32) : UInt64 := UInt64.ofNat sid * baseNum.toUInt64

/-- `res_indices[i][k] += prev_num`. -/
def toGlobal (sid : ℕ) (baseNum label : UInt32) : UInt32 :=
  (label.toUInt64 + prevNum sid baseNum).toUInt32

namespace MapReduce

variable {δ : Type} [LinearOrder δ] (m : MapReduce δ)

/-- The position of a vertex in the whole base set. -/
def position (sid : ℕ) (label : UInt32) : ℕ := shardOffset m.baseNum sid + label.toNat

/-- The size of the whole base set. -/
def total : ℕ := shardOffset m.baseNum m.serverNum

/-- `res_indices` and `res_distances` of a server, once the labels are turned into ids. -/
def msg (sid : ℕ) : ResultMsg δ where
  indices := (m.label sid).map (toGlobal sid (m.baseNum sid))
  distances := (m.label sid).map fun l => m.distance (m.position sid l)

/-- `indices_collected` and `distances_collected`: the first server receives from the others in rank
order. -/
def collect : ResultMsg δ :=
  (List.range' 1 (m.serverNum - 1)).foldl
    (fun acc ssid =>
      ⟨acc.indices ++ (m.msg ssid).indices, acc.distances ++ (m.msg ssid).distances⟩) (m.msg 0)

/-- The merge on the first server, with its two `ASSERT`s; `server_num * K` is a product of 32
bits. -/
def merge : Except String (ResultMsg δ) :=
  let collected := m.collect
  let count := (UInt32.ofNat m.serverNum * m.K).toNat
  if collected.indices.length = count ∧ collected.distances.length = count then
    let neighbors := List.zipWith (fun id distance => (⟨id, distance, false⟩ : Neighbor UInt32 δ))
      collected.indices collected.distances
    let sorted := neighbors.mergeSort fun a b => !b.lt a
    .ok ⟨sorted.map Neighbor.id, sorted.map Neighbor.distance⟩
  else .error "Something wrong happened"

/-- Every server breaks ties by label. -/
def TiesByLabel : Prop :=
  ∀ sid < m.serverNum, Best (fun l => toLex (m.distance (shardOffset m.baseNum sid + l), l))
    m.K.toNat (Finset.range (m.baseNum sid).toNat) ((m.label sid).map UInt32.toNat)

/-- **What the baseline is for**: the ids are positions, those of different shards are different,
and the first `K` entries are `K` nearest vertices of the whole base set. -/
structure Correct : Prop where
  named : ∀ sid < m.serverNum, ∀ l ∈ m.label sid,
    (toGlobal sid (m.baseNum sid) l).toNat = m.position sid l
  apart : ∀ sid < m.serverNum, ∀ sid' < m.serverNum, sid ≠ sid' → ∀ l ∈ m.label sid,
    ∀ l' ∈ m.label sid', toGlobal sid (m.baseNum sid) l ≠ toGlobal sid' (m.baseNum sid') l'
  merged : ∃ out, m.merge = .ok out ∧
    Best m.distance m.K.toNat (Finset.range m.total)
      ((out.indices.take m.K.toNat).map UInt32.toNat) ∧
    out.distances.take m.K.toNat =
      (out.indices.take m.K.toNat).map (fun id => m.distance id.toNat) ∧
    (m.TiesByLabel → Best (fun v => toLex (m.distance v, v)) m.K.toNat (Finset.range m.total)
      ((out.indices.take m.K.toNat).map UInt32.toNat))

/-- **When the ids are positions**: what a server adds is the number of vertices before its shard,
the positions of the results are numbers of 32 bits, and so is the number of results. -/
structure InPlace : Prop where
  prevNum_eq : ∀ sid < m.serverNum,
    sid * (m.baseNum sid).toNat ≡ shardOffset m.baseNum sid [MOD 2 ^ 32]
  position_lt : ∀ sid < m.serverNum, ∀ l ∈ m.label sid, m.position sid l < 2 ^ 32
  count_lt : m.serverNum * m.K.toNat < 2 ^ 32

/-! ### Names -/

lemma shardOffset_succ (baseNum : ℕ → UInt32) (sid : ℕ) :
    shardOffset baseNum (sid + 1) = shardOffset baseNum sid + (baseNum sid).toNat :=
  Finset.sum_range_succ _ _

lemma shardOffset_le (baseNum : ℕ → UInt32) {s t : ℕ} (h : s < t) :
    shardOffset baseNum s + (baseNum s).toNat ≤ shardOffset baseNum t := by
  rw [← shardOffset_succ]
  exact Finset.sum_le_sum_of_subset (Finset.range_mono h)

lemma toNat_toGlobal (sid : ℕ) (baseNum label : UInt32) :
    (toGlobal sid baseNum label).toNat = (label.toNat + sid * baseNum.toNat) % 2 ^ 32 := by
  have hdvd : 2 ^ 32 ∣ 2 ^ 64 := ⟨2 ^ 32, by norm_num⟩
  have hmul : (prevNum sid baseNum).toNat = sid * baseNum.toNat % 2 ^ 64 := by
    rw [prevNum, UInt64.toNat_mul, UInt64.toNat_ofNat', UInt32.toNat_toUInt64, Nat.mod_mul_mod]
  rw [toGlobal, UInt64.toNat_toUInt32, UInt64.toNat_add, UInt32.toNat_toUInt64, hmul,
    Nat.mod_mod_of_dvd _ hdvd, Nat.add_mod, Nat.mod_mod_of_dvd _ hdvd, ← Nat.add_mod]

variable {m}

lemma label_lt {sid : ℕ} (hsid : sid < m.serverNum) {l : UInt32} (hl : l ∈ m.label sid) :
    l.toNat < (m.baseNum sid).toNat :=
  Finset.mem_range.mp ((m.best sid hsid).subset _ (List.mem_map_of_mem hl))

lemma exists_label {sid : ℕ} (hsid : sid < m.serverNum) : ∃ l, l ∈ m.label sid := by
  have hlen := m.length_label sid hsid
  have hK := UInt32.lt_iff_toNat_lt.mp m.K_pos
  exact List.exists_mem_of_length_pos (by rw [hlen]; exact hK)

/-- The ids are positions where what is added is the number of vertices before the shard. -/
lemma InPlace.named (h : m.InPlace) {sid : ℕ} (hsid : sid < m.serverNum) {l : UInt32}
    (hl : l ∈ m.label sid) : (toGlobal sid (m.baseNum sid) l).toNat = m.position sid l := by
  have hlt := h.position_lt sid hsid l hl
  have hmod : l.toNat + sid * (m.baseNum sid).toNat ≡ m.position sid l [MOD 2 ^ 32] := by
    rw [position, Nat.add_comm]
    exact (h.prevNum_eq sid hsid).add_right l.toNat
  rw [toNat_toGlobal]
  exact Eq.trans hmod (Nat.mod_eq_of_lt hlt)

/-- The shards lie behind one another. -/
lemma position_ne {s t : ℕ} (hs : s < m.serverNum) (ht : t < m.serverNum) (hne : s ≠ t)
    {l l' : UInt32} (hl : l ∈ m.label s) (hl' : l' ∈ m.label t) :
    m.position s l ≠ m.position t l' := by
  have h1 := label_lt hs hl
  have h2 := label_lt ht hl'
  rcases Nat.lt_or_gt_of_ne hne with hst | hst
  · have := shardOffset_le m.baseNum hst
    rw [position, position]
    omega
  · have := shardOffset_le m.baseNum hst
    rw [position, position]
    omega

/-! ### The merge -/

/-- All results, each with the server it comes from. -/
def results (m : MapReduce δ) : List (ℕ × UInt32) :=
  (List.range m.serverNum).flatMap fun sid => (m.label sid).map fun l => (sid, l)

lemma mem_results {p : ℕ × UInt32} : p ∈ m.results ↔ p.1 < m.serverNum ∧ p.2 ∈ m.label p.1 := by
  rw [results, List.mem_flatMap]
  constructor
  · rintro ⟨sid, hsid, hp⟩
    obtain ⟨l, hl, rfl⟩ := List.mem_map.mp hp
    exact ⟨List.mem_range.mp hsid, hl⟩
  · rintro ⟨hsid, hl⟩
    exact ⟨p.1, List.mem_range.mpr hsid, List.mem_map.mpr ⟨p.2, hl, rfl⟩⟩

/-- What the first server has in the end: the results of all servers. -/
lemma collect_eq : m.collect =
    ⟨m.results.map fun p => toGlobal p.1 (m.baseNum p.1) p.2,
      m.results.map fun p => m.distance (m.position p.1 p.2)⟩ := by
  have hfold : ∀ (is : List ℕ) (acc : ResultMsg δ),
      is.foldl (fun acc ssid => (⟨acc.indices ++ (m.msg ssid).indices,
        acc.distances ++ (m.msg ssid).distances⟩ : ResultMsg δ)) acc
      = ⟨acc.indices ++ is.flatMap fun ssid => (m.msg ssid).indices,
          acc.distances ++ is.flatMap fun ssid => (m.msg ssid).distances⟩ := by
    intro is
    induction is with
    | nil =>
        intro acc
        rw [List.flatMap_nil, List.append_nil, List.flatMap_nil, List.append_nil]
        rfl
    | cons i is ih =>
        intro acc
        rw [List.foldl_cons, ih, List.flatMap_cons, List.flatMap_cons, List.append_assoc,
          List.append_assoc]
  have hrange : List.range m.serverNum = 0 :: List.range' 1 (m.serverNum - 1) := by
    obtain ⟨n, hn⟩ := Nat.exists_eq_succ_of_ne_zero m.serverNum_pos.ne'
    rw [hn, List.range_eq_range', List.range'_succ]
    rfl
  rw [collect, hfold, results, hrange, List.flatMap_cons, List.map_append, List.map_append,
    List.map_flatMap, List.map_flatMap, List.map_map, List.map_map]
  simp only [List.map_map]
  rfl

lemma length_results : m.results.length = m.serverNum * m.K.toNat := by
  rw [results, List.length_flatMap]
  have hall : ∀ sid ∈ List.range m.serverNum,
      ((m.label sid).map fun l => (sid, l)).length = m.K.toNat := fun sid hsid => by
    rw [List.length_map, m.length_label sid (List.mem_range.mp hsid)]
  rw [List.map_congr_left hall, List.map_const', List.sum_replicate, List.length_range, smul_eq_mul]

/-- The number that the `ASSERT`s compare with. -/
lemma toNat_count : (UInt32.ofNat m.serverNum * m.K).toNat = m.serverNum * m.K.toNat % 2 ^ 32 := by
  rw [UInt32.toNat_mul, UInt32.toNat_ofNat', Nat.mod_mul_mod]

/-- The candidates that are sorted. -/
def neighbors (m : MapReduce δ) : List (Neighbor UInt32 δ) :=
  m.results.map fun p =>
    ⟨toGlobal p.1 (m.baseNum p.1) p.2, m.distance (m.position p.1 p.2), false⟩

lemma merge_eq (h : m.serverNum * m.K.toNat < 2 ^ 32) :
    m.merge = .ok ⟨(m.neighbors.mergeSort fun a b => !b.lt a).map Neighbor.id,
      (m.neighbors.mergeSort fun a b => !b.lt a).map Neighbor.distance⟩ := by
  have hcount := toNat_count (m := m)
  rw [Nat.mod_eq_of_lt h, ← length_results] at hcount
  rw [merge, collect_eq, hcount]
  simp only [List.length_map, and_self, if_true, List.zipWith_map, List.zipWith_self]
  rfl

lemma count_lt_of_merge {out : ResultMsg δ} (h : m.merge = .ok out) :
    m.serverNum * m.K.toNat < 2 ^ 32 := by
  rw [merge, collect_eq] at h
  simp only [List.length_map, length_results, toNat_count, and_self] at h
  split_ifs at h with hlen
  rw [hlen]
  exact Nat.mod_lt _ (by norm_num)

/-! ### The merged results -/

/-- The ids of the candidates in the order of the first server. -/
def sortedIds (m : MapReduce δ) : List ℕ :=
  (m.neighbors.mergeSort fun a b => !b.lt a).map fun nb => nb.id.toNat

lemma mem_shards (baseNum : ℕ → UInt32) {v : ℕ} : ∀ {serverNum : ℕ},
    v < shardOffset baseNum serverNum ↔
      ∃ sid < serverNum, ∃ l < (baseNum sid).toNat, shardOffset baseNum sid + l = v := by
  intro serverNum
  induction serverNum with
  | zero =>
      rw [shardOffset, Finset.range_zero, Finset.sum_empty]
      exact ⟨fun h => absurd h (Nat.not_lt_zero v), fun ⟨_, h, _⟩ => absurd h (Nat.not_lt_zero _)⟩
  | succ n ih =>
      rw [shardOffset_succ]
      constructor
      · intro h
        rcases Nat.lt_or_ge v (shardOffset baseNum n) with hv | hv
        · obtain ⟨sid, hsid, hl⟩ := ih.mp hv
          exact ⟨sid, hsid.trans (Nat.lt_succ_self n), hl⟩
        · exact ⟨n, Nat.lt_succ_self n, v - shardOffset baseNum n, by omega, by omega⟩
      · rintro ⟨sid, hsid, l, hl, rfl⟩
        rcases Nat.lt_succ_iff_lt_or_eq.mp hsid with hsid | rfl
        · exact (ih.mpr ⟨sid, hsid, l, hl, rfl⟩).trans_le (Nat.le_add_right _ _)
        · exact Nat.add_lt_add_left hl _

/-- A shard and what its server has found, as positions of the whole base set. -/
def part (m : MapReduce δ) (sid : ℕ) : Finset ℕ × List ℕ :=
  ((Finset.range (m.baseNum sid).toNat).map (addLeftEmbedding (shardOffset m.baseNum sid)),
    ((m.label sid).map UInt32.toNat).map (addLeftEmbedding (shardOffset m.baseNum sid)))

lemma mem_part {sid v : ℕ} :
    v ∈ (m.part sid).1 ↔ ∃ l < (m.baseNum sid).toNat, shardOffset m.baseNum sid + l = v := by
  rw [part, Finset.mem_map]
  exact exists_congr fun l => and_congr_left' Finset.mem_range

lemma disjoint_part {s t : ℕ} (h : s < t) : Disjoint (m.part s).1 (m.part t).1 := by
  refine Finset.disjoint_left.mpr fun v hs ht => ?_
  obtain ⟨l, hl, rfl⟩ := mem_part.mp hs
  obtain ⟨l', -, heq⟩ := mem_part.mp ht
  have := shardOffset_le m.baseNum h
  omega

/-- In place, a candidate has the distance of its id. -/
lemma InPlace.distance_eq (h : m.InPlace) {nb : Neighbor UInt32 δ} (hnb : nb ∈ m.neighbors) :
    nb.distance = m.distance nb.id.toNat := by
  obtain ⟨p, hp, rfl⟩ := List.mem_map.mp hnb
  obtain ⟨hsid, hl⟩ := mem_results.mp hp
  exact congrArg m.distance (h.named hsid hl).symm

lemma InPlace.perm_sortedIds (h : m.InPlace) :
    m.sortedIds.Perm (((List.range m.serverNum).map m.part).flatMap Prod.snd) := by
  have hsort := (List.mergeSort_perm m.neighbors fun a b => !b.lt a).map
    fun nb : Neighbor UInt32 δ => nb.id.toNat
  have hids : m.neighbors.map (fun nb => nb.id.toNat) =
      m.results.map fun p => m.position p.1 p.2 := by
    rw [neighbors, List.map_map]
    refine List.map_congr_left fun p hp => ?_
    obtain ⟨hsid, hl⟩ := mem_results.mp hp
    exact h.named hsid hl
  have hparts : ((List.range m.serverNum).map m.part).flatMap Prod.snd =
      m.results.map fun p => m.position p.1 p.2 := by
    rw [results, List.map_flatMap, List.flatMap_map]
    refine congrArg (List.flatMap · _) (funext fun sid => ?_)
    rw [part, List.map_map, List.map_map]
    rfl
  rw [hparts, ← hids]
  exact hsort

/-- **The merge by any rank** that each server ranks its results by and that the sort respects. -/
lemma InPlace.best_sortedIds (h : m.InPlace) {ρ : Type*} [LinearOrder ρ] {rank : ℕ → ρ}
    (hbest : ∀ sid < m.serverNum, Best (fun l => rank (shardOffset m.baseNum sid + l)) m.K.toNat
      (Finset.range (m.baseNum sid).toNat) ((m.label sid).map UInt32.toNat))
    (hsorted : m.sortedIds.Pairwise fun v w => rank v ≤ rank w) :
    Best rank m.K.toNat (Finset.range m.total) (m.sortedIds.take m.K.toNat) := by
  have hparts : ∀ p ∈ (List.range m.serverNum).map m.part, Best rank m.K.toNat p.1 p.2 := by
    intro p hp
    obtain ⟨sid, hsid, rfl⟩ := List.mem_map.mp hp
    exact (hbest sid (List.mem_range.mp hsid)).map
  have hapart : ((List.range m.serverNum).map m.part).Pairwise fun p q => Disjoint p.1 q.1 :=
    List.pairwise_map.mpr (List.pairwise_lt_range.imp disjoint_part)
  have hall : ∀ v, v ∈ Finset.range m.total ↔
      ∃ p ∈ (List.range m.serverNum).map m.part, v ∈ p.1 := by
    intro v
    rw [Finset.mem_range, total, mem_shards]
    constructor
    · rintro ⟨sid, hsid, hl⟩
      exact ⟨m.part sid, List.mem_map_of_mem (List.mem_range.mpr hsid), mem_part.mpr hl⟩
    · rintro ⟨p, hp, hv⟩
      obtain ⟨sid, hsid, rfl⟩ := List.mem_map.mp hp
      exact ⟨sid, List.mem_range.mp hsid, mem_part.mp hv⟩
  exact Best.of_parts hparts hapart hall h.perm_sortedIds hsorted

/-- The candidates are sorted by distance, then by id. -/
lemma sorted_neighbors :
    (m.neighbors.mergeSort fun a b => !b.lt a).Pairwise fun a b => a.key ≤ b.key := by
  have hle : ∀ a b : Neighbor UInt32 δ, (!b.lt a) = true ↔ a.key ≤ b.key := fun a b => by
    rw [Bool.not_eq_true', Bool.eq_false_iff, ne_eq, Neighbor.lt_iff, not_lt]
  have htrans : ∀ a b c : Neighbor UInt32 δ,
      (!b.lt a) = true → (!c.lt b) = true → (!c.lt a) = true := fun a b c hab hbc =>
    (hle a c).mpr (((hle a b).mp hab).trans ((hle b c).mp hbc))
  have htotal : ∀ a b : Neighbor UInt32 δ, (!b.lt a || !a.lt b) = true := fun a b => by
    rw [Bool.or_eq_true, hle, hle]
    exact le_total _ _
  exact (List.pairwise_mergeSort htrans htotal m.neighbors).imp fun hab => (hle _ _).mp hab

/-- In place, the sort ranks the ids by distance, then by position. -/
lemma InPlace.sorted_sortedIds (h : m.InPlace) :
    m.sortedIds.Pairwise fun v w => toLex (m.distance v, v) ≤ toLex (m.distance w, w) := by
  refine List.pairwise_map.mpr (sorted_neighbors.imp_of_mem fun {a b} ha hb hab => ?_)
  have hda := h.distance_eq (List.mem_mergeSort.mp ha)
  have hdb := h.distance_eq (List.mem_mergeSort.mp hb)
  rw [← hda, ← hdb]
  rcases Prod.Lex.toLex_le_toLex.mp hab with hlt | ⟨heq, hid⟩
  · exact Prod.Lex.toLex_le_toLex.mpr (Or.inl hlt)
  · exact Prod.Lex.toLex_le_toLex.mpr (Or.inr ⟨heq, UInt32.le_iff_toNat_le.mp hid⟩)

/-- **In place, the merge is right.** -/
theorem InPlace.correct (h : m.InPlace) : m.Correct := by
  refine ⟨fun sid hsid l hl => h.named hsid hl, fun s hs t ht hne l hl l' hl' heq => ?_, ?_⟩
  · refine position_ne hs ht hne hl hl' ?_
    rw [← h.named hs hl, ← h.named ht hl', heq]
  · refine ⟨_, merge_eq h.count_lt, ?_, ?_, fun hties => ?_⟩
    · rw [List.map_take, List.map_map]
      refine h.best_sortedIds m.best (h.sorted_sortedIds.imp fun {v w} hvw => ?_)
      exact (Prod.Lex.toLex_le_toLex.mp hvw).elim le_of_lt fun heq => heq.1.le
    · rw [← List.map_take, ← List.map_take, List.map_map]
      exact List.map_congr_left fun nb hnb =>
        h.distance_eq (List.mem_mergeSort.mp (List.mem_of_mem_take hnb))
    · -- behind the same number of vertices, the labels are ordered as the positions are
      rw [List.map_take, List.map_map]
      refine h.best_sortedIds (fun sid hsid => (hties sid hsid).of_le_iff fun a b => ?_)
        h.sorted_sortedIds
      rw [Prod.Lex.toLex_le_toLex, Prod.Lex.toLex_le_toLex, Nat.add_le_add_iff_left]

/-- **The baseline is right** exactly if the ids are positions and the results can be counted. -/
theorem correct_iff (m : MapReduce δ) : m.Correct ↔ m.InPlace := by
  refine ⟨fun h => ?_, InPlace.correct⟩
  obtain ⟨out, hout, -⟩ := h.merged
  refine ⟨fun sid hsid => ?_, fun sid hsid l hl => ?_, count_lt_of_merge hout⟩
  · obtain ⟨l, hl⟩ := exists_label hsid
    have hnamed := h.named sid hsid l hl
    have hlt := UInt32.toNat_lt (toGlobal sid (m.baseNum sid) l)
    rw [toNat_toGlobal] at hnamed
    rw [toNat_toGlobal, hnamed] at hlt
    have hmod : l.toNat + sid * (m.baseNum sid).toNat ≡
        l.toNat + shardOffset m.baseNum sid [MOD 2 ^ 32] := by
      rw [Nat.ModEq, hnamed, Nat.add_comm l.toNat, ← position, Nat.mod_eq_of_lt hlt]
    exact Nat.ModEq.add_left_cancel' _ hmod
  · rw [← h.named sid hsid l hl]
    exact UInt32.toNat_lt _

/-- **Shards of one size** are in place, as far as 32 bits reach. -/
theorem inPlace_of_equal {n : UInt32} (heq : ∀ sid < m.serverNum, m.baseNum sid = n)
    (htotal : m.serverNum * n.toNat ≤ 2 ^ 32) (hcount : m.serverNum * m.K.toNat < 2 ^ 32) :
    m.InPlace := by
  have hoff : ∀ sid ≤ m.serverNum, shardOffset m.baseNum sid = sid * n.toNat := by
    intro sid hsid
    have hall : ∀ t ∈ Finset.range sid, (m.baseNum t).toNat = n.toNat := fun t ht => by
      rw [heq t ((Finset.mem_range.mp ht).trans_le hsid)]
    rw [shardOffset, Finset.sum_congr rfl hall, Finset.sum_const, Finset.card_range, smul_eq_mul]
  refine ⟨fun sid hsid => ?_, fun sid hsid l hl => ?_, hcount⟩
  · rw [heq sid hsid, hoff sid hsid.le]
  · have hlt := label_lt hsid hl
    have hle : (sid + 1) * n.toNat ≤ m.serverNum * n.toNat := Nat.mul_le_mul_right _ hsid
    rw [heq sid hsid] at hlt
    rw [position, hoff sid hsid.le]
    rw [Nat.add_mul, Nat.one_mul] at hle
    omega

/-- Two servers, the first with two vertices and the second with one; the nearest vertex of all is
the last one. -/
def uneven : MapReduce ℕ where
  serverNum := 2
  K := 1
  baseNum sid := if sid = 0 then 2 else 1
  distance v := 2 - v
  label sid := if sid = 0 then [1] else [0]
  serverNum_pos := Nat.zero_lt_two
  K_pos := Nat.one_pos
  K_lt := by decide
  length_label sid hsid := by interval_cases sid <;> rfl
  best sid hsid := by
    interval_cases sid
    · exact ⟨List.pairwise_singleton _ _, List.nodup_singleton _, by decide, by decide, by decide⟩
    · exact ⟨List.pairwise_singleton _ _, List.nodup_singleton _, by decide, by decide, by decide⟩

/-- The second server calls its vertex `1`, which is the last vertex of the first. -/
theorem not_correct_uneven : ¬ uneven.Correct := by
  intro h
  have hnamed := h.named 1 (by decide) 0 (by decide)
  exact absurd hnamed (by decide)

end MapReduce

end RedAnns
