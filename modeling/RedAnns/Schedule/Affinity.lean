import Mathlib.Data.List.GetD
import RedAnns.Core.Vertex
import RedAnns.Lib.Accumulate
import RedAnns.Lib.Least
import RedAnns.Lib.Loop
import RedAnns.Lib.Tally

/-!
The affinity of a learn vertex to the buckets: `generate_learn_projection`, which computes it for
every learn vertex when the index is loaded, and the `search_affinity` of `src/index.cpp` that looks
it up or computes it from a row of the ground truth.

* `topN`, `countFrequency`, `selectBucket`: the counting and the selection, which both run.
* `Index.generateLearnProjection`, `Index.searchAffinity`, `Index.searchAffinityOf`: the source.
* `Index.Optimal`: what the pair of a bucket and a ratio is meant to be.
* `countFrequency_eq`, `firstLeast_selectBucket`: what the two loops compute.
* `agrees_iff`: the lengths of the rows for which both computations agree on the optimal pair.
-/

namespace RedAnns

namespace Affinity

/-- How a computation fails: an access outside an array, a loop whose 32-bit counter never reaches
its bound, or an exception with its text. -/
inductive Fault
  | outOfRange
  | endless
  | runtimeError (what : String)
  deriving DecidableEq

/-- `unsigned TopN = std::min(1000, (int)size)`. -/
def topN (size : ℕ) : ℕ := (min 1000 ((size : ℤ).bmod (2 ^ 32)) % 2 ^ 32).toNat

/-- A checked access. -/
def access {α : Type*} (l : List α) (i : ℕ) : Except Fault α :=
  match l[i]? with
  | some a => .ok a
  | none => .error .outOfRange

/-- One round of the counting loop: `frequency[bucket_id]++` for the bucket of the `i`-th vertex. -/
def countOne (bucketCount : ℕ) (baseInBucket : List UInt32) (gt : List VertexId)
    (frequency : Buffer ℕ) (i : ℕ) : Except Fault (Buffer ℕ) := do
  let projectId ← access gt i
  let bucketId ← access baseInBucket projectId.toNat
  if bucketId.toNat < bucketCount then
    return Function.update frequency bucketId.toNat ((frequency bucketId.toNat + 1) % 2 ^ 32)
  else throw .outOfRange

/-- The counting loop over the first `n` vertices. -/
def countFrequency (bucketCount : ℕ) (baseInBucket : List UInt32) (gt : List VertexId) (n : ℕ) :
    Except Fault (Buffer ℕ) :=
  (List.range n).foldlM (countOne bucketCount baseInBucket gt) fun _ => 0

/-- The selection loop over the first `n` buckets; `selected_bucket` is an `unsigned`. -/
def selectBucket (frequency : Buffer ℕ) (n : ℕ) : ℕ :=
  (List.range n).foldl (fun selectedBucket bucketId =>
    if frequency selectedBucket < frequency bucketId then bucketId % 2 ^ 32 else selectedBucket) 0

/-- What the computations use of `numaann::Index`. -/
structure Index (F : Type) where
  bucketCount : ℕ
  baseInBucket : Option (List UInt32)
  learnNum : ℕ
  learnData : Option (List F)
  learnGraph : List (List VertexId)
  learnProjectionInBase : List (List VertexId)
  learnInBucket : Buffer ℕ
  learnLocalRatio : Buffer F

namespace Index

section Source

variable {F : Type} [Field F] (idx : Index F)

/-- The body of the loop over the learn vertices. -/
def projectOne (baseInBucket : List UInt32) (learnGt : List (List VertexId))
    (arrays : Buffer ℕ × Buffer F) (learnId : ℕ) : Except Fault (Buffer ℕ × Buffer F) := do
  let row ← access learnGt learnId
  let frequency ← countFrequency idx.bucketCount baseInBucket row (topN row.length)
  let selectedBucket := selectBucket frequency idx.bucketCount
  if selectedBucket < idx.bucketCount then
    return (Function.update arrays.1 learnId selectedBucket,
      Function.update arrays.2 learnId
        ((frequency selectedBucket : F) / (topN row.length : F)))
  else throw .outOfRange

/-- `generate_learn_projection`; `learnGt` is what `read_gt` returns. The statistics that it prints
read `data_count[_learn_in_bucket[learn_id]]`, which is in range because the bucket was. -/
def generateLearnProjection (learnGt : List (List VertexId)) : Except Fault (Index F) := do
  let some baseInBucket := idx.baseInBucket
    | throw (.runtimeError "error@generate_learn_projection: _base_in_bucket is empty.")
  if 2 ^ 32 < idx.learnNum then throw .endless
  let arrays ← (List.range idx.learnNum).foldlM (idx.projectOne baseInBucket learnGt)
    (fun _ => 0, fun _ => 0)
  if idx.learnData.isNone then
    throw (.runtimeError "error@generate_learn_projection: _learn_data is nullptr.")
  if idx.learnGraph.isEmpty then
    throw (.runtimeError "error@generate_learn_projection: _learn_graph is empty.")
  return { idx with
    learnProjectionInBase := learnGt
    learnInBucket := arrays.1
    learnLocalRatio := arrays.2 }

/-- `search_affinity` of the nearest learn vertex of a query. -/
def searchAffinity (learnIndexRes : VertexId) : Except Fault (ℕ × F) :=
  if learnIndexRes.toNat < idx.learnNum then
    .ok (idx.learnInBucket learnIndexRes.toNat, idx.learnLocalRatio learnIndexRes.toNat)
  else .error .outOfRange

/-- `search_affinity` of a row of the ground truth. -/
def searchAffinityOf (gt : List VertexId) : Except Fault (ℕ × F) := do
  let some baseInBucket := idx.baseInBucket | throw .outOfRange
  let frequency ← countFrequency idx.bucketCount baseInBucket gt (topN gt.length)
  let selectedBucket := selectBucket frequency idx.bucketCount
  if selectedBucket < idx.bucketCount then
    return (selectedBucket, (frequency selectedBucket : F) / (topN gt.length : F))
  else throw .outOfRange

end Source

end Index

/-! ### The two loops -/

/-- How many of the first `n` vertices of a row lie in the bucket `b`. -/
def hits (baseInBucket : List UInt32) (row : List VertexId) (n b : ℕ) : ℕ :=
  (row.take n).countP fun id => (baseInBucket.getD id.toNat 0).toNat = b

/-- Every vertex of the row lies in one of the buckets. -/
def Covered (bucketCount : ℕ) (baseInBucket : List UInt32) (row : List VertexId) : Prop :=
  ∀ id ∈ row, ∃ h : id.toNat < baseInBucket.length,
    (baseInBucket.get ⟨id.toNat, h⟩).toNat < bucketCount

variable {bucketCount : ℕ} {baseInBucket : List UInt32} {row : List VertexId} {n : ℕ}

lemma hits_le (baseInBucket : List UInt32) (row : List VertexId) (n b : ℕ) :
    hits baseInBucket row n b ≤ n :=
  List.countP_le_length.trans (by simp)

/-- The buckets share the vertices. -/
lemma sum_hits (h : Covered bucketCount baseInBucket row) (hn : n ≤ row.length) :
    ∑ b ∈ Finset.range bucketCount, hits baseInBucket row n b = n := by
  refine (sum_countP (fun id : VertexId => (baseInBucket.getD id.toNat 0).toNat) bucketCount
    (l := row.take n) fun id hid => ?_).trans (by rw [List.length_take, min_eq_left hn])
  obtain ⟨hlt, hb⟩ := h id (List.mem_of_mem_take hid)
  rw [List.getD_eq_getElem _ _ hlt]
  exact hb

lemma access_of_lt {α : Type*} {l : List α} {i : ℕ} (h : i < l.length) : access l i = .ok l[i] := by
  rw [access, List.getElem?_eq_getElem h]

/-- **The counting loop counts** the first `n` vertices of the row; no counter wraps. -/
lemma countFrequency_eq (h : Covered bucketCount baseInBucket row) (hn : n ≤ row.length)
    (hlt : n < 2 ^ 32) :
    countFrequency bucketCount baseInBucket row n = .ok (hits baseInBucket row n) := by
  induction n with
  | zero => rfl
  | succ n ih =>
      obtain ⟨hid, hb⟩ := h row[n] (List.getElem_mem _)
      have hget : baseInBucket.getD row[n].toNat 0 = baseInBucket[row[n].toNat] :=
        List.getD_eq_getElem _ _ hid
      have hstep : countOne bucketCount baseInBucket row (hits baseInBucket row n) n
          = .ok (hits baseInBucket row (n + 1)) := by
        rw [countOne, access_of_lt (show n < row.length from hn), ok_bind,
          access_of_lt hid, ok_bind]
        refine (if_pos hb).trans (congrArg Except.ok ?_)
        have hle : hits baseInBucket row n baseInBucket[row[n].toNat].toNat ≤ n := hits_le ..
        have hsucc : ∀ b, hits baseInBucket row (n + 1) b
            = hits baseInBucket row n b
              + if baseInBucket[row[n].toNat].toNat = b then 1 else 0 := by
          intro b
          rw [hits, List.take_succ_eq_append_getElem hn, List.countP_append, List.countP_singleton,
            hget]
          simp only [decide_eq_true_eq]
          rfl
        funext b
        rw [hsucc]
        by_cases heq : baseInBucket[row[n].toNat].toNat = b
        · rw [if_pos heq, ← heq, Function.update_self]
          exact Nat.mod_eq_of_lt (by omega)
        · rw [if_neg heq, Function.update_of_ne (Ne.symm heq), Nat.add_zero]
      rw [countFrequency, List.range_succ, List.foldlM_append]
      have hprev := ih (Nat.le_of_succ_le hn) (Nat.lt_of_succ_lt hlt)
      rw [countFrequency] at hprev
      rw [hprev]
      change (countOne bucketCount baseInBucket row (hits baseInBucket row n) n >>= pure) = _
      rw [hstep]
      rfl

/-- **The selection loop selects** the first most frequent bucket. -/
lemma firstLeast_selectBucket {frequency : Buffer ℕ}
    (hwide : ∀ b, 2 ^ 32 ≤ b → frequency b = 0) (hn : 0 < n) :
    FirstLeast (fun b => OrderDual.toDual (frequency b)) n (selectBucket frequency n) := by
  induction n with
  | zero => exact absurd hn (lt_irrefl 0)
  | succ n ih =>
      have hsucc : selectBucket frequency (n + 1)
          = if frequency (selectBucket frequency n) < frequency n then n % 2 ^ 32
            else selectBucket frequency n := by
        rw [selectBucket, List.range_succ, List.foldl_append]
        rfl
      rw [hsucc]
      rcases Nat.eq_zero_or_pos n with rfl | hpos
      · rw [show selectBucket frequency 0 = 0 from rfl, if_neg (lt_irrefl _)]
        exact ⟨Nat.one_pos, fun j hj => by rw [Nat.lt_one_iff.mp hj],
          fun j hj => absurd hj (Nat.not_lt_zero j)⟩
      · have hprev := ih hpos
        by_cases hlt : frequency (selectBucket frequency n) < frequency n
        · have hn32 : n < 2 ^ 32 := by
            by_contra hge
            rw [hwide n (not_lt.mp hge)] at hlt
            exact Nat.not_lt_zero _ hlt
          rw [if_pos hlt, Nat.mod_eq_of_lt hn32]
          refine ⟨Nat.lt_succ_self n, fun j hj => ?_, fun j hj => ?_⟩
          · rcases eq_or_lt_of_le (Nat.le_of_lt_succ hj) with rfl | hj
            · exact le_rfl
            · exact (OrderDual.toDual_lt_toDual.mpr hlt).le.trans (hprev.le j hj)
          · exact (OrderDual.toDual_lt_toDual.mpr hlt).trans_le (hprev.le j hj)
        · rw [if_neg hlt]
          refine ⟨hprev.lt.trans (Nat.lt_succ_self n), fun j hj => ?_, hprev.first⟩
          rcases eq_or_lt_of_le (Nat.le_of_lt_succ hj) with rfl | hj
          · exact OrderDual.toDual_le_toDual.mpr (not_lt.mp hlt)
          · exact hprev.le j hj

/-! ### The number of vertices that are counted -/

/-- The number by the remainder that the conversion to `int` keeps. -/
lemma topN_eq (size : ℕ) : topN size
    = if size % 2 ^ 32 < 2 ^ 31 then min 1000 (size % 2 ^ 32) else size % 2 ^ 32 := by
  have hmod : ((size : ℤ).bmod (2 ^ 32))
      = if size % 2 ^ 32 < 2 ^ 31 then ((size % 2 ^ 32 : ℕ) : ℤ)
        else ((size % 2 ^ 32 : ℕ) : ℤ) - 2 ^ 32 := by
    rw [Int.bmod_def]
    push_cast
    split <;> split <;> omega
  have hlt : size % 2 ^ 32 < 2 ^ 32 := Nat.mod_lt _ (by norm_num)
  have hdef : topN size = (min 1000 ((size : ℤ).bmod (2 ^ 32)) % 2 ^ 32).toNat := rfl
  rw [hmod] at hdef
  rw [hdef]
  split <;> omega

lemma topN_le (size : ℕ) : topN size ≤ size := by
  have := Nat.mod_le size (2 ^ 32)
  rw [topN_eq]
  split <;> omega

lemma topN_lt (size : ℕ) : topN size < 2 ^ 32 := by
  have hlt : size % 2 ^ 32 < 2 ^ 32 := Nat.mod_lt _ (by norm_num)
  rw [topN_eq]
  split <;> omega

lemma topN_eq_min_iff (size : ℕ) : topN size = min 1000 size
    ↔ size < 2 ^ 31 ∨ 1000 ≤ size % 2 ^ 32 ∧ size % 2 ^ 32 < 2 ^ 31 := by
  have := topN_eq size
  split at this <;> omega

lemma topN_eq_zero_iff (size : ℕ) : topN size = 0 ↔ 2 ^ 32 ∣ size := by
  have := topN_eq size
  split at this <;> omega

/-! ### The pair of a row -/

section Pair

variable {F : Type} [Field F]

/-- What both computations make of a row. -/
def pairOf (bucketCount : ℕ) (baseInBucket : List UInt32) (row : List VertexId) : ℕ × F :=
  let frequency := hits baseInBucket row (topN row.length)
  let selectedBucket := selectBucket frequency bucketCount
  (selectedBucket, (frequency selectedBucket : F) / (topN row.length : F))

lemma pairOf_snd : (pairOf (F := F) bucketCount baseInBucket row).2
    = (hits baseInBucket row (topN row.length) (pairOf (F := F) bucketCount baseInBucket row).1 : F)
      / (topN row.length : F) := rfl

/-- Buckets have 32-bit numbers. -/
lemma hits_of_wide {b : ℕ} (hb : 2 ^ 32 ≤ b) : hits baseInBucket row n b = 0 := by
  rw [hits, List.countP_eq_zero]
  intro id _
  have := (baseInBucket.getD id.toNat 0).toNat_lt
  simp only [decide_eq_true_eq]
  omega

variable (F) in
lemma firstLeast_pairOf (hcount : 0 < bucketCount) (baseInBucket : List UInt32)
    (row : List VertexId) :
    FirstLeast (fun b => OrderDual.toDual (hits baseInBucket row (topN row.length) b)) bucketCount
      (pairOf (F := F) bucketCount baseInBucket row).1 :=
  firstLeast_selectBucket (fun _ => hits_of_wide) hcount

/-- The ground truth has a row for every learn vertex, of vertices that lie in the buckets. -/
structure Projects (idx : Index F) (baseInBucket : List UInt32) (learnGt : List (List VertexId)) :
    Prop where
  base : idx.baseInBucket = some baseInBucket
  num : learnGt.length = idx.learnNum
  covered : ∀ row ∈ learnGt, Covered idx.bucketCount baseInBucket row

variable {idx : Index F} {learnGt : List (List VertexId)}

lemma searchAffinityOf_eq (hbase : idx.baseInBucket = some baseInBucket)
    (hcount : 0 < idx.bucketCount) (h : Covered idx.bucketCount baseInBucket row) :
    idx.searchAffinityOf row = .ok (pairOf idx.bucketCount baseInBucket row) := by
  simp only [Index.searchAffinityOf, hbase, countFrequency_eq h (topN_le _) (topN_lt _), ok_bind]
  exact if_pos (firstLeast_pairOf F hcount baseInBucket row).lt

lemma projectOne_eq (hcount : 0 < idx.bucketCount) {u : ℕ} (hu : learnGt[u]? = some row)
    (h : Covered idx.bucketCount baseInBucket row) (arrays : Buffer ℕ × Buffer F) :
    idx.projectOne baseInBucket learnGt arrays u
      = .ok (Function.update arrays.1 u (pairOf (F := F) idx.bucketCount baseInBucket row).1,
          Function.update arrays.2 u (pairOf idx.bucketCount baseInBucket row).2) := by
  have hrow : access learnGt u = .ok row := by rw [access, hu]
  rw [Index.projectOne, hrow, ok_bind, countFrequency_eq h (topN_le _) (topN_lt _), ok_bind]
  exact if_pos (firstLeast_pairOf F hcount baseInBucket row).lt

/-- **The arrays after `n` rows**: each entry is that of the pair of its row. -/
lemma foldlM_projectOne (hcount : 0 < idx.bucketCount)
    (h : ∀ row ∈ learnGt, Covered idx.bucketCount baseInBucket row) (hn : n ≤ learnGt.length) :
    ∃ arrays, (List.range n).foldlM (idx.projectOne baseInBucket learnGt) (fun _ => 0, fun _ => 0)
        = .ok arrays ∧
      ∀ u row, u < n → learnGt[u]? = some row →
        (arrays.1 u, arrays.2 u) = pairOf idx.bucketCount baseInBucket row := by
  refine foldlM_range (I := fun n (arrays : Buffer ℕ × Buffer F) => ∀ u row, u < n →
    learnGt[u]? = some row → (arrays.1 u, arrays.2 u) = pairOf idx.bucketCount baseInBucket row)
    (fun k hk arrays hpairs => ?_) fun u row hu => absurd hu (Nat.not_lt_zero u)
  have hlt : k < learnGt.length := hk.trans_le hn
  have hget : learnGt[k]? = some learnGt[k] := List.getElem?_eq_getElem hlt
  refine ⟨_, projectOne_eq hcount hget (h _ (List.getElem_mem _)) arrays, fun u row hu hrow => ?_⟩
  rcases eq_or_lt_of_le (Nat.le_of_lt_succ hu) with rfl | hu
  · rw [hget, Option.some.injEq] at hrow
    rw [hrow]
    simp only [Function.update_self]
  · simp only [Function.update_of_ne hu.ne]
    exact hpairs u row hu hrow

/-- The projection, from the arrays that its loop fills. -/
lemma generateLearnProjection_eq (hbase : idx.baseInBucket = some baseInBucket)
    (hnum : idx.learnNum ≤ 2 ^ 32) {arrays : Buffer ℕ × Buffer F}
    (h : (List.range idx.learnNum).foldlM (idx.projectOne baseInBucket learnGt)
      (fun _ => 0, fun _ => 0) = .ok arrays) :
    idx.generateLearnProjection learnGt
      = if idx.learnData.isNone then
          .error (.runtimeError "error@generate_learn_projection: _learn_data is nullptr.")
        else if idx.learnGraph.isEmpty then
          .error (.runtimeError "error@generate_learn_projection: _learn_graph is empty.")
        else .ok { idx with
          learnProjectionInBase := learnGt
          learnInBucket := arrays.1
          learnLocalRatio := arrays.2 } := by
  simp only [Index.generateLearnProjection, hbase, if_neg (not_lt.mpr hnum), h]
  cases idx.learnData.isNone with
  | true => rfl
  | false =>
      cases idx.learnGraph.isEmpty with
      | true => rfl
      | false => rfl

/-- **The two computations agree**, whatever the lengths of the rows. -/
lemma agree (hproj : Projects idx baseInBucket learnGt) (hcount : 0 < idx.bucketCount)
    (hnum : learnGt.length ≤ 2 ^ 32) :
    (idx.learnData ≠ none → idx.learnGraph ≠ [] →
      ∃ idx', idx.generateLearnProjection learnGt = .ok idx') ∧
    ∀ idx', idx.generateLearnProjection learnGt = .ok idx' →
      ∀ (u : VertexId) (row : List VertexId), learnGt[u.toNat]? = some row →
        idx'.searchAffinity u = .ok (pairOf idx.bucketCount baseInBucket row) ∧
        idx'.searchAffinityOf row = .ok (pairOf idx.bucketCount baseInBucket row) := by
  obtain ⟨arrays, hrun, hpairs⟩ := foldlM_projectOne hcount hproj.covered le_rfl
  rw [hproj.num] at hrun hnum
  have hgen := generateLearnProjection_eq hproj.base hnum hrun
  refine ⟨fun hdata hgraph => ?_, fun idx' hidx' u row hrow => ?_⟩
  · rw [hgen, if_neg (by simpa using hdata), if_neg (by simpa using hgraph)]
    exact ⟨_, rfl⟩
  · have hu : u.toNat < learnGt.length := (List.getElem?_eq_some_iff.mp hrow).1
    rw [hgen] at hidx'
    split at hidx'
    · cases hidx'
    · split at hidx'
      · cases hidx'
      · cases hidx'
        refine ⟨?_, searchAffinityOf_eq hproj.base hcount
          (hproj.covered row (List.mem_of_getElem? hrow))⟩
        rw [Index.searchAffinity, if_pos (show u.toNat < idx.learnNum from hproj.num ▸ hu)]
        exact congrArg Except.ok (hpairs u.toNat row hu hrow)

end Pair

/-! ### What the pair is meant to be -/

section Spec

variable {F : Type} [Field F] [LinearOrder F]

/-- A bucket with the most of the first `min(1000, length)` vertices of the row, the smallest such
bucket, and its share of them. -/
structure Optimal (bucketCount : ℕ) (baseInBucket : List UInt32) (row : List VertexId)
    (pair : ℕ × F) : Prop where
  lt : pair.1 < bucketCount
  most : ∀ b < bucketCount, hits baseInBucket row (min 1000 row.length) b
    ≤ hits baseInBucket row (min 1000 row.length) pair.1
  first : ∀ b < pair.1, hits baseInBucket row (min 1000 row.length) b
    < hits baseInBucket row (min 1000 row.length) pair.1
  ratio : pair.2 = (hits baseInBucket row (min 1000 row.length) pair.1 : F)
    / (min 1000 row.length : ℕ)
  share : 1 / (bucketCount : F) ≤ pair.2

/-- The projection is generated once the learn data and the learn graph are loaded, and then the
pair that is looked up for a learn vertex is the one that its row gives, and it is optimal. -/
structure Agrees (idx : Index F) (baseInBucket : List UInt32) (learnGt : List (List VertexId)) :
    Prop where
  returns : idx.learnData ≠ none → idx.learnGraph ≠ [] →
    ∃ idx', idx.generateLearnProjection learnGt = .ok idx'
  agrees : ∀ idx', idx.generateLearnProjection learnGt = .ok idx' →
    ∀ (u : VertexId) (row : List VertexId), learnGt[u.toNat]? = some row →
      ∃ pair, idx'.searchAffinity u = .ok pair ∧ idx'.searchAffinityOf row = .ok pair ∧
        Optimal idx.bucketCount baseInBucket row pair

/-- Some bucket has its share of the vertices. -/
lemma share_le [IsStrictOrderedRing F] (h : Covered bucketCount baseInBucket row)
    (hn : n ≤ row.length) (hpos : 0 < n) {m : ℕ}
    (hm : ∀ b < bucketCount, hits baseInBucket row n b ≤ m) :
    1 / (bucketCount : F) ≤ (m : F) / (n : F) := by
  have hle : n ≤ bucketCount * m := by
    calc n = ∑ b ∈ Finset.range bucketCount, hits baseInBucket row n b := (sum_hits h hn).symm
      _ ≤ ∑ _b ∈ Finset.range bucketCount, m :=
          Finset.sum_le_sum fun b hb => hm b (Finset.mem_range.mp hb)
      _ = bucketCount * m := by rw [Finset.sum_const, Finset.card_range, smul_eq_mul]
  have hcount : 0 < bucketCount := Nat.pos_of_ne_zero fun h0 => by rw [h0] at hle; omega
  rw [div_le_div_iff₀ (Nat.cast_pos.mpr hcount) (Nat.cast_pos.mpr hpos), one_mul]
  exact_mod_cast (Nat.mul_comm bucketCount m ▸ hle)

/-- With a single bucket every vertex counts for it. -/
lemma hits_zero_of_one (h : Covered 1 baseInBucket row) (hn : n ≤ row.length) :
    hits baseInBucket row n 0 = n := by
  have hsum := sum_hits h hn
  rwa [Finset.sum_range_one] at hsum

/-- **The pair is optimal** when the right number of vertices is counted, or when there is nothing
to choose. -/
lemma optimal_pairOf [IsStrictOrderedRing F] (hcount : 0 < bucketCount)
    (h : Covered bucketCount baseInBucket row) (hrow : 0 < row.length)
    (hn : topN row.length = min 1000 row.length ∨ bucketCount = 1 ∧ 0 < topN row.length) :
    Optimal (F := F) bucketCount baseInBucket row (pairOf bucketCount baseInBucket row) := by
  have hfirst := firstLeast_pairOf F hcount baseInBucket row
  have hmin : 0 < min 1000 row.length := by omega
  have hminle : min 1000 row.length ≤ row.length := Nat.min_le_right _ _
  rcases hn with hn | ⟨rfl, hpos⟩
  · have hratio : (pairOf (F := F) bucketCount baseInBucket row).2
        = (hits baseInBucket row (min 1000 row.length)
            (pairOf (F := F) bucketCount baseInBucket row).1 : F)
          / (min 1000 row.length : ℕ) := by
      rw [pairOf_snd, hn]
    rw [hn] at hfirst
    refine ⟨hfirst.lt, fun b hb => hfirst.le b hb, fun b hb => hfirst.first b hb, hratio, ?_⟩
    rw [hratio]
    exact share_le h hminle hmin fun b hb => hfirst.le b hb
  · have hzero : (pairOf (F := F) 1 baseInBucket row).1 = 0 := Nat.lt_one_iff.mp hfirst.lt
    have hone : (pairOf (F := F) 1 baseInBucket row).2 = 1 := by
      rw [pairOf_snd, hzero, hits_zero_of_one h (topN_le _)]
      exact div_self (Nat.cast_ne_zero.mpr hpos.ne')
    refine ⟨hfirst.lt, fun b hb => ?_, fun b hb => ?_, ?_, ?_⟩
    · rw [hzero, Nat.lt_one_iff.mp hb]
    · rw [hzero] at hb
      exact absurd hb (Nat.not_lt_zero b)
    · rw [hone, hzero, hits_zero_of_one h hminle]
      exact (div_self (Nat.cast_ne_zero.mpr hmin.ne')).symm
    · rw [hone, Nat.cast_one, div_one]

end Spec

/-! ### The rows for which they agree -/

/-- An index with two vertices, the second of which lies in the bucket `far`. -/
def sampleIndex (F : Type) [Field F] (bucketCount learnNum : ℕ) (far : UInt32) : Index F where
  bucketCount := bucketCount
  baseInBucket := some [0, far]
  learnNum := learnNum
  learnData := some []
  learnGraph := [[]]
  learnProjectionInBase := []
  learnInBucket := fun _ => 0
  learnLocalRatio := fun _ => 0

/-- A row whose first vertices, as many as are counted but at most 1000, are the first vertex. -/
def sampleRow (n : ℕ) : List VertexId :=
  List.replicate (min 1000 (topN n)) 0 ++ List.replicate (n - min 1000 (topN n)) 1

lemma length_sampleRow (n : ℕ) : (sampleRow n).length = n := by
  have := topN_le n
  rw [sampleRow, List.length_append, List.length_replicate, List.length_replicate]
  omega

lemma map_length_sampleRow (lengths : List ℕ) :
    (lengths.map sampleRow).map List.length = lengths := by
  simp only [List.map_map, Function.comp_def, length_sampleRow, List.map_id']

lemma covered_sampleRow {far : UInt32} (hcount : 0 < bucketCount) (hfar : far.toNat < bucketCount)
    (n : ℕ) : Covered bucketCount [0, far] (sampleRow n) := by
  intro id hid
  rcases List.mem_append.mp hid with hid | hid
  · rw [List.eq_of_mem_replicate hid]
    exact ⟨Nat.zero_lt_two, hcount⟩
  · rw [List.eq_of_mem_replicate hid]
    exact ⟨Nat.one_lt_two, hfar⟩

lemma projects_sample {F : Type} [Field F] (far : UInt32) (hcount : 0 < bucketCount)
    (hfar : far.toNat < bucketCount) (lengths : List ℕ) :
    Projects (sampleIndex F bucketCount lengths.length far) [0, far] (lengths.map sampleRow) where
  base := rfl
  num := List.length_map ..
  covered := fun row hrow => by
    obtain ⟨n, -, rfl⟩ := List.mem_map.mp hrow
    exact covered_sampleRow hcount hfar n

lemma hits_sampleRow_zero (k : ℕ) :
    hits [0, 1] (sampleRow k) n 0 = min n (min 1000 (topN k)) := by
  simp [hits, sampleRow, List.take_append, List.take_replicate, List.countP_append,
    List.countP_replicate]

lemma hits_sampleRow_one {k : ℕ} (hn : n ≤ k) :
    hits [0, 1] (sampleRow k) n 1 = n - min 1000 (topN k) := by
  simp [hits, sampleRow, List.take_append, List.take_replicate, List.countP_append,
    List.countP_replicate]
  omega

section Lengths

variable {F : Type} [Field F] [LinearOrder F] [IsStrictOrderedRing F]

/-- A row of which no vertex is counted has no optimal pair. -/
lemma not_optimal_of_zero (hcount : 0 < bucketCount) (hzero : topN row.length = 0) :
    ¬ Optimal (F := F) bucketCount baseInBucket row (pairOf bucketCount baseInBucket row) := by
  intro hopt
  have hshare := hopt.share
  rw [pairOf_snd, hzero, Nat.cast_zero, div_zero] at hshare
  exact absurd hshare (not_le.mpr (one_div_pos.mpr (Nat.cast_pos.mpr hcount)))

/-- **The wrong number of vertices is counted**: then the pair of the sample row is not optimal. -/
lemma not_optimal_sampleRow (hcount : 1 < bucketCount) (hn : topN n ≠ min 1000 n) :
    ¬ Optimal (F := F) bucketCount [0, 1] (sampleRow n)
      (pairOf bucketCount [0, 1] (sampleRow n)) := by
  intro hopt
  have hfirst := firstLeast_pairOf F (Nat.zero_lt_of_lt hcount) [0, 1] (sampleRow n)
  obtain ⟨pair, hpair⟩ : ∃ pair, pairOf (F := F) bucketCount [0, 1] (sampleRow n) = pair := ⟨_, rfl⟩
  have hratio := hopt.ratio
  rw [pairOf_snd] at hratio
  rw [hpair] at hopt hfirst hratio
  rw [length_sampleRow] at hfirst hratio
  have hbelow := hopt.first
  rw [length_sampleRow] at hbelow
  have hwide : 2 ^ 31 ≤ n := by
    by_contra hlt
    exact hn ((topN_eq_min_iff n).mpr (Or.inl (not_le.mp hlt)))
  rcases Nat.lt_or_ge (topN n) 1000 with hlt | hge
  · -- fewer are counted: all of them lie in the first bucket, but not all of the first 1000
    have hsel : pair.1 = 0 := by
      by_contra hne
      have hmore := OrderDual.toDual_lt_toDual.mp (hfirst.first 0 (Nat.pos_of_ne_zero hne))
      rw [hits_sampleRow_zero] at hmore
      have := hits_le [0, 1] (sampleRow n) (topN n) pair.1
      omega
    rw [hsel, hits_sampleRow_zero, hits_sampleRow_zero, min_eq_right hlt.le, min_self,
      min_eq_left (show 1000 ≤ n by omega), min_eq_right hlt.le] at hratio
    have hpos : topN n ≠ 0 := fun hzero =>
      not_optimal_of_zero (Nat.zero_lt_of_lt hcount) ((length_sampleRow n).symm ▸ hzero)
        (hpair ▸ hopt)
    rw [div_self (Nat.cast_ne_zero.mpr hpos), eq_div_iff (by norm_num), one_mul] at hratio
    exact hlt.ne (Nat.cast_injective hratio).symm
  · -- more are counted: the second bucket has most of them, but none of the first 1000
    have hmany : 2 ^ 31 ≤ topN n := by
      have := topN_eq n
      split at this <;> omega
    have hsel : pair.1 = 0 := by
      by_contra hne
      have hmore := hbelow 0 (Nat.pos_of_ne_zero hne)
      rw [hits_sampleRow_zero] at hmore
      have := hits_le [0, 1] (sampleRow n) (min 1000 n) pair.1
      omega
    have hle := OrderDual.toDual_le_toDual.mp (hfirst.le 1 hcount)
    rw [hsel, hits_sampleRow_zero, hits_sampleRow_one (topN_le n)] at hle
    omega

omit [IsStrictOrderedRing F] in
/-- The pairs that the sample rows of an index get, if the computations agree on them. -/
lemma optimal_of_agrees (far : UInt32) (lengths : List ℕ) (hcount : 0 < bucketCount)
    (hfar : far.toNat < bucketCount) (hnum : lengths.length ≤ 2 ^ 32)
    (h : Agrees (sampleIndex F bucketCount lengths.length far) [0, far] (lengths.map sampleRow))
    {n : ℕ} (hn : n ∈ lengths) :
    Optimal (F := F) bucketCount [0, far] (sampleRow n)
      (pairOf bucketCount [0, far] (sampleRow n)) := by
  obtain ⟨idx', hidx'⟩ := h.returns (Option.some_ne_none _) (List.cons_ne_nil _ _)
  obtain ⟨u, hu, rfl⟩ := List.mem_iff_getElem.mp hn
  have hu32 : u < 2 ^ 32 := hu.trans_le hnum
  have hrow : (lengths.map sampleRow)[(UInt32.ofNat u).toNat]? = some (sampleRow lengths[u]) := by
    rw [UInt32.toNat_ofNat_of_lt' hu32, List.getElem?_map, List.getElem?_eq_getElem hu]
    rfl
  obtain ⟨pair, hpair, -, hopt⟩ := h.agrees idx' hidx' (UInt32.ofNat u) _ hrow
  have hsame : idx'.searchAffinity (UInt32.ofNat u)
      = .ok (pairOf bucketCount [0, far] (sampleRow lengths[u])) :=
    ((agree (projects_sample far hcount hfar lengths) hcount
      ((List.length_map ..).trans_le hnum)).2 idx' hidx' (UInt32.ofNat u) _ hrow).1
  rw [hsame, Except.ok.injEq] at hpair
  rw [hpair]
  exact hopt

/-- **When both affinity computations agree on an optimal pair**, for all rows of given lengths: the
conversion of every length to `int` leaves the number of vertices that are counted as it should be,
or there is a single bucket and some vertex of every row is counted. -/
theorem agrees_iff (F : Type) [Field F] [LinearOrder F] [IsStrictOrderedRing F] (bucketCount : ℕ)
    (lengths : List ℕ) (hcount : 0 < bucketCount) (hnum : lengths.length ≤ 2 ^ 32)
    (hpos : ∀ n ∈ lengths, 0 < n) :
    (∀ (idx : Index F) (baseInBucket : List UInt32) (learnGt : List (List VertexId)),
      idx.bucketCount = bucketCount → Projects idx baseInBucket learnGt →
        learnGt.map List.length = lengths → Agrees idx baseInBucket learnGt) ↔
      (∀ n ∈ lengths, n < 2 ^ 31 ∨ 1000 ≤ n % 2 ^ 32 ∧ n % 2 ^ 32 < 2 ^ 31) ∨
        bucketCount = 1 ∧ ∀ n ∈ lengths, ¬ 2 ^ 32 ∣ n := by
  constructor
  · intro h
    have hsample : ∀ far : UInt32, far.toNat < bucketCount → ∀ n ∈ lengths,
        Optimal (F := F) bucketCount [0, far] (sampleRow n)
          (pairOf bucketCount [0, far] (sampleRow n)) := fun far hfar n hn =>
      optimal_of_agrees far lengths hcount hfar hnum
        (h _ _ _ rfl (projects_sample far hcount hfar lengths) (map_length_sampleRow lengths)) hn
    rcases Nat.lt_or_ge 1 bucketCount with htwo | hone
    · refine Or.inl fun n hn => ?_
      by_contra hne
      have hbad : topN n ≠ min 1000 n := fun heq => hne ((topN_eq_min_iff n).mp heq)
      exact not_optimal_sampleRow htwo hbad (hsample 1 htwo n hn)
    · refine Or.inr ⟨le_antisymm hone hcount, fun n hn hdvd => ?_⟩
      have hzero : topN (sampleRow n).length = 0 := by
        rw [length_sampleRow]
        exact (topN_eq_zero_iff n).mpr hdvd
      exact not_optimal_of_zero hcount hzero (hsample 0 hcount n hn)
  · rintro hlengths idx baseInBucket learnGt rfl hproj hmap
    have hrows : learnGt.length ≤ 2 ^ 32 := by
      rw [← hmap, List.length_map] at hnum
      exact hnum
    obtain ⟨hreturns, hsame⟩ := agree hproj hcount hrows
    refine ⟨hreturns, fun idx' hidx' u row hrow => ?_⟩
    obtain ⟨hlook, hof⟩ := hsame idx' hidx' u row hrow
    have hmem := List.mem_of_getElem? hrow
    have hlen : row.length ∈ lengths := hmap ▸ List.mem_map_of_mem hmem
    refine ⟨_, hlook, hof, optimal_pairOf hcount (hproj.covered row hmem) (hpos _ hlen) ?_⟩
    rcases hlengths with hall | ⟨hone, hall⟩
    · exact Or.inl ((topN_eq_min_iff _).mpr (hall _ hlen))
    · exact Or.inr ⟨hone, Nat.pos_of_ne_zero (mt (topN_eq_zero_iff _).mp (hall _ hlen))⟩

theorem agrees_iff_twoRows :
    Agrees (sampleIndex ℚ 2 2 1) [0, 1] [sampleRow 3, sampleRow 2000] :=
  (agrees_iff ℚ 2 [3, 2000] (by decide) (by decide) (by decide)).mpr (Or.inl (by decide)) _ _ _ rfl
    (projects_sample 1 Nat.zero_lt_two Nat.one_lt_two [3, 2000]) (map_length_sampleRow [3, 2000])

/-- A row of 2^31 vertices, the first 1000 of which lie in the first of two buckets: all of them are
counted, and the second bucket is selected. -/
theorem not_agrees_longRow :
    Projects (sampleIndex ℚ 2 1 1) [0, 1] [sampleRow (2 ^ 31)] ∧
      (sampleRow (2 ^ 31)).length = 2 ^ 31 ∧
      ¬ Agrees (sampleIndex ℚ 2 1 1) [0, 1] [sampleRow (2 ^ 31)] := by
  refine ⟨projects_sample 1 Nat.zero_lt_two Nat.one_lt_two [2 ^ 31], length_sampleRow _,
    fun h => ?_⟩
  have hopt := optimal_of_agrees 1 [2 ^ 31] Nat.zero_lt_two Nat.one_lt_two
    (by norm_num) h (List.mem_singleton_self _)
  exact not_optimal_sampleRow Nat.one_lt_two
    (mt (topN_eq_min_iff (2 ^ 31)).mp (by norm_num)) hopt

end Lengths

end Affinity

end RedAnns
