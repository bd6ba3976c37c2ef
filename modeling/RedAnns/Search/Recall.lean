import Mathlib.Algebra.Order.Field.Basic
import Mathlib.Tactic
import RedAnns.Core.Vertex

/-!
The recall of a cluster, from `get_recall` and `compute_recall` of `include/common.h` and the
aggregation at the end of `test_search_distributed.cpp`.

Every server keeps a row of `K` results for every query, all zeros at first, and fills the rows of
the queries it executes. It computes its recall over all queries, and the first server adds up the
recalls of the others.

* `RecallRun`: a ground truth, the answers, and which server executes which query.
* `RecallRun.clusterRecall_eq`: each row of zeros counts when vertex 0 is among the first `K` of the
  ground truth, once for every server but the executing one.
* `RecallRun.clusterRecall_eq_iff`: when the sum of the recalls is the recall of the merged rows.
-/

namespace RedAnns

section Model

variable {T : Type} [DecidableEq T] {F : Type} [Field F]

/-- `get_recall`. -/
def getRecall (r1 r2 : List T) (K : ℕ) : Except String F :=
  if r1.length < K ∨ r2.length < K then
    .error "error@get_recall: groundtruth or reuslt is not enough."
  else .ok ((((r1.take K).toFinset ∩ (r2.take K).toFinset).card : F) / K)

/-- `compute_recall`, in percent. -/
def computeRecall (queryNum K : ℕ) (gt res : List (List T)) : Except String F :=
  if queryNum > gt.length ∨ queryNum > res.length then .error "error@compute_recall"
  else do
    let sum ← (List.range queryNum).foldlM
      (fun sum i => do return sum + (← getRecall (gt.getD i []) (res.getD i []) K)) 0
    return sum * 100 / queryNum

end Model

/-- A run of the queries on a cluster: the ground truth, long enough for `compute_recall`, the
server that executes each query, and the results it finds. -/
structure RecallRun where
  queryNum : ℕ
  K : ℕ
  gt : List (List VertexId)
  numServers : ℕ
  executor : ℕ → Fin numServers
  answer : ℕ → List VertexId
  pos : 0 < K
  gt_length : queryNum ≤ gt.length
  row_length : ∀ qid < queryNum, K ≤ (gt.getD qid []).length
  answer_length : ∀ qid, (answer qid).length = K

namespace RecallRun

variable (r : RecallRun)

/-- `res` of a server: the results of the queries it has executed, and zeros. -/
def res (s : Fin r.numServers) : List (List VertexId) :=
  (List.range r.queryNum).map fun qid =>
    if r.executor qid = s then r.answer qid else List.replicate r.K 0

/-- The rows of all queries, each from the server that has executed it. -/
def merged : List (List VertexId) := (List.range r.queryNum).map r.answer

variable (F : Type) [Field F]

/-- `recall` of the first server, with those of the others added. -/
def clusterRecall : Except String F := do
  let recalls ← (List.finRange r.numServers).mapM fun s =>
    computeRecall r.queryNum r.K r.gt (r.res s)
  return recalls.sum

/-- The recall of the merged rows. -/
def mergedRecall : Except String F := computeRecall r.queryNum r.K r.gt r.merged

/-! ### What the rows contribute -/

/-- How many of a row are among the first `K` of the ground truth of a query. -/
def hits (qid : ℕ) (row : List VertexId) : ℕ :=
  ((((r.gt.getD qid []).take r.K).toFinset) ∩ (row.take r.K).toFinset).card

/-- The queries with vertex 0 among the first `K` of their ground truth. -/
def zeroQueries : Finset ℕ :=
  (Finset.range r.queryNum).filter fun qid => 0 ∈ (r.gt.getD qid []).take r.K

variable {F}

/-- A loop that adds up values that are all there. -/
lemma foldlM_add_eq {f : ℕ → Except String F} {g : ℕ → F} (n : ℕ)
    (h : ∀ i < n, f i = .ok (g i)) :
    (List.range n).foldlM (fun sum i => do return sum + (← f i)) 0
      = .ok (∑ i ∈ Finset.range n, g i) := by
  induction n with
  | zero => rfl
  | succ n ih =>
      rw [List.range_succ, List.foldlM_append, ih fun i hi => h i (Nat.lt_succ_of_lt hi),
        Finset.sum_range_succ]
      simp only [bind, Except.bind, List.foldlM_cons, h n (Nat.lt_succ_self n)]
      rfl

/-- **The recall of a list of rows** of `K` results each. -/
lemma computeRecall_eq {row : ℕ → List VertexId} (hrow : ∀ qid, (row qid).length = r.K) :
    computeRecall r.queryNum r.K r.gt ((List.range r.queryNum).map row)
      = .ok ((∑ qid ∈ Finset.range r.queryNum, (r.hits qid (row qid) : F) / r.K) * 100
          / r.queryNum) := by
  have hget : ∀ qid < r.queryNum,
      getRecall (r.gt.getD qid []) (((List.range r.queryNum).map row).getD qid []) r.K
        = .ok ((r.hits qid (row qid) : F) / r.K) := by
    intro qid hqid
    have hres : ((List.range r.queryNum).map row).getD qid [] = row qid := by
      rw [List.getD_eq_getElem?_getD, List.getElem?_map, List.getElem?_range hqid]
      rfl
    have hlen : ¬ ((r.gt.getD qid []).length < r.K ∨ (row qid).length < r.K) := by
      rw [hrow]
      exact not_or.mpr ⟨not_lt.mpr (r.row_length qid hqid), lt_irrefl _⟩
    rw [getRecall, hres, if_neg hlen]
    rfl
  have hsize : ¬ (r.queryNum > r.gt.length ∨
      r.queryNum > ((List.range r.queryNum).map row).length) := by
    rw [List.length_map, List.length_range]
    exact not_or.mpr ⟨not_lt.mpr r.gt_length, lt_irrefl _⟩
  rw [computeRecall, if_neg hsize, foldlM_add_eq r.queryNum hget]
  rfl

/-- A row of zeros counts once, if vertex 0 is among the first `K` of the ground truth. -/
lemma hits_zeros (qid : ℕ) : r.hits qid (List.replicate r.K 0)
    = if 0 ∈ (r.gt.getD qid []).take r.K then 1 else 0 := by
  have hzeros : ((List.replicate r.K (0 : VertexId)).take r.K).toFinset = {0} := by
    rw [List.take_of_length_le (by rw [List.length_replicate]),
      List.toFinset_replicate_of_ne_zero r.pos.ne']
  rw [hits, hzeros]
  split_ifs with h
  · rw [Finset.inter_singleton_of_mem (List.mem_toFinset.mpr h), Finset.card_singleton]
  · rw [Finset.inter_singleton_of_notMem fun hmem => h (List.mem_toFinset.mp hmem),
      Finset.card_empty]

/-- Over the servers, a query counts what its answer does and, on all servers but one, what zeros
do. -/
lemma sum_hits (qid : ℕ) :
    ∑ s, r.hits qid (if r.executor qid = s then r.answer qid else List.replicate r.K 0)
      = r.hits qid (r.answer qid)
        + (r.numServers - 1) * if 0 ∈ (r.gt.getD qid []).take r.K then 1 else 0 := by
  rw [← Finset.add_sum_erase Finset.univ _ (Finset.mem_univ (r.executor qid)), if_pos rfl]
  congr 1
  have hrest : ∀ s ∈ Finset.univ.erase (r.executor qid),
      r.hits qid (if r.executor qid = s then r.answer qid else List.replicate r.K 0)
        = if 0 ∈ (r.gt.getD qid []).take r.K then 1 else 0 := fun s hs => by
    rw [if_neg (Finset.ne_of_mem_erase hs).symm, hits_zeros]
  rw [Finset.sum_congr rfl hrest, Finset.sum_const, Finset.card_erase_of_mem (Finset.mem_univ _),
    Finset.card_univ, Fintype.card_fin, smul_eq_mul]

lemma mapM_eq_ok {α β : Type} {f : α → Except String β} {g : α → β} (h : ∀ a, f a = .ok (g a))
    (l : List α) : l.mapM f = .ok (l.map g) := by
  induction l with
  | nil => rfl
  | cons a l ih =>
      rw [List.mapM_cons, h, ih]
      rfl

/-- **The sum of the recalls** is the recall of the merged rows and a share for every query with
vertex 0 in its ground truth, on all servers but one. -/
theorem clusterRecall_eq : ∃ merged : F, r.mergedRecall F = .ok merged ∧
    r.clusterRecall F = .ok (merged
      + ((r.numServers - 1 : ℕ) * r.zeroQueries.card : ℕ) / r.K * 100 / r.queryNum) := by
  refine ⟨_, r.computeRecall_eq r.answer_length, ?_⟩
  have hrow : ∀ s qid, (if r.executor qid = s then r.answer qid
      else List.replicate r.K 0).length = r.K := by
    intro s qid
    split_ifs
    · exact r.answer_length qid
    · exact List.length_replicate
  have hserver : ∀ s, computeRecall r.queryNum r.K r.gt (r.res s) = .ok _ := fun s =>
    r.computeRecall_eq (F := F) (hrow s)
  rw [clusterRecall, mapM_eq_ok hserver]
  show Except.ok _ = _
  congr 1
  have hsum : ∑ s, ∑ qid ∈ Finset.range r.queryNum,
      (r.hits qid (if r.executor qid = s then r.answer qid else List.replicate r.K 0) : F) / r.K
      = ∑ qid ∈ Finset.range r.queryNum, (r.hits qid (r.answer qid) : F) / r.K
        + ((r.numServers - 1 : ℕ) * r.zeroQueries.card : ℕ) / r.K := by
    rw [Finset.sum_comm, zeroQueries, Finset.card_filter, Finset.mul_sum, Nat.cast_sum,
      Finset.sum_div, ← Finset.sum_add_distrib]
    refine Finset.sum_congr rfl fun qid _ => ?_
    rw [← Finset.sum_div, ← Nat.cast_sum, sum_hits, Nat.cast_add, add_div]
  calc ((List.finRange r.numServers).map fun s =>
        (∑ qid ∈ Finset.range r.queryNum, (r.hits qid (if r.executor qid = s then r.answer qid
          else List.replicate r.K 0) : F) / r.K) * 100 / r.queryNum).sum
      = ∑ s, (∑ qid ∈ Finset.range r.queryNum, (r.hits qid (if r.executor qid = s
          then r.answer qid else List.replicate r.K 0) : F) / r.K) * 100 / r.queryNum := by
        rw [Fin.sum_univ_def]
    _ = _ := by rw [← Finset.sum_div, ← Finset.sum_mul, hsum, add_mul, add_div]

/-- **When the sum of the recalls is the recall of the merged rows**: on one server, or when vertex
0 is among the first `K` of no ground truth. -/
theorem clusterRecall_eq_iff [CharZero F] : r.clusterRecall F = r.mergedRecall F ↔
    r.numServers = 1 ∨ ∀ qid < r.queryNum, 0 ∉ (r.gt.getD qid []).take r.K := by
  obtain ⟨merged, hmerged, hcluster⟩ := r.clusterRecall_eq (F := F)
  have hK : (r.K : F) ≠ 0 := Nat.cast_ne_zero.mpr r.pos.ne'
  have hservers : r.numServers - 1 = 0 ↔ r.numServers = 1 := by
    have hpos : 0 < r.numServers := (r.executor 0).pos
    omega
  have hempty : r.zeroQueries = ∅ ↔
      ∀ qid < r.queryNum, 0 ∉ (r.gt.getD qid []).take r.K := by
    rw [zeroQueries, Finset.filter_eq_empty_iff]
    simp only [Finset.mem_range]
  rw [hmerged, hcluster, Except.ok.injEq, add_eq_left, div_eq_zero_iff, mul_eq_zero,
    div_eq_zero_iff, or_iff_left (show (100 : F) ≠ 0 by norm_num), or_iff_left hK, Nat.cast_eq_zero,
    Nat.cast_eq_zero, Nat.mul_eq_zero, Finset.card_eq_zero, hservers, hempty]
  refine ⟨fun h => h.elim id fun hnone => Or.inr fun qid hqid => ?_, Or.inl⟩
  rw [hnone] at hqid
  exact absurd hqid (Nat.not_lt_zero qid)

/-- Two servers and one query, answered with vertex 5 by the first, for examples. -/
def twoServersRecall (gt : List (List VertexId)) (h : ∀ qid < 1, 1 ≤ (gt.getD qid []).length)
    (hlength : 1 ≤ gt.length) : RecallRun where
  queryNum := 1
  K := 1
  gt := gt
  numServers := 2
  executor _ := 0
  answer _ := [5]
  pos := Nat.one_pos
  gt_length := hlength
  row_length := h
  answer_length _ := rfl

/-- A ground truth without vertex 0. -/
theorem clusterRecall_eq_iff_twoServers :
    (twoServersRecall [[7]] (by simp) le_rfl).clusterRecall ℚ
        = (twoServersRecall [[7]] (by simp) le_rfl).mergedRecall ℚ ↔
      (twoServersRecall [[7]] (by simp) le_rfl).numServers = 1 ∨
        ∀ qid < 1, (0 : VertexId) ∉ (([[7]] : List (List VertexId)).getD qid []).take 1 :=
  clusterRecall_eq_iff (twoServersRecall [[7]] (by simp) le_rfl)

/-- **A cluster can report a recall that no server has found**: the nearest vertex is vertex 0, the
answer is vertex 5, and the zeros of the second server count as a hit. -/
theorem clusterRecall_ne_mergedRecall :
    (twoServersRecall [[0]] (by simp) le_rfl).clusterRecall ℚ = .ok 100 ∧
      (twoServersRecall [[0]] (by simp) le_rfl).mergedRecall ℚ = .ok 0 ∧
      (twoServersRecall [[0]] (by simp) le_rfl).clusterRecall ℚ
        ≠ (twoServersRecall [[0]] (by simp) le_rfl).mergedRecall ℚ := by
  set r := twoServersRecall [[0]] (by simp) le_rfl with hr
  have hmiss : r.hits 0 [5] = 0 := by decide
  have hzero : r.zeroQueries.card = 1 := by decide
  have hmerged : r.mergedRecall ℚ = .ok ((∑ qid ∈ Finset.range 1,
      (r.hits qid [5] : ℚ) / (1 : ℕ)) * 100 / (1 : ℕ)) := r.computeRecall_eq r.answer_length
  obtain ⟨merged, hmerged', hcluster⟩ := r.clusterRecall_eq (F := ℚ)
  have heq : merged = 0 := by
    rw [hmerged, Except.ok.injEq, Finset.sum_range_one, hmiss] at hmerged'
    rw [← hmerged']
    norm_num
  have hreported : r.clusterRecall ℚ = .ok 100 := by
    rw [hcluster, heq, hzero, show r.numServers = 2 from rfl, show r.K = 1 from rfl,
      show r.queryNum = 1 from rfl]
    norm_num
  rw [hreported, hmerged', heq]
  refine ⟨rfl, rfl, fun hsame => ?_⟩
  have hvalue : (100 : ℚ) = 0 := Except.ok.inj hsame
  norm_num at hvalue

end RecallRun

end RedAnns
