import RedAnns.Index.Layout

/-!
The base set and the index in one piece (`src/index.cpp`).

* `BaseSet` is what `load_base_data` and `load_base_graph` leave behind, with the facts they
  establish as fields; `BaseSet.load` is the end of `load_base_graph`, whose bound on the
  degrees comes from `checkDegree`.
* `generateBaseIndex` writes the records one after the other, and
  `getVertexFlat_generateBaseIndex` says that every one of them stands in its slot.
-/

namespace RedAnns

open Bytes

/-! ### The base set -/

/-- `check_degree`: the largest out-degree takes the place of a wrong observed one. -/
def checkDegree (graph : List (List VertexId)) (maxObservedDegree : ℕ) : ℕ :=
  let maxOutDegree := graph.foldl (fun d ns => max d ns.length) 0
  if maxObservedDegree ≠ maxOutDegree then maxOutDegree else maxObservedDegree

lemma checkDegree_eq (graph : List (List VertexId)) (d : ℕ) :
    checkDegree graph d = graph.foldl (fun d ns => max d ns.length) 0 := by
  rw [checkDegree]
  split_ifs with h
  · rfl
  · exact not_not.mp h

/-- After `check_degree` the observed degree bounds every adjacency list. -/
lemma length_le_checkDegree {graph : List (List VertexId)} {ns : List VertexId}
    (h : ns ∈ graph) (d : ℕ) : ns.length ≤ checkDegree graph d := by
  have key : ∀ (l : List (List VertexId)) (e : ℕ),
      e ≤ l.foldl (fun d ns => max d ns.length) e ∧
        ∀ ns ∈ l, ns.length ≤ l.foldl (fun d ns => max d ns.length) e := by
    intro l
    induction l with
    | nil => exact fun e => ⟨le_rfl, by simp⟩
    | cons a l ih =>
        intro e
        obtain ⟨h1, h2⟩ := ih (max e a.length)
        refine ⟨(le_max_left _ _).trans h1, fun ns hns => ?_⟩
        rcases List.mem_cons.mp hns with rfl | hns
        · exact (le_max_right _ _).trans h1
        · exact h2 ns hns
  rw [checkDegree_eq]
  exact (key graph 0).2 ns h

/-- The base vectors and the base graph. The counts are `unsigned`. -/
structure BaseSet where
  baseNum : ℕ
  dimension : ℕ
  baseData : ℕ → UInt32
  baseGraph : List (List VertexId)
  baseGraphR : ℕ
  baseGraphEP : VertexId
  baseNum_pos : 0 < baseNum
  baseNum_lt : baseNum < 2 ^ 32
  size_baseGraph : baseGraph.length = baseNum
  degree_le : ∀ ns ∈ baseGraph, ns.length ≤ baseGraphR
  baseGraphR_lt : baseGraphR < 2 ^ 32
  neighbor_lt : ∀ ns ∈ baseGraph, ∀ v ∈ ns, v.toNat < baseNum
  entry_lt : baseGraphEP.toNat < baseNum

namespace BaseSet

/-- The end of `load_base_graph`: the degree bound is corrected and the number of lists
compared with the number of vectors. -/
def load (baseNum dimension : ℕ) (baseData : ℕ → UInt32) (graph : List (List VertexId))
    (maxObservedDegree : ℕ) (start : VertexId) (hpos : 0 < baseNum) (hlt : baseNum < 2 ^ 32)
    (hdeg : checkDegree graph maxObservedDegree < 2 ^ 32)
    (hid : ∀ ns ∈ graph, ∀ v ∈ ns, v.toNat < baseNum) (hep : start.toNat < baseNum) :
    Except String BaseSet :=
  if h : baseNum = graph.length then
    .ok
      { baseNum := baseNum
        dimension := dimension
        baseData := baseData
        baseGraph := graph
        baseGraphR := checkDegree graph maxObservedDegree
        baseGraphEP := start
        baseNum_pos := hpos
        baseNum_lt := hlt
        size_baseGraph := h.symm
        degree_le := fun _ hns => length_le_checkDegree hns _
        baseGraphR_lt := hdeg
        neighbor_lt := hid
        entry_lt := hep }
  else .error "error@load_graph: uncorrect graph size."

variable (b : BaseSet)

/-- The vector `_base_data + id * _dimension`. -/
def vector (id : ℕ) : List UInt32 :=
  (List.range b.dimension).map fun j => b.baseData (id * b.dimension + j)

/-- `_base_graph[id]`. -/
def adjacency (id : ℕ) : List VertexId := b.baseGraph.getD id []

@[simp] lemma length_vector (id : ℕ) : (b.vector id).length = b.dimension := by simp [vector]

variable {b}

lemma adjacency_mem {id : ℕ} (h : id < b.baseNum) : b.adjacency id ∈ b.baseGraph := by
  have h' : id < b.baseGraph.length := by rw [b.size_baseGraph]; exact h
  rw [adjacency, List.getD_eq_getElem _ _ h']
  exact List.getElem_mem h'

lemma degree_adjacency_le {id : ℕ} (h : id < b.baseNum) : (b.adjacency id).length ≤ b.baseGraphR :=
  b.degree_le _ (adjacency_mem h)

lemma degree_adjacency_lt {id : ℕ} (h : id < b.baseNum) : (b.adjacency id).length < 2 ^ 32 :=
  (degree_adjacency_le h).trans_lt b.baseGraphR_lt

lemma adjacency_lt {id : ℕ} (h : id < b.baseNum) {v : VertexId} (hv : v ∈ b.adjacency id) :
    v.toNat < b.baseNum :=
  b.neighbor_lt _ (adjacency_mem h) v hv

end BaseSet

/-! ### The index in one piece -/

section Flat

variable (b : BaseSet)

/-- The layout that `generate_base_index` fixes. -/
def BaseSet.flatLayout : Layout := RedAnns.flatLayout b.dimension b.baseGraphR

/-- `generate_base_index`: the contents of `_base_index` on top of what `malloc` returned. -/
def generateBaseIndex (malloc : Bytes) : Bytes :=
  (List.range b.baseNum).foldl (fun m curId =>
    b.flatLayout.writeRecord m (curId * b.flatLayout.elementSize) (b.vector curId)
      (UInt32.ofNat curId) (b.adjacency curId).length ((b.adjacency curId).map encodeWord)) malloc

/-- `get_vertex` of `search_base_index`. -/
def getVertexFlat (L : Layout) (baseIndex : Bytes) (id : VertexId) : Bytes :=
  baseIndex.view (id.toNat * L.elementSize)

variable {b}

/-- **Every record of the one-piece index stands** in its slot, if the number of words of a list is
`unsigned`. -/
theorem getVertexFlat_generateBaseIndex (hR : 1 + b.baseGraphR < 2 ^ 32) (malloc : Bytes) {id : ℕ}
    (h : id < b.baseNum) :
    Stands (getVertexFlat b.flatLayout (generateBaseIndex b malloc) (UInt32.ofNat id)) 0
      (Layout.recordBytes (b.vector id) (UInt32.ofNat id) (b.adjacency id).length
        ((b.adjacency id).map encodeWord)) := by
  have hstore : ∀ n, (List.range n).foldl (fun m curId =>
      b.flatLayout.writeRecord m (curId * b.flatLayout.elementSize) (b.vector curId)
        (UInt32.ofNat curId) (b.adjacency curId).length ((b.adjacency curId).map encodeWord))
        malloc
      = store b.flatLayout.elementSize (fun i => ((), i)) (fun i => Layout.recordBytes (b.vector i)
        (UInt32.ofNat i) (b.adjacency i).length ((b.adjacency i).map encodeWord))
        (fun _ => malloc) n () := by
    intro n
    induction n with
    | zero => rfl
    | succ n ih =>
        rw [List.range_succ, List.foldl_append, ih, store_succ, Function.update_self,
          List.foldl_cons, List.foldl_nil,
          Layout.writeRecord_eq (show (b.vector n).length = b.flatLayout.dimension from
            b.length_vector n)]
  have hfit : ∀ i < b.baseNum, (Layout.recordBytes (b.vector i) (UInt32.ofNat i)
      (b.adjacency i).length ((b.adjacency i).map encodeWord)).length
        ≤ b.flatLayout.elementSize := by
    intro i hi
    have hdeg := BaseSet.degree_adjacency_le hi
    have hflat : ((b.adjacency i).map encodeWord).flatten.length = 4 * (b.adjacency i).length := by
      rw [← List.flatMap_def]
      exact length_encodeWords _
    rw [Layout.length_recordBytes (show (b.vector i).length = b.flatLayout.dimension from
      b.length_vector i), hflat]
    simp only [Layout.elementSize, Layout.neighborOffset, BaseSet.flatLayout, RedAnns.flatLayout,
      Nat.mod_eq_of_lt hR]
    omega
  have hid : (UInt32.ofNat id).toNat = id := by
    have := b.baseNum_lt
    rw [UInt32.toNat_ofNat', Nat.mod_eq_of_lt (by omega)]
  rw [getVertexFlat, stands_view, Nat.add_zero, hid, generateBaseIndex, hstore]
  exact stands_store (fun i => ((), i)) (fun i _ j _ hij => (Prod.mk.inj hij).2) hfit h

end Flat

/-- The first of 513 vectors has vertices `256` and `512` for neighbours, for examples. -/
def fan : BaseSet where
  baseNum := 513
  dimension := 1
  baseData id := UInt32.ofNat (id + 1)
  baseGraph := [256, 512] :: List.replicate 512 [0]
  baseGraphR := 2
  baseGraphEP := 0
  baseNum_pos := by decide
  baseNum_lt := by decide
  size_baseGraph := by rw [List.length_cons, List.length_replicate]
  degree_le := by decide +kernel
  baseGraphR_lt := by decide
  neighbor_lt := by decide +kernel
  entry_lt := by decide

/-- Two vectors of one coordinate that are each other's neighbours, for examples. -/
def twoPoints : BaseSet where
  baseNum := 2
  dimension := 1
  baseData id := UInt32.ofNat (id + 1)
  baseGraph := [[1], [0]]
  baseGraphR := 1
  baseGraphEP := 0
  baseNum_pos := by decide
  baseNum_lt := by decide
  size_baseGraph := rfl
  degree_le := by decide
  baseGraphR_lt := by decide
  neighbor_lt := by decide
  entry_lt := by decide

/-- Three vectors in a circle, for examples. -/
def threePoints : BaseSet where
  baseNum := 3
  dimension := 1
  baseData id := UInt32.ofNat (id + 1)
  baseGraph := [[1], [2], [0]]
  baseGraphR := 1
  baseGraphEP := 0
  baseNum_pos := by decide
  baseNum_lt := by decide
  size_baseGraph := rfl
  degree_le := by decide
  baseGraphR_lt := by decide
  neighbor_lt := by decide
  entry_lt := by decide

/-- Two points, of which the second is not reachable from the first, for
examples. -/
def oneWay : BaseSet where
  baseNum := 2
  dimension := 1
  baseData id := UInt32.ofNat (id + 1)
  baseGraph := [[], [0]]
  baseGraphR := 1
  baseGraphEP := 0
  baseNum_pos := by decide
  baseNum_lt := by decide
  size_baseGraph := rfl
  degree_le := by decide
  baseGraphR_lt := by decide
  neighbor_lt := by decide
  entry_lt := by decide

/-- Two vectors of a mebibyte each, that are each other's neighbours, for
examples. -/
def longVectors : BaseSet where
  baseNum := 2
  dimension := 2 ^ 18
  baseData _ := 0
  baseGraph := [[1], [0]]
  baseGraphR := 1
  baseGraphEP := 0
  baseNum_pos := by decide
  baseNum_lt := by decide
  size_baseGraph := rfl
  degree_le := by decide
  baseGraphR_lt := by decide
  neighbor_lt := by decide
  entry_lt := by decide

end RedAnns
