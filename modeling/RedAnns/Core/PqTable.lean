import RedAnns.Core.Distance
import RedAnns.Index.BaseSet
import RedAnns.Lib.Memory

/-!
Product quantization: the tables of `src/pq.cpp` and the class `PQ` of `include/index.h`.

A base vector is cut into chunks of coordinates and each chunk is coded by the number of one of
256 pivots. For a query the squared distances of its chunks to all pivots are tabulated once, and
the estimate for a vertex is the sum of the entries that its code selects.

* `FixedChunkPQTable`, `populateChunkDistances`: the pivots and the table of a query, with the
  accumulating loops of the source.
* `PQ`, `PQ.estimate`: the codes and the lookup.
* `PQ.Lossless`, `PQ.Lossless.estimate_eq`: when the pivots selected by the codes are the base
  vectors, the estimate is the squared distance, whatever the metric of the index.
-/

namespace RedAnns

/-- `NUM_PQ_CENTROIDS`. -/
def numPqCentroids : ℕ := 256

/-- `FixedChunkPQTable`: the pivots, one row of `ndims` coordinates each, the centroid, and the
chunks, which cut the coordinates. -/
structure FixedChunkPQTable (K : Type*) where
  tables : List K
  ndims : ℕ
  nChunks : ℕ
  chunkOffsets : List ℕ
  centroid : List K
  first_eq : chunkOffsets.getD 0 0 = 0
  last_eq : chunkOffsets.getD nChunks 0 = ndims
  mono : ∀ chunk < nChunks, chunkOffsets.getD chunk 0 ≤ chunkOffsets.getD (chunk + 1) 0

/-- `PQ`, after `load`: the number of chunks is the one in the header of the codes. -/
structure PQ (K : Type*) where
  numPqChunks : UInt32
  pqTable : FixedChunkPQTable K
  pqData : Bytes
  loaded : Bool

namespace PQ

/-- The number of vertices that `load` allocates codes for. -/
def codeNum : UInt32 := 100 * 1000 * 1000

/-- The dimension that `load` allocates codes for. -/
def codeDim : UInt32 := 96

/-- The size of the buffer of codes, with a chunk for every fourth coordinate; the product is one
of 32 bits. -/
def bufferSize : ℕ := (codeNum * (codeDim / 4)).toNat

lemma bufferSize_eq : bufferSize = 2400000000 := rfl

end PQ

section Lookup

variable {K : Type*} [Field K]

namespace FixedChunkPQTable

variable (t : FixedChunkPQTable K) (query : List K)

/-- `tables_tr`, the transpose: coordinate `j` of pivot `i`. -/
def tablesTr (j i : ℕ) : K := t.tables.getD (i * t.ndims + j) 0

/-- `chunk_offsets`. -/
def chunkOffset (chunk : ℕ) : ℕ := t.chunkOffsets.getD chunk 0

/-- The square that coordinate `j` adds for pivot `idx`. -/
def square (j idx : ℕ) : K :=
  (t.tablesTr j idx - query.getD j 0) * (t.tablesTr j idx - query.getD j 0)

/-- The loop over pivots: coordinate `j` adds its square to every entry of a row. -/
def addSquares (chunkDists : List K) (j : ℕ) : List K :=
  chunkDists.mapIdx fun idx dist => dist + t.square query j idx

/-- The row of a chunk: zeroed, and then the loop over its coordinates. -/
def chunkDists (chunk : ℕ) : List K :=
  (List.range' (t.chunkOffset chunk) (t.chunkOffset (chunk + 1) - t.chunkOffset chunk)).foldl
    (t.addSquares query) (List.replicate numPqCentroids 0)

/-- `populate_chunk_distances`: the table of a query, one row a chunk. -/
def populateChunkDistances : List (List K) := (List.range t.nChunks).map (t.chunkDists query)

end FixedChunkPQTable

/-- `pq_dist_lookup_single`. -/
def pqDistLookupSingle (pqId : Bytes) (pqNchunks : ℕ) (pqDists : List (List K)) : K :=
  (List.range pqNchunks).foldl
    (fun distOut chunk => distOut + (pqDists.getD chunk []).getD (pqId chunk).toNat 0) 0

namespace PQ

variable (pq : PQ K)

/-- The lookup of `compute_dist` in the table of a query: the address of a code is computed in
32 bits. -/
def estimate (distVec : List (List K)) (baseId : VertexId) : K :=
  pqDistLookupSingle (pq.pqData.view (baseId * pq.numPqChunks).toNat) pq.numPqChunks.toNat distVec

/-- The code of a vertex: its row of `pq_data`. -/
def code (id chunk : ℕ) : ℕ := (pq.pqData (id * pq.numPqChunks.toNat + chunk)).toNat

/-- **Lossless codes**: the centroid is zero, every base vertex has a code in the buffer, and the
pivots that it selects reproduce its vector, chunk by chunk. -/
structure Lossless (val : UInt32 → K) (b : BaseSet) : Prop where
  loaded : pq.loaded = true
  nChunks_eq : pq.pqTable.nChunks = pq.numPqChunks.toNat
  ndims_eq : pq.pqTable.ndims = b.dimension
  centroid_zero : ∀ j, pq.pqTable.centroid.getD j 0 = 0
  stored : b.baseNum * pq.numPqChunks.toNat ≤ bufferSize
  reproduces : ∀ id < b.baseNum, ∀ chunk < pq.pqTable.nChunks, ∀ j,
    pq.pqTable.chunkOffset chunk ≤ j → j < pq.pqTable.chunkOffset (chunk + 1) →
      pq.pqTable.tablesTr j (pq.code id chunk) + pq.pqTable.centroid.getD j 0
        = ((b.vector id).map val).getD j 0

end PQ

/-! ### What the tables hold -/

namespace FixedChunkPQTable

variable (t : FixedChunkPQTable K) (query : List K)

/-- The loop over coordinates adds up their squares. -/
lemma getD_foldl_addSquares {idx : ℕ} (js : List ℕ) (row : List K) (h : idx < row.length) :
    (js.foldl (t.addSquares query) row).getD idx 0
      = row.getD idx 0 + (js.map fun j => t.square query j idx).sum := by
  induction js generalizing row with
  | nil => simp
  | cons j js ih =>
      have hlen : idx < (t.addSquares query row j).length := by
        rwa [addSquares, List.length_mapIdx]
      have hget : (t.addSquares query row j).getD idx 0
          = row.getD idx 0 + t.square query j idx := by
        simp [addSquares, List.getD_eq_getElem?_getD, h]
      rw [List.foldl_cons, ih _ hlen, hget, List.map_cons, List.sum_cons, add_assoc]

/-- A row holds the squared distances of its chunk. -/
lemma getD_chunkDists (chunk : ℕ) {idx : ℕ} (h : idx < numPqCentroids) :
    (t.chunkDists query chunk).getD idx 0
      = ∑ j ∈ Finset.Ico (t.chunkOffset chunk) (t.chunkOffset (chunk + 1)),
          t.square query j idx := by
  have hrow : (List.replicate numPqCentroids (0 : K)).getD idx 0 = 0 := by
    simp [List.getD_eq_getElem?_getD, h]
  rw [chunkDists, getD_foldl_addSquares _ _ _ _ (by rwa [List.length_replicate]), hrow, zero_add]
  rfl

/-- The chunks cut the coordinates. -/
lemma sum_chunks (f : ℕ → K) : ∀ n ≤ t.nChunks,
    ∑ chunk ∈ Finset.range n,
        ∑ j ∈ Finset.Ico (t.chunkOffset chunk) (t.chunkOffset (chunk + 1)), f j
      = ∑ j ∈ Finset.range (t.chunkOffset n), f j := by
  intro n
  induction n with
  | zero =>
      intro _
      rw [chunkOffset, t.first_eq]
      rfl
  | succ n ih =>
      intro hn
      have hle : t.chunkOffset n ≤ t.chunkOffset (n + 1) := t.mono n hn
      rw [Finset.sum_range_succ, ih (by omega), Finset.range_eq_Ico, Finset.range_eq_Ico,
        Finset.sum_Ico_consecutive _ (Nat.zero_le _) hle]

end FixedChunkPQTable

/-- The lookup adds up the selected entries. -/
lemma pqDistLookupSingle_eq (pqId : Bytes) (n : ℕ) (pqDists : List (List K)) :
    pqDistLookupSingle pqId n pqDists
      = ∑ chunk ∈ Finset.range n, (pqDists.getD chunk []).getD (pqId chunk).toNat 0 := by
  induction n with
  | zero => rfl
  | succ n ih =>
      rw [pqDistLookupSingle] at ih ⊢
      rw [List.range_succ, List.foldl_append, ih, Finset.sum_range_succ]
      rfl

namespace PQ

variable {pq : PQ K} {val : UInt32 → K} {b : BaseSet}

/-- No address of a code overflows. -/
lemma Lossless.toNat_mul (h : pq.Lossless val b) {id : VertexId} (hid : id.toNat < b.baseNum) :
    (id * pq.numPqChunks).toNat = id.toNat * pq.numPqChunks.toNat := by
  have hrow : id.toNat * pq.numPqChunks.toNat ≤ b.baseNum * pq.numPqChunks.toNat :=
    Nat.mul_le_mul_right _ hid.le
  have hstored := h.stored
  rw [bufferSize_eq] at hstored
  rw [UInt32.toNat_mul, Nat.mod_eq_of_lt (by omega)]

/-- **Lossless codes estimate the squared distance.** -/
theorem Lossless.estimate_eq (h : pq.Lossless val b) {id : VertexId} (hid : id.toNat < b.baseNum)
    (query : List K) :
    pq.estimate (pq.pqTable.populateChunkDistances query) id
      = Distance.coordSum (fun a c => (a - c) * (a - c)) ((b.vector id.toNat).map val) query := by
  have haddr := h.toNat_mul hid
  have hrow : ∀ chunk < pq.pqTable.nChunks,
      ((pq.pqTable.populateChunkDistances query).getD chunk []).getD
          ((pq.pqData.view (id * pq.numPqChunks).toNat) chunk).toNat 0
        = ∑ j ∈ Finset.Ico (pq.pqTable.chunkOffset chunk) (pq.pqTable.chunkOffset (chunk + 1)),
            pq.pqTable.square query j (pq.code id.toNat chunk) := fun chunk hc => by
    have hget : (pq.pqTable.populateChunkDistances query).getD chunk []
        = pq.pqTable.chunkDists query chunk := by
      simp [FixedChunkPQTable.populateChunkDistances, List.getD_eq_getElem?_getD, hc]
    rw [hget, haddr]
    exact pq.pqTable.getD_chunkDists query chunk (UInt8.toNat_lt _)
  have hsquare : ∀ chunk < pq.pqTable.nChunks,
      ∀ j ∈ Finset.Ico (pq.pqTable.chunkOffset chunk) (pq.pqTable.chunkOffset (chunk + 1)),
        pq.pqTable.square query j (pq.code id.toNat chunk)
          = (((b.vector id.toNat).map val).getD j 0 - query.getD j 0)
            * (((b.vector id.toNat).map val).getD j 0 - query.getD j 0) := fun chunk hc j hj => by
    obtain ⟨hlo, hhi⟩ := Finset.mem_Ico.mp hj
    have hpivot := h.reproduces id.toNat hid chunk hc j hlo hhi
    rw [h.centroid_zero, add_zero] at hpivot
    rw [FixedChunkPQTable.square, hpivot]
  calc pq.estimate (pq.pqTable.populateChunkDistances query) id
      = ∑ chunk ∈ Finset.range pq.pqTable.nChunks,
          ((pq.pqTable.populateChunkDistances query).getD chunk []).getD
            ((pq.pqData.view (id * pq.numPqChunks).toNat) chunk).toNat 0 := by
        rw [estimate, pqDistLookupSingle_eq, h.nChunks_eq]
    _ = ∑ chunk ∈ Finset.range pq.pqTable.nChunks,
          ∑ j ∈ Finset.Ico (pq.pqTable.chunkOffset chunk) (pq.pqTable.chunkOffset (chunk + 1)),
            (((b.vector id.toNat).map val).getD j 0 - query.getD j 0)
              * (((b.vector id.toNat).map val).getD j 0 - query.getD j 0) := by
        refine Finset.sum_congr rfl fun chunk hc => ?_
        rw [Finset.mem_range] at hc
        rw [hrow chunk hc]
        exact Finset.sum_congr rfl (hsquare chunk hc)
    _ = ∑ j ∈ Finset.range b.dimension,
          (((b.vector id.toNat).map val).getD j 0 - query.getD j 0)
            * (((b.vector id.toNat).map val).getD j 0 - query.getD j 0) := by
        rw [pq.pqTable.sum_chunks _ _ le_rfl, ← h.ndims_eq, FixedChunkPQTable.chunkOffset,
          pq.pqTable.last_eq]
    _ = _ := by rw [Distance.coordSum, List.length_map, BaseSet.length_vector]

end PQ

end Lookup

end RedAnns
