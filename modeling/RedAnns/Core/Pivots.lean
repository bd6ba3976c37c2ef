import RedAnns.Core.Chunking
import RedAnns.Core.PqTable
import RedAnns.Lib.Accumulate

/-!
How the pivots come about: `generate_pq_pivots` and `generate_quantized_data` of `src/pq.cpp`.

The training vectors are centered when the caller asks for it, the dimensions are cut into chunks,
and every chunk is clustered on its own; the clusters' centers are copied into one matrix.

* `centroidOf`, `trainPivots`, `generatePqPivots`: the source, with the clustering of a chunk as a
  parameter.
* `trainPivots_apply`: every coordinate of every pivot comes from the clustering of its chunk,
  whatever the matrix held before.
* `generateQuantizedData`, `quantizedTable`: what the index is built with, whose centroid is zero.
-/

namespace RedAnns

/-- The metrics of `include/efanna2e/distance.h`. -/
inductive Efanna2e.Metric
  | L2
  | INNER_PRODUCT
  | FAST_L2
  | PQ
  | COSINE
  deriving DecidableEq, Repr

/-- The arrays that `generate_pq_pivots` leaves behind. -/
structure Pivots (K : Type*) where
  fullPivotData : List K
  centroid : List K
  chunkOffsets : List ℕ

section Training

variable {K : Type*} [Field K]

/-- The centroid, which stays zero unless the data are to be centered. -/
def centroidOf (trainData : List K) (numTrain dim : ℕ) (makeZeroMean : Bool) : List K :=
  (List.range dim).map fun d =>
    if makeZeroMean then
      (List.range numTrain).foldl (fun c p => c + trainData.getD (p * dim + d) 0) 0 / numTrain
    else 0

/-- The training data after the centroid is taken off: entry `p * dim + d` is coordinate `d`. -/
def centerTrainData (trainData centroid : List K) (dim : ℕ) (makeZeroMean : Bool) : List K :=
  if makeZeroMean then trainData.mapIdx fun a x => x - centroid.getD (a % dim) 0 else trainData

/-- `cur_data`: the coordinates of a chunk. -/
def curData (trainData : List K) (numTrain dim lo curChunkSize : ℕ) : List K :=
  (List.range numTrain).flatMap fun j =>
    (List.range curChunkSize).map fun k => trainData.getD (j * dim + lo + k) 0

/-- The copy of the centers of a chunk into the rows of the matrix. -/
def copyCenters (fullPivotData : Buffer K) (curPivotData : List K)
    (numCenters dim lo curChunkSize : ℕ) : Buffer K :=
  fullPivotData.mapRows numCenters curChunkSize dim lo
    fun j k _ => curPivotData.getD (j * curChunkSize + k) 0

/-- The loop over chunks. `cluster data n size` is what `kmeanspp_selecting_pivots` and `run_lloyds`
make of the `n` rows of a chunk. -/
def trainPivots (cluster : List K → ℕ → ℕ → List K) (trainData : List K)
    (numTrain dim numCenters numPqChunks : ℕ) (chunkOffsets : List ℕ) (fullPivotData : Buffer K) :
    Buffer K :=
  (List.range numPqChunks).foldl (fun m i =>
    let lo := chunkOffsets.getD i 0
    let curChunkSize := chunkOffsets.getD (i + 1) 0 - lo
    if curChunkSize = 0 then m
    else copyCenters m (cluster (curData trainData numTrain dim lo curChunkSize) numTrain
      curChunkSize) numCenters dim lo curChunkSize) fullPivotData

/-- `generate_pq_pivots`, up to where the file is written. `existing` is the shape of the pivots in
a file that is there already, and `heap` what the allocation left in the matrix, which `memset`
clears in part only. -/
def generatePqPivots (cluster : List K → ℕ → ℕ → List K) (heap : Buffer K)
    (existing : Option (ℕ × ℕ)) (trainData : List K) (numTrain dim numCenters numPqChunks : ℕ)
    (makeZeroMean : Bool) : Option (Pivots K) :=
  if dim < numPqChunks then none
  else if existing = some (numCenters, dim) then none
  else
    let centroid := centroidOf trainData numTrain dim makeZeroMean
    let trainData := centerTrainData trainData centroid dim makeZeroMean
    (assignDims dim numPqChunks).map fun s =>
      let chunkOffsets := chunkOffsetsOf dim numPqChunks s.binToDims
      { fullPivotData := (trainPivots cluster trainData numTrain dim numCenters numPqChunks
          chunkOffsets heap).take (numCenters * dim)
        centroid := centroid
        chunkOffsets := chunkOffsets }

/-- The pivots of `generate_quantized_data`: the data are not centered, whatever the metric. -/
def generateQuantizedData (cluster : List K → ℕ → ℕ → List K) (heap : Buffer K)
    (existing : Option (ℕ × ℕ)) (trainData : List K) (trainSize trainDim : ℕ)
    (compareMetric : Efanna2e.Metric) (numPqChunks : ℕ) : Option (Pivots K) :=
  let makeZeroMean := false
  let makeZeroMean := if compareMetric = .INNER_PRODUCT then false else makeZeroMean
  generatePqPivots cluster heap existing trainData trainSize trainDim numPqCentroids numPqChunks
    makeZeroMean

end Training

/-! ### The matrix of pivots -/

section Matrix

variable {K : Type*} [Field K]

/-- Offsets that grow from each one to the next grow. -/
lemma monotone_chunkOffsets {chunkOffsets : List ℕ} {n : ℕ}
    (hmono : ∀ i < n, chunkOffsets.getD i 0 ≤ chunkOffsets.getD (i + 1) 0) {i i' : ℕ}
    (h : i ≤ i') (hi' : i' ≤ n) : chunkOffsets.getD i 0 ≤ chunkOffsets.getD i' 0 := by
  induction i' with
  | zero => rw [Nat.le_zero.mp h]
  | succ i' ih =>
      rcases eq_or_lt_of_le h with rfl | hlt
      · exact le_rfl
      · exact (ih (Nat.le_of_lt_succ hlt) (by omega)).trans (hmono i' (by omega))

/-- **The matrix of pivots** holds what the clustering made of every chunk, whatever it held
before. -/
theorem trainPivots_apply {cluster : List K → ℕ → ℕ → List K} {trainData : List K}
    {numTrain dim numCenters numPqChunks : ℕ} {chunkOffsets : List ℕ} {heap : Buffer K}
    (hmono : ∀ i < numPqChunks, chunkOffsets.getD i 0 ≤ chunkOffsets.getD (i + 1) 0)
    (hdim : ∀ i ≤ numPqChunks, chunkOffsets.getD i 0 ≤ dim) {i : ℕ} (hi : i < numPqChunks)
    {j d : ℕ} (hj : j < numCenters) (hlo : chunkOffsets.getD i 0 ≤ d)
    (hhi : d < chunkOffsets.getD (i + 1) 0) :
    trainPivots cluster trainData numTrain dim numCenters numPqChunks chunkOffsets heap
      (j * dim + d) = (cluster (curData trainData numTrain dim (chunkOffsets.getD i 0)
            (chunkOffsets.getD (i + 1) 0 - chunkOffsets.getD i 0)) numTrain
          (chunkOffsets.getD (i + 1) 0 - chunkOffsets.getD i 0)).getD
            (j * (chunkOffsets.getD (i + 1) 0 - chunkOffsets.getD i 0)
              + (d - chunkOffsets.getD i 0)) 0 := by
  induction numPqChunks with
  | zero => exact absurd hi (Nat.not_lt_zero i)
  | succ n ih =>
      have hd : d < dim := hhi.trans_le (hdim (i + 1) hi)
      have hlast := hdim (n + 1) le_rfl
      have hstep := hmono n (Nat.lt_succ_self n)
      rw [trainPivots, List.range_succ, List.foldl_append, ← trainPivots]
      simp only [List.foldl_cons, List.foldl_nil]
      rcases eq_or_lt_of_le (Nat.le_of_lt_succ hi) with rfl | hlt
      · rw [if_neg (by omega), copyCenters, Buffer.mapRows_apply (by omega) hd,
          if_pos ⟨hj, by omega, by omega⟩]
      · have hprev := ih (fun i hi => hmono i (by omega)) (fun i hi => hdim i (by omega)) hlt
        have hbefore : chunkOffsets.getD (i + 1) 0 ≤ chunkOffsets.getD n 0 :=
          monotone_chunkOffsets hmono hlt (Nat.le_succ n)
        split_ifs with hempty
        · exact hprev
        · rw [copyCenters, Buffer.mapRows_apply (by omega) hd, if_neg (by omega), hprev]

end Matrix

/-! ### The table that is built from the pivots -/

/-- The offsets of `n` chunks that cut `dim` coordinates. -/
structure Cuts (chunkOffsets : List ℕ) (n dim : ℕ) : Prop where
  first_eq : chunkOffsets.getD 0 0 = 0
  last_eq : chunkOffsets.getD n 0 = dim
  mono : ∀ chunk < n, chunkOffsets.getD chunk 0 ≤ chunkOffsets.getD (chunk + 1) 0

/-- Without bins no dimension finds one. -/
lemma dim_eq_zero_of_assignDims {dim : ℕ} {s : Binning} (h : assignDims dim 0 = some s) :
    dim = 0 := by
  cases dim with
  | zero => rfl
  | succ dim =>
      have hnone : assignDim (dim + 1) 0 (startBinning (dim + 1) 0) 0 = none := rfl
      rw [assignDims, List.range_succ_eq_map, List.foldlM_cons, hnone] at h
      cases h

/-- The chunks of `generate_pq_pivots` cut the dimensions. -/
lemma cuts_chunkOffsetsOf {dim n : ℕ} {s : Binning} (hle : n ≤ dim)
    (h : assignDims dim n = some s) :
    Cuts (chunkOffsetsOf dim n s.binToDims) n dim := by
  rcases Nat.eq_zero_or_pos n with rfl | hn
  · obtain rfl := dim_eq_zero_of_assignDims h
    exact ⟨rfl, rfl, fun chunk hc => absurd hc (Nat.not_lt_zero chunk)⟩
  · obtain ⟨b, s', hs', hinv⟩ := exists_assignDims hn hle
    obtain rfl := Option.some.inj (h.symm.trans hs')
    have hget : ∀ b ≤ n, (chunkOffsetsOf dim n s.binToDims).getD b 0 = chunkStart dim n b :=
      fun b hb => by
        rw [hinv.chunkOffsetsOf_eq hn, List.getD_eq_getElem?_getD, List.getElem?_map,
          List.getElem?_range (Nat.lt_succ_of_le hb)]
        rfl
    refine ⟨by rw [hget 0 (Nat.zero_le n), chunkStart_zero],
      by rw [hget n le_rfl, chunkStart_last hn], fun chunk hc => ?_⟩
    rw [hget chunk hc.le, hget (chunk + 1) hc]
    exact chunkStart_mono (Nat.le_succ chunk)

section Table

variable {K : Type*} [Field K] {cluster : List K → ℕ → ℕ → List K} {heap : Buffer K}
  {existing : Option (ℕ × ℕ)} {trainData : List K} {numTrain dim numCenters n : ℕ}
  {makeZeroMean : Bool} {compareMetric : Efanna2e.Metric} {p : Pivots K}

/-- The table with some pivots in it. -/
def Pivots.table (p : Pivots K) (h : Cuts p.chunkOffsets n dim) : FixedChunkPQTable K where
  tables := p.fullPivotData
  ndims := dim
  nChunks := n
  chunkOffsets := p.chunkOffsets
  centroid := p.centroid
  first_eq := h.first_eq
  last_eq := h.last_eq
  mono := h.mono

/-- The pivots come with chunks that cut the dimensions. -/
theorem cuts_generatePqPivots (h : generatePqPivots cluster heap existing trainData numTrain dim
    numCenters n makeZeroMean = some p) : Cuts p.chunkOffsets n dim := by
  rw [generatePqPivots] at h
  split_ifs at h with hlt
  obtain ⟨s, hs, rfl⟩ := Option.map_eq_some_iff.mp h
  exact cuts_chunkOffsetsOf (not_lt.mp hlt) hs

theorem cuts_generateQuantizedData (h : generateQuantizedData cluster heap existing trainData
    numTrain dim compareMetric n = some p) : Cuts p.chunkOffsets n dim :=
  cuts_generatePqPivots h

/-- The centroid of data that are not centered. -/
lemma centroid_generatePqPivots (h : generatePqPivots cluster heap existing trainData numTrain dim
    numCenters n false = some p) (j : ℕ) : p.centroid.getD j 0 = 0 := by
  rw [generatePqPivots] at h
  split_ifs at h
  obtain ⟨s, -, rfl⟩ := Option.map_eq_some_iff.mp h
  by_cases hj : j < dim
  · simp [centroidOf, List.getD_eq_getElem?_getD, hj]
  · simp [centroidOf, List.getD_eq_getElem?_getD, hj]

/-- **The index is built without centering**, whatever the metric. -/
theorem centroid_generateQuantizedData (h : generateQuantizedData cluster heap existing trainData
    numTrain dim compareMetric n = some p) (j : ℕ) : p.centroid.getD j 0 = 0 := by
  have hflag : (if compareMetric = .INNER_PRODUCT then false else false) = false := ite_self false
  rw [generateQuantizedData, hflag] at h
  exact centroid_generatePqPivots h j

end Table

end RedAnns
