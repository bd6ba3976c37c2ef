import RedAnns.Core.CheckedClustering
import RedAnns.Core.Compress

/-!
The training of the pivots on a random sample: `gen_random_slice` of `include/generate_subgraph.h`
and `generate_quantized_data` of `src/pq.cpp`, with the checks of `CheckedClustering.lean`.

The array of the pivots has the size that is allocated for it, or that of a matrix which a file is
there with already, and the arrays that are compressed with are those that a file has.

* `genRandomSlice`, `generatePqPivots`, `generatePqDataFromPivots`: the source, from the data file
  on.
* `Quantization`: what a call is given, the outcome of the random draws included.
* `genRandomSlice_spec`: the sample has the vectors whose draw is below `p_val`.
* `of_generatePqPivots`, `generatePqPivots_ok`: when the training returns, and with what.
* `generatePqDataFromPivots_iff`: when the compression returns.
* `Quantization.completes_iff`: when the whole call returns.
-/

namespace RedAnns.Checked

open Bytes

/-! ### The source -/

/-- `NUM_KMEANS_REPS_PQ`. -/
def numKmeansRepsPq : ℕ := 12

/-- A read of `n` bytes. -/
def readBytes (n : ℕ) (stream : List UInt8) : Except Stop (List UInt8 × List UInt8) :=
  match takeExact n stream with
  | some parts => .ok parts
  | none => .error .endOfFile

/-- The reader, and the vectors that were selected. -/
structure SliceState (K : Type) where
  rest : List UInt8
  sampledVectors : List (List K)

/-- What the clustering of a chunk depends on besides the data: the draws, the environments of the
iterations, and what the memory holds before. -/
structure ChunkEnv (K : Type) [Field K] [LinearOrder K] where
  seeds : Seeds K
  envs : ℕ → MathUtils.MathEnv K
  dist : Buffer K
  tmpPivot : ℕ

section Source

variable {α K : Type} [Inhabited α] [Field K] [LinearOrder K] (codec : Codec α) (toFloat : α → K)

/-- One round of the loop of `gen_random_slice`: the next vector, and whether it is selected. -/
def sliceRow (slice : ℕ → K) (pVal : K) (ndims : ℕ) (s : SliceState K) (i : ℕ) :
    Except Stop (SliceState K) := do
  let parts ← readBytes (codec.size * ndims) s.rest
  let curVectorT := codec.decodeAll ndims parts.1
  if slice i < pVal then return ⟨parts.2, s.sampledVectors ++ [curVectorT.map toFloat]⟩
  else return ⟨parts.2, s.sampledVectors⟩

/-- `gen_random_slice`: `slice` are the draws, and `heap` is what the allocation left in the
sample. -/
def genRandomSlice (heap : Buffer K) (slice : ℕ → K) (dataFile : List UInt8) (pVal : K) :
    Except Stop (Sample K) := do
  let npts32 ← readBytes 4 dataFile
  let ndims32 ← readBytes 4 npts32.2
  let npts := decodeNat npts32.1
  let ndims := decodeNat ndims32.1
  let pVal := if pVal < 1 then pVal else 1
  let s ← (List.range npts).foldlM (sliceRow codec toFloat slice pVal ndims) ⟨ndims32.2, []⟩
  let sliceSize := s.sampledVectors.length
  return {
    data := heap.mapRows sliceSize ndims ndims 0 fun i j _ => (s.sampledVectors.getD i []).getD j 0
    numPoints := sliceSize
    dim := ndims }

/-- `cur_data`: the rows of a chunk. -/
def curData (sample : Sample K) (lo curChunkSize : ℕ) : Except Stop (List K) :=
  (List.range sample.numPoints).foldlM (fun curData j => do
    let row ← sample.read (j * sample.dim + lo) curChunkSize
    return curData ++ row.take curChunkSize) []

/-- The clustering of a chunk, with at most `fuel` darts. -/
def cluster (env : ChunkEnv K) (fuel numCenters maxKMeansReps : ℕ) (curData : List K)
    (numTrain curChunkSize : ℕ) : Except Stop (List K) := do
  let sample : Sample K := ⟨fun a => curData.getD a 0, numTrain, curChunkSize⟩
  let curPivotData ← kmeansppSelectingPivots env.seeds sample (fun _ => 0) env.dist env.tmpPivot
    numCenters fuel
  let out ← runLloyds env.envs sample.data numTrain curChunkSize curPivotData numCenters
    maxKMeansReps none (some fun _ => 0)
  return out.2.centers.take (numCenters * curChunkSize)

/-- The loop over chunks of `generate_pq_pivots`; `capacity` is the size of `full_pivot_data`. -/
def trainPivots (chunks : ℕ → ChunkEnv K) (fuel : ℕ) (sample : Sample K)
    (numCenters numPqChunks maxKMeansReps : ℕ) (chunkOffsets : List ℕ) (capacity : ℕ)
    (fullPivotData : Buffer K) : Except Stop (Buffer K) :=
  (List.range numPqChunks).foldlM (fun m i => do
    inside i 2 chunkOffsets.length
    let lo := chunkOffsets.getD i 0
    let curChunkSize := chunkOffsets.getD (i + 1) 0 - lo
    if curChunkSize = 0 then return m
    else
      let curData ← curData sample lo curChunkSize
      let curPivotData ← cluster (chunks i) fuel numCenters maxKMeansReps curData sample.numPoints
        curChunkSize
      (List.range numCenters).forM fun j => inside (j * sample.dim + lo) curChunkSize capacity
      return copyCenters m curPivotData numCenters sample.dim lo curChunkSize) fullPivotData

/-- The counts of the matrix that `load_bin` finds in a file of pivots, if there is one. -/
def pivotShape : Option File → Except Stop (Option (ℕ × ℕ))
  | none => .ok none
  | some file =>
      match (file.read metadataSize.toNat 4).bind fun npts =>
        (file.read (metadataSize.toNat + 4) 4).map fun dim => (decodeNat npts, decodeNat dim) with
      | some shape => .ok (some shape)
      | none => .error .unreadable

/-- The size of `full_pivot_data`: a product of 32 bits, unless `load_bin` has put the matrix of a
file in its place. -/
def capacityOf (numCenters dim : ℕ) : Option (ℕ × ℕ) → ℕ
  | none => numCenters * dim % 2 ^ 32
  | some (npts, ndims) => npts * ndims

/-- The loop over dimensions, which needs a bin. -/
def binning (dim numPqChunks : ℕ) : Except Stop Binning :=
  if numPqChunks = 0 then .error .noBin
  else
    match assignDims dim numPqChunks with
    | some s => .ok s
    | none => .error .noBin

/-- What the readers find in the file that is written: its counts have 32 bits. -/
def reload (p : Pivots K) : Pivots K :=
  { p with chunkOffsets := p.chunkOffsets.take (p.chunkOffsets.length % 2 ^ 32) }

/-- `generate_pq_pivots`, as the file that it writes is read again; `none` where it returns without
pivots. -/
def generatePqPivots (chunks : ℕ → ChunkEnv K) (fuel : ℕ) (heap : Buffer K)
    (existing : Option File) (passedTrainData : Sample K)
    (numCenters numPqChunks maxKMeansReps : ℕ) (makeZeroMean : Bool) :
    Except Stop (Option (Pivots K)) :=
  let numTrain := passedTrainData.numPoints
  let dim := passedTrainData.dim
  if dim < numPqChunks then return none
  else do
    let passed ← passedTrainData.read 0 (numTrain * dim)
    let trainData := passed.take (numTrain * dim)
    let shape ← pivotShape existing
    if shape = some (numCenters, dim) then return none
    else
      let capacity := capacityOf numCenters dim shape
      let centroid := centroidOf trainData numTrain dim makeZeroMean
      let trainData := centerTrainData trainData centroid dim makeZeroMean
      let s ← binning dim numPqChunks
      let chunkOffsets := chunkOffsetsOf dim numPqChunks s.binToDims
      let m ← trainPivots chunks fuel ⟨fun a => trainData.getD a 0, numTrain, dim⟩ numCenters
        numPqChunks maxKMeansReps chunkOffsets capacity heap
      -- `save_bin_stream` reads the matrix
      inside 0 (numCenters * dim) capacity
      return some (reload ⟨m.take (numCenters * dim), centroid, chunkOffsets⟩)

/-- `DIV_ROUND_UP`. -/
def divRoundUp (x y : ℕ) : Except Stop ℕ := do
  let quot ← divide x y
  let rest ← remainder x y
  return quot + if rest = 0 then 0 else 1

/-- `cur_chunk_size`, a difference of 32 bits. -/
def chunkSize (chunkOffsets : List ℕ) (i : ℕ) : ℕ :=
  (UInt32.ofNat (chunkOffsets.getD (i + 1) 0) - UInt32.ofNat (chunkOffsets.getD i 0)).toNat

/-- What a chunk of a block of `curBlkSize` points accesses. -/
def checkChunk (job : Compression α K) (curBlkSize i : ℕ) : Except Stop Unit := do
  inside i 2 job.chunkOffsets.length
  let curChunkSize := chunkSize job.chunkOffsets i
  if curChunkSize = 0 then return ()
  else
    (List.range curBlkSize).forM fun j =>
      inside (j * job.dim + job.lo i) curChunkSize (job.blockSize * job.dim)
    (List.range job.numCenters).forM fun j =>
      inside (j * job.dim + job.lo i) curChunkSize job.fullPivotData.length
    let _ ← blocksOf curBlkSize

/-- A block of `generate_pq_data_from_pivots`: every point is centered, and the block is searched
once for every chunk with coordinates. -/
def compressBlock (job : Compression α K) (s : BlockState α K) (block : ℕ) :
    Except Stop (BlockState α K) := do
  let curBlkSize := min ((block + 1) * job.blockSize) job.numPoints - block * job.blockSize
  (List.range curBlkSize).forM fun _ => inside 0 job.dim job.centroid.length
  (List.range job.numPqChunks).forM (checkChunk job curBlkSize)
  match job.compressBlock s block with
  | some s' => return s'
  | none => .error .endOfFile

/-- `generate_pq_data_from_pivots`, given the pivots that it loads. -/
def generatePqDataFromPivots (blas : Blas K) (heap : ℕ → ℕ → Heap K) (maxBlockSize : ℕ)
    (dataFile : List UInt8) (numCenters : ℕ) (numPqChunks : UInt32) (pivots : Option (Pivots K)) :
    Except Stop (List UInt8) := do
  let npts32 ← readBytes 4 dataFile
  let basedim32 ← readBytes 4 npts32.2
  let numPoints := decodeNat npts32.1
  match pivots with
  | none => .error .noPivots
  | some pivots =>
      let job : Compression α K :=
        { blas, codec, toFloat, heap, numPoints
          dim := decodeNat basedim32.1
          numCenters
          numPqChunks := numPqChunks.toNat
          blockSize := if numPoints ≤ maxBlockSize then numPoints else maxBlockSize
          fullPivotData := pivots.fullPivotData
          centroid := pivots.centroid
          chunkOffsets := pivots.chunkOffsets }
      let numBlocks ← divRoundUp numPoints job.blockSize
      let s ← (List.range numBlocks).foldlM (compressBlock job)
        ⟨basedim32.2, fun _ => default, fun _ => 0, fun _ => 0, fun _ => 0, []⟩
      return encodeNat 4 numPoints ++ encodeWord numPqChunks ++ s.written

end Source

/-- What a call of `generate_quantized_data` is given: the data file, `p_val`, the number of chunks,
the draws, a file of pivots that is there before, and everything that the memory and the libraries
decide. -/
structure Quantization {α : Type} (codec : Codec α) (K : Type) [Field K] [LinearOrder K] where
  dataFile : DataFile codec
  toFloat : α → K
  val : UInt32 → K
  pVal : K
  numPqChunks : UInt32
  compareMetric : Efanna2e.Metric
  slice : ℕ → K
  chunks : ℕ → ChunkEnv K
  existing : Option File
  sliceHeap : Buffer K
  pivotsHeap : Buffer K
  blas : Blas K
  heap : ℕ → ℕ → Heap K
  maxBlockSize : ℕ
  maxBlockSize_pos : 0 < maxBlockSize

/-- **Arrays that the compression stays inside of**: the centroid has a coordinate for every
dimension, there are offsets for all chunks, and a chunk with coordinates ends with the dimensions
and with the rows of the pivots. -/
structure Fits {K : Type} (dim numCenters numPqChunks : ℕ) (p : Pivots K) : Prop where
  centroid : dim ≤ p.centroid.length
  offsets : ∀ i < numPqChunks, i + 2 ≤ p.chunkOffsets.length
  dims : ∀ i < numPqChunks, chunkSize p.chunkOffsets i ≠ 0 →
    p.chunkOffsets.getD i 0 + chunkSize p.chunkOffsets i ≤ dim
  pivots : ∀ i < numPqChunks, chunkSize p.chunkOffsets i ≠ 0 → ∀ j < numCenters,
    j * dim + p.chunkOffsets.getD i 0 + chunkSize p.chunkOffsets i ≤ p.fullPivotData.length

namespace Quantization

variable {α K : Type} [Inhabited α] [Field K] [LinearOrder K] {codec : Codec α}
  (q : Quantization codec K)

/-- The arrays that are read from the file that is there before, if it has a directory of three
offsets and everything that is announced there. -/
def existingPivots : Option (Pivots K) := do
  let file ← q.existing
  let fileOffsetData ← loadBin Codec.uint64 file 0
  if fileOffsetData.1.length < 3 then none
  else
    let arrays ← loadPivots file
    return ⟨arrays.1.map q.val, arrays.2.1.map q.val, arrays.2.2.map UInt32.toNat⟩

/-- `generate_quantized_data`. The pivots that are compressed with are those of the file, which the
training has written if it returns pivots. -/
def generateQuantizedData (fuel : ℕ) : Except Stop (List UInt8) := do
  let trainData ← genRandomSlice codec q.toFloat q.sliceHeap q.slice q.dataFile.bytes q.pVal
  let makeZeroMean := false
  let makeZeroMean := if q.compareMetric = .INNER_PRODUCT then false else makeZeroMean
  let trained ← generatePqPivots q.chunks fuel q.pivotsHeap q.existing trainData numPqCentroids
    q.numPqChunks.toNat numKmeansRepsPq makeZeroMean
  generatePqDataFromPivots codec q.toFloat q.blas q.heap q.maxBlockSize q.dataFile.bytes
    numPqCentroids q.numPqChunks (trained.or q.existingPivots)

/-- **The call returns**, without a division by zero or an index outside of an array. -/
def Completes : Prop := ∃ fuel out, q.generateQuantizedData fuel = .ok out

/-- A vector is selected. -/
def Selects : Prop :=
  ∃ i < q.dataFile.npts.toNat, q.slice i < if q.pVal < 1 then q.pVal else 1

/-- No pivots are trained: there are more chunks than dimensions, or a file has a matrix of the
right shape. -/
def KeepsFile : Prop :=
  q.dataFile.dim < q.numPqChunks ∨
    pivotShape q.existing = .ok (some (numPqCentroids, q.dataFile.dim.toNat))

/-- The arrays of the file that is there fit. -/
def FileFits : Prop :=
  ∃ p, q.existingPivots = some p ∧
    Fits q.dataFile.dim.toNat numPqCentroids q.numPqChunks.toNat p

/-- There is a chunk, the offsets can be counted in 32 bits, and the array of the pivots is large
enough, the one that is allocated or the one of a file of another shape. -/
structure Trainable : Prop where
  chunks_pos : 0 < q.numPqChunks.toNat
  offsets : q.numPqChunks.toNat + 1 < 2 ^ 32
  roomy : ∃ shape, pivotShape q.existing = .ok shape ∧
    numPqCentroids * q.dataFile.dim.toNat ≤ capacityOf numPqCentroids q.dataFile.dim.toNat shape

end Quantization

/-! ### The sample -/

lemma readBytes_of_length {as : List UInt8} {n : ℕ} (h : as.length = n) (bs : List UInt8) :
    readBytes n (as ++ bs) = .ok (as, bs) := by
  rw [readBytes, takeExact_of_length h]

lemma readBytes_of_le {bs : List UInt8} {n : ℕ} (h : n ≤ bs.length) :
    readBytes n bs = .ok (bs.take n, bs.drop n) := by
  rw [readBytes, takeExact, if_pos h]

section Slice

variable {α K : Type} {codec : Codec α}

/-- The header of a data file, and what stands behind it. -/
lemma readBytes_header (d : DataFile codec) :
    readBytes 4 d.bytes = .ok (encodeWord d.npts, encodeWord d.dim ++ d.body) ∧
      readBytes 4 (encodeWord d.dim ++ d.body) = .ok (encodeWord d.dim, d.body) := by
  refine ⟨?_, readBytes_of_length (length_encodeWord _) _⟩
  rw [DataFile.bytes, List.append_assoc]
  exact readBytes_of_length (length_encodeWord _) _

variable [LinearOrder K]

/-- The loop over the vectors reads one after another and keeps the selected ones. -/
lemma foldlM_sliceRow (toFloat : α → K) (slice : ℕ → K) (pVal : K) (ndims : ℕ) {body : List UInt8}
    {npts : ℕ} (hbody : npts * ndims * codec.size ≤ body.length) :
    ∃ s, (List.range npts).foldlM (sliceRow codec toFloat slice pVal ndims) ⟨body, []⟩ = .ok s ∧
      s.rest = body.drop (npts * ndims * codec.size) ∧
      s.sampledVectors.length = ((List.range npts).filter fun i => slice i < pVal).length := by
  refine foldlM_range (I := fun k (s : SliceState K) =>
    s.rest = body.drop (k * ndims * codec.size) ∧
    s.sampledVectors.length = ((List.range k).filter fun i => slice i < pVal).length) ?_ ?_
  · rintro k hk s ⟨hrest, hlen⟩
    have hrow : (k + 1) * ndims * codec.size ≤ npts * ndims * codec.size :=
      Nat.mul_le_mul_right _ (Nat.mul_le_mul_right _ hk)
    rw [Nat.succ_mul, Nat.add_mul] at hrow
    have hbytes : codec.size * ndims ≤ s.rest.length := by
      rw [hrest, List.length_drop, Nat.mul_comm]
      omega
    have hdrop : s.rest.drop (codec.size * ndims) = body.drop ((k + 1) * ndims * codec.size) := by
      rw [hrest, List.drop_drop, Nat.succ_mul, Nat.add_mul, Nat.mul_comm codec.size]
    rw [sliceRow, readBytes_of_le hbytes, ok_bind, List.range_succ, List.filter_append,
      List.length_append]
    by_cases hsel : slice k < pVal
    · rw [if_pos hsel, List.filter_cons_of_pos (by simpa using hsel)]
      refine ⟨_, rfl, hdrop, ?_⟩
      rw [List.length_append, hlen]
      rfl
    · rw [if_neg hsel, List.filter_cons_of_neg (by simpa using hsel)]
      exact ⟨_, rfl, hdrop, hlen⟩
  · rw [Nat.zero_mul, Nat.zero_mul, List.drop_zero]
    exact ⟨rfl, rfl⟩

/-- **The sample** has a row for every vector whose draw is below `p_val`. -/
theorem genRandomSlice_spec [Inhabited α] [Field K] (toFloat : α → K) (heap : Buffer K)
    (slice : ℕ → K) (d : DataFile codec) (pVal : K) : ∃ sample,
      genRandomSlice codec toFloat heap slice d.bytes pVal = .ok sample ∧
      sample.dim = d.dim.toNat ∧ sample.numPoints = ((List.range d.npts.toNat).filter fun i =>
        slice i < if pVal < 1 then pVal else 1).length := by
  obtain ⟨hnpts, hdims⟩ := readBytes_header d
  obtain ⟨s, hrun, -, hlen⟩ := foldlM_sliceRow toFloat slice (if pVal < 1 then pVal else 1)
    d.dim.toNat d.complete
  rw [genRandomSlice, hnpts, ok_bind, hdims, ok_bind]
  dsimp only
  rw [decodeNat_encodeWord', decodeNat_encodeWord', hrun, ok_bind]
  exact ⟨_, rfl, rfl, hlen⟩

end Slice

/-! ### The training -/

section Training

variable {K : Type} [Field K] [LinearOrder K] {chunks : ℕ → ChunkEnv K} {sample : Sample K}
  {numCenters numPqChunks : ℕ}

omit [Field K] [LinearOrder K] in
/-- The rows of a chunk lie in the sample. -/
lemma curData_ok {lo curChunkSize : ℕ} (hchunk : lo + curChunkSize ≤ sample.dim) :
    ∃ rows, curData sample lo curChunkSize = .ok rows := by
  refine ⟨_, foldlM_eq_foldl_of_inv (P := fun _ => True) (g := fun rows j => rows ++
    (sample.data.view (j * sample.dim + lo)).take curChunkSize)
      (fun j hj s _ => ⟨?_, trivial⟩) trivial⟩
  have hrow : (j + 1) * sample.dim ≤ sample.numPoints * sample.dim :=
    Nat.mul_le_mul_right _ (List.mem_range.mp hj)
  rw [Nat.succ_mul] at hrow
  rw [Sample.read, if_pos (by omega), ok_bind]
  rfl

/-- **The clustering of a chunk returns** if there are points. -/
lemma cluster_ok [IsStrictOrderedRing K] (env : ChunkEnv K) (rows : List K) {numTrain : ℕ}
    (curChunkSize maxKMeansReps : ℕ) (hn : 0 < numTrain) (h64 : numTrain < 2 ^ 64)
    (hcenters : 0 < numCenters) :
    ∃ pivots, cluster env numCenters numCenters maxKMeansReps rows numTrain curChunkSize
      = .ok pivots := by
  set points : Sample K := ⟨fun a => rows.getD a 0, numTrain, curChunkSize⟩ with hpoints
  obtain ⟨first, hfirst⟩ : ∃ first, kmeansppSelectingPivots env.seeds points (fun _ => 0) env.dist
      env.tmpPivot numCenters numCenters = .ok first := kmeanspp_ok env.seeds hn h64 ..
  obtain ⟨out, -, hrun⟩ : ∃ out, Kmeans.runLloyds env.envs points.data numTrain curChunkSize first
        numCenters maxKMeansReps none (some fun _ => 0) = .ok out ∧
      runLloyds env.envs points.data numTrain curChunkSize first numCenters maxKMeansReps none
        (some fun _ => 0) = .ok out :=
    runLloyds_eq env.envs points.data hn hcenters first maxKMeansReps ..
  rw [cluster, ← hpoints, hfirst, ok_bind, hrun]
  exact ⟨_, rfl⟩

/-- Without points the first access to a chunk with coordinates fails. -/
lemma cluster_of_empty (env : ChunkEnv K) (fuel maxKMeansReps : ℕ) (rows : List K)
    {curChunkSize : ℕ}
    (hsize : 0 < curChunkSize) : cluster env fuel numCenters maxKMeansReps rows 0 curChunkSize
      = .error .outsideSample := by
  rw [cluster, kmeanspp_of_empty env.seeds rfl hsize]
  rfl

variable (sample) in
/-- The training of all chunks returns if there are points, and room for their rows. -/
lemma trainPivots_ok [IsStrictOrderedRing K] (chunks : ℕ → ChunkEnv K) (maxKMeansReps : ℕ)
    {chunkOffsets : List ℕ} {capacity : ℕ} (hcuts : Cuts chunkOffsets numPqChunks sample.dim)
    (hlen : chunkOffsets.length = numPqChunks + 1) (hroom : numCenters * sample.dim ≤ capacity)
    (hn : 0 < sample.numPoints) (h64 : sample.numPoints < 2 ^ 64) (hcenters : 0 < numCenters)
    (m : Buffer K) : ∃ m', trainPivots chunks numCenters sample numCenters numPqChunks
      maxKMeansReps chunkOffsets capacity m = .ok m' := by
  obtain ⟨m', hm', -⟩ : ∃ m', trainPivots chunks numCenters sample numCenters numPqChunks
      maxKMeansReps chunkOffsets capacity m = .ok m' ∧ True := by
    refine foldlM_range (I := fun _ _ => True) (fun k hk m _ => ?_) trivial
    have hlast : chunkOffsets.getD (k + 1) 0 ≤ sample.dim :=
      (monotone_chunkOffsets hcuts.mono hk le_rfl).trans hcuts.last_eq.le
    have hmono := hcuts.mono k hk
    have hinside : inside k 2 chunkOffsets.length = .ok () := inside_eq_ok_iff.mpr (by omega)
    dsimp only
    rw [hinside, ok_bind]
    by_cases hsize : chunkOffsets.getD (k + 1) 0 - chunkOffsets.getD k 0 = 0
    · rw [if_pos hsize]
      exact ⟨m, rfl, trivial⟩
    · obtain ⟨rows, hrows⟩ : ∃ rows, curData sample (chunkOffsets.getD k 0)
          (chunkOffsets.getD (k + 1) 0 - chunkOffsets.getD k 0) = .ok rows :=
        curData_ok (by omega)
      obtain ⟨pivots, hpivots⟩ := cluster_ok (chunks k) rows
        (chunkOffsets.getD (k + 1) 0 - chunkOffsets.getD k 0) maxKMeansReps hn h64 hcenters
      have hcopies : (List.range numCenters).forM (fun j => inside
          (j * sample.dim + chunkOffsets.getD k 0)
          (chunkOffsets.getD (k + 1) 0 - chunkOffsets.getD k 0) capacity) = .ok () := by
        refine forM_ok fun j hj => inside_eq_ok_iff.mpr ?_
        have hrow : (j + 1) * sample.dim ≤ numCenters * sample.dim :=
          Nat.mul_le_mul_right _ (List.mem_range.mp hj)
        rw [Nat.succ_mul] at hrow
        omega
      rw [if_neg hsize, hrows, ok_bind, hpivots, ok_bind, hcopies]
      exact ⟨_, rfl, trivial⟩
  exact ⟨m', hm'⟩

/-- The offsets of the chunks, one more than there are chunks. -/
lemma chunkOffsetsOf_eq {dim n : ℕ} {s : Binning} (hn : 0 < n) (hle : n ≤ dim)
    (h : assignDims dim n = some s) :
    chunkOffsetsOf dim n s.binToDims = (List.range (n + 1)).map (chunkStart dim n) := by
  obtain ⟨b, s', hs', hinv⟩ := exists_assignDims hn hle
  obtain rfl := Option.some.inj (h.symm.trans hs')
  exact hinv.chunkOffsetsOf_eq hn

lemma length_chunkOffsetsOf {dim n : ℕ} {s : Binning} (hn : 0 < n) (hle : n ≤ dim)
    (h : assignDims dim n = some s) : (chunkOffsetsOf dim n s.binToDims).length = n + 1 := by
  rw [chunkOffsetsOf_eq hn hle h, List.length_map, List.length_range]

/-- The first chunk has coordinates. -/
lemma first_chunk_pos {dim n : ℕ} {s : Binning} (hn : 0 < n) (hle : n ≤ dim)
    (h : assignDims dim n = some s) : 0 < (chunkOffsetsOf dim n s.binToDims).getD (0 + 1) 0
      - (chunkOffsetsOf dim n s.binToDims).getD 0 0 := by
  have hget : ∀ b ≤ n, (chunkOffsetsOf dim n s.binToDims).getD b 0 = chunkStart dim n b :=
    fun b hb => by
      rw [chunkOffsetsOf_eq hn hle h, List.getD_eq_getElem?_getD, List.getElem?_map,
        List.getElem?_range (Nat.lt_succ_of_le hb)]
      rfl
  rw [hget _ hn, hget 0 (Nat.zero_le n), size_chunk]
  have := Nat.div_pos hle hn
  omega

variable (sample) in
/-- Without points the training leaves the sample at once. -/
lemma trainPivots_of_empty (chunks : ℕ → ChunkEnv K) (fuel maxKMeansReps : ℕ)
    {chunkOffsets : List ℕ} (hempty : sample.numPoints = 0) (hchunks : 0 < numPqChunks)
    (hlen : chunkOffsets.length = numPqChunks + 1)
    (hsize : 0 < chunkOffsets.getD (0 + 1) 0 - chunkOffsets.getD 0 0) (capacity : ℕ)
    (m : Buffer K) :
    trainPivots chunks fuel sample numCenters numPqChunks maxKMeansReps chunkOffsets capacity m
      = .error .outsideSample := by
  obtain ⟨n, rfl⟩ := Nat.exists_eq_succ_of_ne_zero hchunks.ne'
  have hrows : curData sample (chunkOffsets.getD 0 0)
      (chunkOffsets.getD (0 + 1) 0 - chunkOffsets.getD 0 0) = .ok [] := by
    rw [curData, hempty]
    rfl
  have hinside : inside 0 2 chunkOffsets.length = .ok () := inside_eq_ok_iff.mpr (by omega)
  rw [trainPivots, List.range_succ_eq_map, List.foldlM_cons]
  dsimp only
  rw [hinside, ok_bind, if_neg hsize.ne', hrows, ok_bind, hempty, cluster_of_empty _ _ _ _ hsize]
  rfl

lemma binning_of_pos {dim n : ℕ} (hn : 0 < n) (hle : n ≤ dim) :
    ∃ s, assignDims dim n = some s ∧ binning dim n = .ok s := by
  obtain ⟨b, s, hs, -⟩ := exists_assignDims hn hle
  refine ⟨s, hs, ?_⟩
  rw [binning, if_neg hn.ne', hs]

variable {heap : Buffer K} {existing : Option File} {maxKMeansReps : ℕ} {makeZeroMean : Bool}
  {shape : Option (ℕ × ℕ)}

variable (sample) in
/-- A training that goes on to the chunks. -/
lemma generatePqPivots_eq (chunks : ℕ → ChunkEnv K) (fuel : ℕ) (heap : Buffer K)
    (maxKMeansReps : ℕ) (makeZeroMean : Bool) (hle : numPqChunks ≤ sample.dim)
    (hshape : pivotShape existing = .ok shape) (hother : shape ≠ some (numCenters, sample.dim)) :
    ∃ data centroid, centroid.length = sample.dim ∧
      generatePqPivots chunks fuel heap existing sample numCenters numPqChunks maxKMeansReps
          makeZeroMean
        = binning sample.dim numPqChunks >>= fun s =>
          trainPivots chunks fuel ⟨data, sample.numPoints, sample.dim⟩ numCenters numPqChunks
              maxKMeansReps (chunkOffsetsOf sample.dim numPqChunks s.binToDims)
              (capacityOf numCenters sample.dim shape) heap >>= fun m =>
            inside 0 (numCenters * sample.dim) (capacityOf numCenters sample.dim shape) >>=
              fun _ => .ok (some (reload ⟨m.take (numCenters * sample.dim), centroid,
                chunkOffsetsOf sample.dim numPqChunks s.binToDims⟩)) := by
  set trainData := (sample.data.view 0).take (sample.numPoints * sample.dim) with htrain
  set centroid := centroidOf trainData sample.numPoints sample.dim makeZeroMean with hcentroid
  refine ⟨fun a => (centerTrainData trainData centroid sample.dim makeZeroMean).getD a 0, centroid,
    ?_, ?_⟩
  · rw [hcentroid, centroidOf, List.length_map, List.length_range]
  · rw [generatePqPivots]
    dsimp only
    rw [if_neg (not_lt.mpr hle), Sample.read, if_pos (Nat.zero_add _).le, ok_bind, hshape, ok_bind,
      if_neg hother, ← htrain, ← hcentroid]
    rfl

/-- **The training returns pivots** if there are points, a chunk, and room for the matrix. -/
theorem generatePqPivots_ok [IsStrictOrderedRing K] (chunks : ℕ → ChunkEnv K) (heap : Buffer K)
    (maxKMeansReps : ℕ) (makeZeroMean : Bool) (hchunks : 0 < numPqChunks)
    (hle : numPqChunks ≤ sample.dim) (hshape : pivotShape existing = .ok shape)
    (hother : shape ≠ some (numCenters, sample.dim))
    (hroom : numCenters * sample.dim ≤ capacityOf numCenters sample.dim shape)
    (hn : 0 < sample.numPoints) (h64 : sample.numPoints < 2 ^ 64) (hcenters : 0 < numCenters) :
    ∃ p : Pivots K, generatePqPivots chunks numCenters heap existing sample numCenters numPqChunks
        maxKMeansReps makeZeroMean = .ok (some (reload p)) ∧
      p.fullPivotData.length = numCenters * sample.dim ∧ p.centroid.length = sample.dim ∧
      p.chunkOffsets.length = numPqChunks + 1 ∧ Cuts p.chunkOffsets numPqChunks sample.dim := by
  obtain ⟨data, centroid, hcentroid, heq⟩ := generatePqPivots_eq sample chunks
    numCenters heap maxKMeansReps makeZeroMean hle hshape hother
  obtain ⟨s, hs, hbins⟩ := binning_of_pos hchunks hle
  have hlen := length_chunkOffsetsOf hchunks hle hs
  obtain ⟨m, hm⟩ := trainPivots_ok ⟨data, sample.numPoints, sample.dim⟩ chunks maxKMeansReps
    (cuts_chunkOffsetsOf hle hs) hlen hroom hn h64 hcenters heap
  have hsave : inside 0 (numCenters * sample.dim) (capacityOf numCenters sample.dim shape)
      = .ok () := inside_eq_ok_iff.mpr (by rwa [Nat.zero_add])
  refine ⟨⟨m.take (numCenters * sample.dim), centroid,
    chunkOffsetsOf sample.dim numPqChunks s.binToDims⟩, ?_, Buffer.length_take _ _, hcentroid, hlen,
    cuts_chunkOffsetsOf hle hs⟩
  rw [heq, hbins, ok_bind, hm, ok_bind, hsave]
  rfl

/-- **Without points the training leaves the sample**, whatever the draws. -/
theorem generatePqPivots_of_empty (chunks : ℕ → ChunkEnv K) (fuel : ℕ) (heap : Buffer K)
    (maxKMeansReps : ℕ) (makeZeroMean : Bool) (hchunks : 0 < numPqChunks)
    (hle : numPqChunks ≤ sample.dim) (hshape : pivotShape existing = .ok shape)
    (hother : shape ≠ some (numCenters, sample.dim)) (hempty : sample.numPoints = 0) :
    generatePqPivots chunks fuel heap existing sample numCenters numPqChunks maxKMeansReps
        makeZeroMean = .error .outsideSample := by
  obtain ⟨data, centroid, -, heq⟩ := generatePqPivots_eq sample chunks fuel heap
    maxKMeansReps makeZeroMean hle hshape hother
  obtain ⟨s, hs, hbins⟩ := binning_of_pos hchunks hle
  have hlen := length_chunkOffsetsOf hchunks hle hs
  rw [heq, hbins, ok_bind, trainPivots_of_empty ⟨data, sample.numPoints, sample.dim⟩ chunks fuel
    maxKMeansReps hempty hchunks hlen (first_chunk_pos hchunks hle hs)]
  rfl

/-- **A training that has returned**: without pivots, since it was not to train, or with those of
points, bins and an array that is large enough. -/
theorem of_generatePqPivots {fuel : ℕ} {trained : Option (Pivots K)}
    (h : generatePqPivots chunks fuel heap existing sample numCenters numPqChunks maxKMeansReps
      makeZeroMean = .ok trained) :
    (trained = none ∧ (sample.dim < numPqChunks ∨
        pivotShape existing = .ok (some (numCenters, sample.dim)))) ∨
      ∃ p shape, trained = some (reload p) ∧ p.chunkOffsets.length = numPqChunks + 1 ∧
        0 < numPqChunks ∧ numPqChunks ≤ sample.dim ∧ pivotShape existing = .ok shape ∧
        shape ≠ some (numCenters, sample.dim) ∧
        numCenters * sample.dim ≤ capacityOf numCenters sample.dim shape ∧
        0 < sample.numPoints := by
  by_cases hmore : sample.dim < numPqChunks
  · rw [generatePqPivots, if_pos hmore] at h
    exact Or.inl ⟨(Except.ok.inj h).symm, Or.inl hmore⟩
  have hle := not_lt.mp hmore
  cases hshape : pivotShape existing with
  | error stop =>
      rw [generatePqPivots, if_neg hmore, Sample.read, if_pos (Nat.zero_add _).le, ok_bind,
        hshape] at h
      exact absurd h (by rintro ⟨⟩)
  | ok shape =>
      by_cases hsame : shape = some (numCenters, sample.dim)
      · rw [generatePqPivots, if_neg hmore, Sample.read, if_pos (Nat.zero_add _).le, ok_bind,
          hshape, ok_bind, if_pos hsame] at h
        exact Or.inl ⟨(Except.ok.inj h).symm, Or.inr (by rw [hsame])⟩
      · have hpos : 0 < numPqChunks := by
          by_contra hzero
          obtain ⟨data, centroid, -, heq⟩ := generatePqPivots_eq sample chunks fuel heap
            maxKMeansReps makeZeroMean hle hshape hsame
          rw [heq, binning, if_pos (Nat.eq_zero_of_not_pos hzero)] at h
          exact absurd h (by rintro ⟨⟩)
        have hpoints : 0 < sample.numPoints := by
          by_contra hzero
          rw [generatePqPivots_of_empty chunks fuel heap maxKMeansReps makeZeroMean hpos hle hshape
            hsame (Nat.eq_zero_of_not_pos hzero)] at h
          exact absurd h (by rintro ⟨⟩)
        obtain ⟨data, centroid, -, heq⟩ := generatePqPivots_eq sample chunks fuel heap
          maxKMeansReps makeZeroMean hle hshape hsame
        obtain ⟨s, hs, hbins⟩ := binning_of_pos hpos hle
        rw [heq, hbins, ok_bind] at h
        obtain ⟨m, -, h⟩ := bind_eq_ok.mp h
        obtain ⟨⟨⟩, hsave, h⟩ := bind_eq_ok.mp h
        rw [inside_eq_ok_iff, Nat.zero_add] at hsave
        exact Or.inr ⟨_, shape, (Except.ok.inj h).symm, length_chunkOffsetsOf hpos hle hs, hpos,
          hle, rfl, hsame, hsave, hpoints⟩

end Training

/-! ### The compression -/

section Compression

variable {α K : Type} [Inhabited α] [Field K] [LinearOrder K] {job : Compression α K}
  {body : List UInt8} {s : BlockState α K} {block : ℕ}

lemma divRoundUp_eq {x y : ℕ} (hy : 0 < y) : divRoundUp x y = .ok (RedAnns.divRoundUp x y) := by
  rw [divRoundUp, divide_of_pos hy, ok_bind, remainder_of_pos hy, ok_bind]
  rfl

omit [Inhabited α] [LinearOrder K] in
/-- What a chunk accesses is inside of the arrays. -/
lemma checkChunk_eq_ok_iff {cur i : ℕ} (hcur : 0 < cur) : checkChunk job cur i = .ok () ↔
    i + 2 ≤ job.chunkOffsets.length ∧ (chunkSize job.chunkOffsets i ≠ 0 →
      (∀ j < cur, j * job.dim + job.lo i + chunkSize job.chunkOffsets i
        ≤ job.blockSize * job.dim) ∧
      ∀ j < job.numCenters, j * job.dim + job.lo i + chunkSize job.chunkOffsets i
        ≤ job.fullPivotData.length) := by
  have hblocks : (do let _ ← blocksOf cur) = (.ok () : Except Stop Unit) := by
    rw [blocksOf_eq hcur]
    rfl
  rw [checkChunk, bind_eq_ok]
  dsimp only
  by_cases hsize : chunkSize job.chunkOffsets i = 0
  · rw [if_pos hsize]
    exact ⟨fun ⟨_, h, _⟩ => ⟨inside_eq_ok_iff.mp h, fun hne => absurd hsize hne⟩,
      fun h => ⟨(), inside_eq_ok_iff.mpr h.1, rfl⟩⟩
  · rw [if_neg hsize]
    constructor
    · rintro ⟨⟨⟩, hoffsets, h⟩
      obtain ⟨⟨⟩, hpoints, h⟩ := bind_eq_ok.mp h
      obtain ⟨⟨⟩, hcenters, -⟩ := bind_eq_ok.mp h
      refine ⟨inside_eq_ok_iff.mp hoffsets, fun _ => ⟨fun j hj => ?_, fun j hj => ?_⟩⟩
      · exact inside_eq_ok_iff.mp (forM_eq_ok_iff.mp hpoints j (List.mem_range.mpr hj))
      · exact inside_eq_ok_iff.mp (forM_eq_ok_iff.mp hcenters j (List.mem_range.mpr hj))
    · rintro ⟨hoffsets, h⟩
      obtain ⟨hpoints, hcenters⟩ := h hsize
      refine ⟨(), inside_eq_ok_iff.mpr hoffsets, ?_⟩
      rw [forM_ok fun j hj => inside_eq_ok_iff.mpr (hpoints j (List.mem_range.mp hj)), ok_bind,
        forM_ok fun j hj => inside_eq_ok_iff.mpr (hcenters j (List.mem_range.mp hj)), ok_bind]
      exact hblocks

/-- The arrays of a job. -/
abbrev pivotsOf (job : Compression α K) : Pivots K :=
  ⟨job.fullPivotData, job.centroid, job.chunkOffsets⟩

omit [Inhabited α] [LinearOrder K] in
/-- Arrays that fit are large enough for every block. -/
lemma Fits.checks (h : Fits job.dim job.numCenters job.numPqChunks (pivotsOf job)) {cur : ℕ}
    (hcur : 0 < cur) (hle : cur ≤ job.blockSize) :
    (List.range cur).forM (fun _ => inside 0 job.dim job.centroid.length) = .ok () ∧
      (List.range job.numPqChunks).forM (checkChunk job cur) = .ok () := by
  refine ⟨forM_ok fun _ _ => inside_eq_ok_iff.mpr ((Nat.zero_add _).trans_le h.centroid),
    forM_ok fun i hi => (checkChunk_eq_ok_iff hcur).mpr ?_⟩
  have hi := List.mem_range.mp hi
  refine ⟨h.offsets i hi, fun hsize => ⟨fun j hj => ?_, h.pivots i hi hsize⟩⟩
  have hrow : (j + 1) * job.dim ≤ job.blockSize * job.dim := Nat.mul_le_mul_right _ (by omega)
  have hdims : job.lo i + chunkSize job.chunkOffsets i ≤ job.dim := h.dims i hi hsize
  rw [Nat.succ_mul] at hrow
  omega

omit [Inhabited α] [LinearOrder K] in
/-- Arrays that are large enough for a full block fit. -/
lemma fits_of_checks (hsize : 0 < job.blockSize)
    (hcentroid : (List.range job.blockSize).forM
      (fun _ => inside 0 job.dim job.centroid.length) = .ok ())
    (hchunks : (List.range job.numPqChunks).forM (checkChunk job job.blockSize) = .ok ()) :
    Fits job.dim job.numCenters job.numPqChunks (pivotsOf job) := by
  have hchunk := fun i hi => (checkChunk_eq_ok_iff hsize).mp
    (forM_eq_ok_iff.mp hchunks i (List.mem_range.mpr hi))
  refine ⟨?_, fun i hi => (hchunk i hi).1, fun i hi hne => ?_, fun i hi hne =>
    ((hchunk i hi).2 hne).2⟩
  · have hfirst := forM_eq_ok_iff.mp hcentroid 0 (List.mem_range.mpr hsize)
    rwa [inside_eq_ok_iff, Nat.zero_add] at hfirst
  · -- the last point of the block
    have hlast := ((hchunk i hi).2 hne).1 (job.blockSize - 1) (by omega)
    have hrow : job.blockSize * job.dim = (job.blockSize - 1) * job.dim + job.dim := by
      rw [← Nat.succ_mul, Nat.succ_eq_add_one, Nat.sub_add_cancel hsize]
    show job.lo i + chunkSize job.chunkOffsets i ≤ job.dim
    omega

/-- A block is read, and the reader stands behind it. -/
lemma compressBlock_ok (hfits : Fits job.dim job.numCenters job.numPqChunks (pivotsOf job))
    (hbody : job.numPoints * job.dim * job.codec.size ≤ body.length)
    (hblock : block * job.blockSize < job.numPoints) (hsize : 0 < job.blockSize)
    (hrest : s.rest = body.drop (block * job.blockSize * job.dim * job.codec.size)) :
    ∃ s', compressBlock job s block = .ok s' ∧ s'.rest = body.drop
      (min ((block + 1) * job.blockSize) job.numPoints * job.dim * job.codec.size) := by
  set start := block * job.blockSize with hstart
  have hnext : (block + 1) * job.blockSize = start + job.blockSize := by
    rw [Nat.succ_mul, ← hstart]
  obtain ⟨cur, hcur⟩ : ∃ cur, min ((block + 1) * job.blockSize) job.numPoints = start + cur :=
    Nat.exists_eq_add_of_le (by omega)
  have hpos : 0 < cur := by omega
  have hle : (start + cur) * job.dim * job.codec.size
      ≤ job.numPoints * job.dim * job.codec.size :=
    Nat.mul_le_mul_right _ (Nat.mul_le_mul_right _ (by omega))
  rw [Nat.add_mul, Nat.add_mul] at hle
  have hbytes : job.codec.size * (cur * job.dim) ≤ s.rest.length := by
    rw [hrest, List.length_drop, Nat.mul_comm job.codec.size]
    omega
  obtain ⟨hcentroid, hchunks⟩ := hfits.checks hpos (by omega)
  rw [compressBlock, hcur, ← hstart, Nat.add_sub_cancel_left, hcentroid, ok_bind, hchunks, ok_bind,
    Compression.compressBlock, hcur, ← hstart, Nat.add_sub_cancel_left, takeExact, if_pos hbytes,
    Option.map_some]
  refine ⟨_, rfl, ?_⟩
  show s.rest.drop (job.codec.size * (cur * job.dim)) = _
  rw [hrest, List.drop_drop, Nat.add_mul, Nat.add_mul, Nat.mul_comm job.codec.size]

/-- The first block is a full one, so that it shows whether the arrays fit. -/
lemma fits_of_compressBlock {s' : BlockState α K} (hsize : 0 < job.blockSize)
    (hle : job.blockSize ≤ job.numPoints) (h : compressBlock job s 0 = .ok s') :
    Fits job.dim job.numCenters job.numPqChunks (pivotsOf job) := by
  have hcur : min ((0 + 1) * job.blockSize) job.numPoints - 0 * job.blockSize = job.blockSize := by
    rw [Nat.zero_add, Nat.one_mul, Nat.zero_mul, Nat.sub_zero, min_eq_left hle]
  rw [compressBlock, hcur] at h
  obtain ⟨⟨⟩, hcentroid, h⟩ := bind_eq_ok.mp h
  obtain ⟨⟨⟩, hchunks, -⟩ := bind_eq_ok.mp h
  exact fits_of_checks hsize hcentroid hchunks

/-- **When the compression returns**: if the arrays that it loads fit. -/
theorem generatePqDataFromPivots_iff {codec : Codec α} (toFloat : α → K) (blas : Blas K)
    (heap : ℕ → ℕ → Heap K) {maxBlockSize : ℕ} (hmax : 0 < maxBlockSize) (d : DataFile codec)
    (numCenters : ℕ) (numPqChunks : UInt32) (pivots : Pivots K) :
    (∃ out, generatePqDataFromPivots codec toFloat blas heap maxBlockSize d.bytes numCenters
      numPqChunks (some pivots) = .ok out) ↔
      Fits d.dim.toNat numCenters numPqChunks.toNat pivots := by
  obtain ⟨hnpts, hdims⟩ := readBytes_header d
  rw [generatePqDataFromPivots, hnpts, ok_bind, hdims, ok_bind]
  dsimp only
  rw [decodeNat_encodeWord', decodeNat_encodeWord']
  set job : Compression α K :=
    { blas, codec, toFloat, heap
      numPoints := d.npts.toNat
      dim := d.dim.toNat
      numCenters
      numPqChunks := numPqChunks.toNat
      blockSize := if d.npts.toNat ≤ maxBlockSize then d.npts.toNat else maxBlockSize
      fullPivotData := pivots.fullPivotData
      centroid := pivots.centroid
      chunkOffsets := pivots.chunkOffsets } with hjob
  obtain ⟨hsize, hle⟩ : 0 < job.blockSize ∧ job.blockSize ≤ job.numPoints := by
    rw [hjob]
    dsimp only
    split_ifs with hfew
    · exact ⟨d.npts_pos, le_rfl⟩
    · exact ⟨hmax, by omega⟩
  have hblocks : divRoundUp d.npts.toNat job.blockSize
      = .ok (RedAnns.divRoundUp job.numPoints job.blockSize) := divRoundUp_eq hsize
  rw [hblocks, ok_bind]
  constructor
  · rintro ⟨out, hout⟩
    obtain ⟨s, hs, -⟩ := bind_eq_ok.mp hout
    obtain ⟨n, hn⟩ : ∃ n, RedAnns.divRoundUp job.numPoints job.blockSize = n + 1 := by
      refine Nat.exists_eq_succ_of_ne_zero ?_
      have hquot : 0 < job.numPoints / job.blockSize := Nat.div_pos hle hsize
      rw [RedAnns.divRoundUp]
      omega
    rw [hn, List.range_succ_eq_map, List.foldlM_cons] at hs
    obtain ⟨s', hs', -⟩ := bind_eq_ok.mp hs
    exact fits_of_compressBlock hsize hle hs'
  · intro hfits
    obtain ⟨s, hs, -⟩ : ∃ s, (List.range (RedAnns.divRoundUp job.numPoints job.blockSize)).foldlM
        (compressBlock job) ⟨d.body, fun _ => default, fun _ => 0, fun _ => 0, fun _ => 0, []⟩
          = .ok s ∧
        s.rest = d.body.drop (min (RedAnns.divRoundUp job.numPoints job.blockSize * job.blockSize)
          job.numPoints * job.dim * job.codec.size) := by
      refine foldlM_range (I := fun k (s : BlockState α K) => s.rest
        = d.body.drop (min (k * job.blockSize) job.numPoints * job.dim * job.codec.size))
        (fun k hk s hrest => ?_) ?_
      · have hlt := Compression.mul_lt_of_lt_divRoundUp hsize hk
        rw [min_eq_left hlt.le] at hrest
        exact compressBlock_ok hfits d.complete hlt hsize hrest
      · rw [Nat.zero_mul, Nat.zero_min, Nat.zero_mul, Nat.zero_mul, List.drop_zero]
    rw [hs]
    exact ⟨_, rfl⟩

omit [Field K] [LinearOrder K] in
/-- The pivots of a training fit as they are read again, if the offsets could be counted. -/
lemma fits_reload {p : Pivots K} {dim numCenters n : ℕ} (hdim : dim < 2 ^ 32)
    (hpivots : p.fullPivotData.length = numCenters * dim) (hcentroid : p.centroid.length = dim)
    (hlen : p.chunkOffsets.length = n + 1) (hcuts : Cuts p.chunkOffsets n dim)
    (hcount : n + 1 < 2 ^ 32) : Fits dim numCenters n (reload p) := by
  have hreload : reload p = p := by
    rw [reload, hlen, Nat.mod_eq_of_lt hcount, ← hlen, List.take_length]
  have hends : ∀ i < n, p.chunkOffsets.getD i 0 + chunkSize p.chunkOffsets i ≤ dim := by
    intro i hi
    have hmono := hcuts.mono i hi
    have hlast : p.chunkOffsets.getD (i + 1) 0 ≤ dim :=
      (monotone_chunkOffsets hcuts.mono hi le_rfl).trans hcuts.last_eq.le
    have hlo : (UInt32.ofNat (p.chunkOffsets.getD i 0)).toNat = p.chunkOffsets.getD i 0 :=
      UInt32.toNat_ofNat_of_lt' (by omega : p.chunkOffsets.getD i 0 < 2 ^ 32)
    have hhi : (UInt32.ofNat (p.chunkOffsets.getD (i + 1) 0)).toNat
        = p.chunkOffsets.getD (i + 1) 0 :=
      UInt32.toNat_ofNat_of_lt' (by omega : p.chunkOffsets.getD (i + 1) 0 < 2 ^ 32)
    rw [chunkSize, UInt32.toNat_sub_of_le _ _
      (by rw [UInt32.le_iff_toNat_le, hlo, hhi]; exact hmono),
      hlo, hhi]
    omega
  rw [hreload]
  refine ⟨hcentroid.ge, fun i hi => by omega, fun i hi _ => hends i hi, fun i hi _ j hj => ?_⟩
  have hrow : (j + 1) * dim ≤ numCenters * dim := Nat.mul_le_mul_right dim hj
  have hend := hends i hi
  rw [Nat.succ_mul] at hrow
  rw [hpivots]
  omega

end Compression

/-! ### The whole call -/

namespace Quantization

variable {α K : Type} [Inhabited α] [Field K] [LinearOrder K] {codec : Codec α}
  (q : Quantization codec K)

/-- The sample of a call: it has a row exactly if a vector is selected, and no more rows than the
file. -/
lemma sample_spec : ∃ sample,
    genRandomSlice codec q.toFloat q.sliceHeap q.slice q.dataFile.bytes q.pVal = .ok sample ∧
      sample.dim = q.dataFile.dim.toNat ∧ (0 < sample.numPoints ↔ q.Selects) ∧
      sample.numPoints < 2 ^ 64 := by
  obtain ⟨sample, hsample, hdim, hnum⟩ :=
    genRandomSlice_spec q.toFloat q.sliceHeap q.slice q.dataFile q.pVal
  refine ⟨sample, hsample, hdim, ?_, ?_⟩
  · rw [hnum, List.length_pos_iff_exists_mem]
    simp only [List.mem_filter, List.mem_range, decide_eq_true_eq]
    rfl
  · rw [hnum]
    refine (List.length_filter_le _ _).trans_lt ?_
    rw [List.length_range]
    exact q.dataFile.npts.toNat_lt.trans (by norm_num)

/-- A call trains on its sample, and compresses with what the file has then. -/
lemma generateQuantizedData_eq {sample : Sample K}
    (hsample : genRandomSlice codec q.toFloat q.sliceHeap q.slice q.dataFile.bytes q.pVal
      = .ok sample) (fuel : ℕ) :
    ∃ makeZeroMean, q.generateQuantizedData fuel
      = generatePqPivots q.chunks fuel q.pivotsHeap q.existing sample numPqCentroids
          q.numPqChunks.toNat numKmeansRepsPq makeZeroMean >>= fun trained =>
        generatePqDataFromPivots codec q.toFloat q.blas q.heap q.maxBlockSize q.dataFile.bytes
          numPqCentroids q.numPqChunks (trained.or q.existingPivots) := by
  refine ⟨if q.compareMetric = .INNER_PRODUCT then false else false, ?_⟩
  rw [generateQuantizedData, hsample]
  rfl

/-- The compression returns if it finds pivots that fit. -/
lemma exists_compressed_iff (pivots : Option (Pivots K)) :
    (∃ out, generatePqDataFromPivots codec q.toFloat q.blas q.heap q.maxBlockSize q.dataFile.bytes
      numPqCentroids q.numPqChunks pivots = .ok out) ↔
      ∃ p, pivots = some p ∧ Fits q.dataFile.dim.toNat numPqCentroids q.numPqChunks.toNat p := by
  cases pivots with
  | none =>
      obtain ⟨hnpts, hdims⟩ := readBytes_header q.dataFile
      refine iff_of_false ?_ (by simp)
      rintro ⟨out, hout⟩
      rw [generatePqDataFromPivots, hnpts, ok_bind, hdims, ok_bind] at hout
      exact absurd hout (by rintro ⟨⟩)
  | some p =>
      rw [generatePqDataFromPivots_iff q.toFloat q.blas q.heap q.maxBlockSize_pos q.dataFile]
      simp

omit [Inhabited α] in
/-- A call that trains has no more chunks than dimensions, and no matrix of the right shape. -/
lemma of_not_keepsFile {shape : Option (ℕ × ℕ)} (hkeeps : ¬ q.KeepsFile)
    (hshape : pivotShape q.existing = .ok shape) :
    q.numPqChunks.toNat ≤ q.dataFile.dim.toNat ∧
      shape ≠ some (numPqCentroids, q.dataFile.dim.toNat) := by
  constructor
  · exact UInt32.le_iff_toNat_le.mp (UInt32.not_lt.mp fun h => hkeeps (Or.inl h))
  · exact fun h => hkeeps (Or.inr (by rw [hshape, h]))

/-- Without a selected vector, a call that trains leaves the sample. -/
lemma generateQuantizedData_of_empty {shape : Option (ℕ × ℕ)} (hpos : 0 < q.numPqChunks.toNat)
    (hkeeps : ¬ q.KeepsFile) (hshape : pivotShape q.existing = .ok shape) (hnone : ¬ q.Selects)
    (fuel : ℕ) : q.generateQuantizedData fuel = .error .outsideSample := by
  obtain ⟨sample, hsample, hdim, hselects, -⟩ := q.sample_spec
  obtain ⟨makeZeroMean, heq⟩ := q.generateQuantizedData_eq hsample fuel
  have hempty : sample.numPoints = 0 :=
    Nat.eq_zero_of_not_pos fun hpos => hnone (hselects.mp hpos)
  obtain ⟨hle, hother⟩ := q.of_not_keepsFile hkeeps hshape
  rw [← hdim] at hle hother
  rw [heq, generatePqPivots_of_empty q.chunks fuel q.pivotsHeap numKmeansRepsPq _ hpos hle hshape
    hother hempty]
  rfl

/-- Pivots that are there already are used as they are. -/
lemma completes_of_keepsFile (hkeeps : q.KeepsFile) (hfits : q.FileFits) : q.Completes := by
  obtain ⟨sample, hsample, hdim, -, -⟩ := q.sample_spec
  obtain ⟨makeZeroMean, heq⟩ := q.generateQuantizedData_eq hsample 0
  have htrained : generatePqPivots q.chunks 0 q.pivotsHeap q.existing sample numPqCentroids
      q.numPqChunks.toNat numKmeansRepsPq makeZeroMean = .ok none := by
    rw [generatePqPivots]
    dsimp only
    by_cases hmore : sample.dim < q.numPqChunks.toNat
    · rw [if_pos hmore]
      rfl
    · have hshape := hkeeps.resolve_left fun hlt => hmore (hdim ▸ UInt32.lt_iff_toNat_lt.mp hlt)
      rw [if_neg hmore, Sample.read, if_pos (Nat.zero_add _).le, ok_bind, hshape, ok_bind,
        if_pos (by rw [hdim])]
      rfl
  obtain ⟨out, hout⟩ := (q.exists_compressed_iff q.existingPivots).mpr hfits
  refine ⟨0, out, ?_⟩
  rw [heq, htrained, ok_bind]
  exact hout

/-- With a selected vector the training returns, and what it has written fits. -/
lemma completes_of_selects [IsStrictOrderedRing K] (hkeeps : ¬ q.KeepsFile) (ht : q.Trainable)
    (h : q.Selects) : q.Completes := by
  obtain ⟨sample, hsample, hdim, hselects, h64⟩ := q.sample_spec
  obtain ⟨makeZeroMean, heq⟩ := q.generateQuantizedData_eq hsample numPqCentroids
  obtain ⟨shape, hshape, hroom⟩ := ht.roomy
  obtain ⟨hle, hother⟩ := q.of_not_keepsFile hkeeps hshape
  rw [← hdim] at hle hother
  obtain ⟨p, htrained, hpivots, hcentroid, hlen, hcuts⟩ := generatePqPivots_ok q.chunks
    q.pivotsHeap numKmeansRepsPq makeZeroMean ht.chunks_pos hle hshape hother (hdim ▸ hroom)
    (hselects.mpr h) h64 (show 0 < numPqCentroids by norm_num [numPqCentroids])
  have hfits : Fits sample.dim numPqCentroids q.numPqChunks.toNat (reload p) :=
    fits_reload (hdim ▸ q.dataFile.dim.toNat_lt) hpivots hcentroid hlen hcuts ht.offsets
  rw [hdim] at hfits
  obtain ⟨out, hout⟩ := (q.exists_compressed_iff (some (reload p))).mpr ⟨_, rfl, hfits⟩
  refine ⟨numPqCentroids, out, ?_⟩
  rw [heq, htrained, ok_bind]
  exact hout

/-- One point with the single coordinate seven. -/
def onePointFile : DataFile Codec.uint8 where
  npts := 1
  dim := 1
  body := [7]
  npts_pos := Nat.one_pos
  complete := le_rfl

/-- Draws that are zero, and exact arithmetic. -/
noncomputable def zeroChunk : ChunkEnv ℝ where
  seeds :=
    { int := fun _ _ => 0
      real := fun _ => 0
      int_le := fun _ _ => UInt64.zero_le
      real_nonneg := fun _ => le_rfl
      real_lt_one := fun _ => one_pos }
  envs := fun _ => MathUtils.exactEnv
  dist := fun _ => 0
  tmpPivot := 0

/-- A file of one point in one dimension, and the draw for it; half of the points are to be
selected. -/
noncomputable def onePoint (draw : ℝ) : Quantization Codec.uint8 ℝ where
  dataFile := onePointFile
  toFloat := fun x => x.toNat
  val := fun w => w.toNat
  pVal := 0.5
  numPqChunks := 1
  compareMetric := .L2
  slice := fun _ => draw
  chunks := fun _ => zeroChunk
  existing := none
  sliceHeap := fun _ => 0
  pivotsHeap := fun _ => 0
  blas := exactBlas
  heap := fun _ _ => ⟨fun _ => 0, fun _ => 0⟩
  maxBlockSize := 3000000
  maxBlockSize_pos := by norm_num

lemma selects_onePoint (draw : ℝ) : (onePoint draw).Selects ↔ draw < 1 / 2 := by
  have hval : (onePoint draw).pVal = 1 / 2 := by norm_num [onePoint]
  rw [Selects, hval, if_pos one_half_lt_one]
  exact ⟨fun ⟨_, _, h⟩ => h, fun h => ⟨0, Nat.one_pos, h⟩⟩

lemma not_keepsFile_onePoint (draw : ℝ) : ¬ (onePoint draw).KeepsFile := by
  rintro (hmore | hsame)
  · exact absurd hmore (lt_irrefl (1 : UInt32))
  · exact absurd (Except.ok.inj hsame) (by rintro ⟨⟩)

end Quantization

end RedAnns.Checked
