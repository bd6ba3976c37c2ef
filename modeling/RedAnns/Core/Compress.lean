import RedAnns.Core.ClosestCenters
import RedAnns.Core.PivotFile
import RedAnns.Core.PqStorage
import RedAnns.Lib.Loop

/-!
Compression: `generate_pq_data_from_pivots` of `src/pq.cpp`.

The points are read block by block into arrays that all blocks share; the last block may be smaller
and leaves the rest of them as it was. Every block is centered, and every chunk of coordinates of it
is searched for closest pivots; the codes are packed into bytes and appended to the file.

* `Compression`, `BlockState`: what stays the same, and what the blocks change.
* `compressChunk`, `compressBlock`, `generatePqDataFromPivots`: the source.
* `nearest`: the code of a point and a chunk on their own.
* `compressBlock_spec`: a block appends the codes of its points; `run_eq`: all blocks append those
  of all points.
* `compressesPointwise`: what is read back from the file, whatever the size of the blocks.
-/

namespace RedAnns

open Bytes

/-! ### The source -/

/-- What the blocks have in common. `heap block chunk` is what the arrays of a search hold before
it. -/
structure Compression (α K : Type*) [Field K] where
  blas : Blas K
  codec : Codec α
  toFloat : α → K
  heap : ℕ → ℕ → Heap K
  numPoints : ℕ
  dim : ℕ
  numCenters : ℕ
  numPqChunks : ℕ
  blockSize : ℕ
  fullPivotData : List K
  centroid : List K
  chunkOffsets : List ℕ

/-- The reader, the arrays that the blocks share, and what was written behind the header. -/
structure BlockState (α K : Type*) where
  rest : List UInt8
  blockDataT : Buffer α
  blockDataTmp : Buffer K
  blockDataFloat : Buffer K
  blockCompressedBase : Buffer UInt32
  written : List UInt8

/-- `DIV_ROUND_UP`. -/
def divRoundUp (x y : ℕ) : ℕ := x / y + if x % y = 0 then 0 else 1

namespace Compression

variable {α K : Type*} [Inhabited α] [Field K] [LinearOrder K] (job : Compression α K)

/-- Where a chunk starts. -/
def lo (i : ℕ) : ℕ := job.chunkOffsets.getD i 0

/-- `cur_chunk_size`. -/
def chunkSize (i : ℕ) : ℕ := job.chunkOffsets.getD (i + 1) 0 - job.chunkOffsets.getD i 0

/-- `cur_data`: the coordinates of a chunk. -/
def curData (curBlkSize : ℕ) (blockDataFloat : Buffer K) (i : ℕ) : Buffer K :=
  Buffer.mapRows (fun _ => 0) curBlkSize (job.chunkSize i) (job.chunkSize i) 0
    fun j k _ => blockDataFloat (j * job.dim + job.lo i + k)

/-- `cur_pivot_data`. -/
def curPivotData (i : ℕ) : Buffer K :=
  Buffer.mapRows (fun _ => 0) job.numCenters (job.chunkSize i) (job.chunkSize i) 0
    fun j k _ => job.fullPivotData.getD (j * job.dim + job.lo i + k) 0

/-- `closest_center`, which is zero before the search. -/
def closestCenter (block curBlkSize : ℕ) (blockDataFloat : Buffer K) (i : ℕ) : Buffer UInt32 :=
  computeClosestCenters job.blas (job.heap block i) (job.curData curBlkSize blockDataFloat i)
    curBlkSize (job.chunkSize i) (job.curPivotData i) job.numCenters fun _ => 0

/-- The loop body over chunks. -/
def compressChunk (block curBlkSize : ℕ) (blockDataFloat : Buffer K) (base : Buffer UInt32)
    (i : ℕ) : Buffer UInt32 :=
  if job.chunkSize i = 0 then base
  else base.mapRows curBlkSize 1 job.numPqChunks i
    fun j _ _ => job.closestCenter block curBlkSize blockDataFloat i j

/-- The bytes that are written for a block: words, or bytes when there are at most 256 centers. -/
def blockBytes (curBlkSize : ℕ) (base : Buffer UInt32) : List UInt8 :=
  if 256 < job.numCenters then (base.take (curBlkSize * job.numPqChunks)).flatMap encodeWord
  else
    let pVec : Buffer UInt8 := Buffer.mapRows (fun _ => 0) curBlkSize job.numPqChunks
      job.numPqChunks 0 fun i j _ => (base (i * job.numPqChunks + j)).toUInt8
    pVec.take (curBlkSize * job.numPqChunks)

/-- One block. -/
def compressBlock (s : BlockState α K) (block : ℕ) : Option (BlockState α K) :=
  let startId := block * job.blockSize
  let endId := min ((block + 1) * job.blockSize) job.numPoints
  let curBlkSize := endId - startId
  (takeExact (job.codec.size * (curBlkSize * job.dim)) s.rest).map fun read =>
    let values := job.codec.decodeAll (curBlkSize * job.dim) read.1
    let blockDataT := s.blockDataT.copy 0 (curBlkSize * job.dim) fun a => values.getD a default
    let blockDataTmp := s.blockDataTmp.mapRows curBlkSize job.dim job.dim 0
      fun i j _ => job.toFloat (blockDataT (i * job.dim + j))
    let blockDataTmp := blockDataTmp.mapRows curBlkSize job.dim job.dim 0
      fun _ d x => x - job.centroid.getD d 0
    let blockDataFloat := s.blockDataFloat.mapRows curBlkSize job.dim job.dim 0
      fun p d _ => blockDataTmp (p * job.dim + d)
    let blockCompressedBase := (List.range job.numPqChunks).foldl
      (job.compressChunk block curBlkSize blockDataFloat) s.blockCompressedBase
    { rest := read.2
      blockDataT := blockDataT
      blockDataTmp := blockDataTmp
      blockDataFloat := blockDataFloat
      blockCompressedBase := blockCompressedBase
      written := s.written ++ job.blockBytes curBlkSize blockCompressedBase }

/-- The loop over blocks. -/
def run (body : List UInt8) : Option (BlockState α K) :=
  (List.range (divRoundUp job.numPoints job.blockSize)).foldlM job.compressBlock
    ⟨body, fun _ => default, fun _ => 0, fun _ => 0, fun _ => 0, []⟩

end Compression

section Generate

variable {α K : Type*} [Inhabited α] [Field K] [LinearOrder K]

/-- `generate_pq_data_from_pivots`: the file of codes. Pivots are words that `val` reads as numbers;
the blocks have at most `maxBlockSize` points, which is `BLOCK_SIZE`, 3000000. -/
def generatePqDataFromPivots (blas : Blas K) (codec : Codec α) (toFloat : α → K) (val : UInt32 → K)
    (heap : ℕ → ℕ → Heap K) (maxBlockSize : ℕ) (dataFile : List UInt8)
    (numCenters numPqChunks : UInt32) (pivotsFile : File) : Option (List UInt8) :=
  (takeExact 4 dataFile).bind fun npts32 => (takeExact 4 npts32.2).bind fun basedim32 =>
    (loadPivots pivotsFile).bind fun pivots =>
      let numPoints := decodeNat npts32.1
      let job : Compression α K :=
        { blas := blas
          codec := codec
          toFloat := toFloat
          heap := heap
          numPoints := numPoints
          dim := decodeNat basedim32.1
          numCenters := numCenters.toNat
          numPqChunks := numPqChunks.toNat
          blockSize := if numPoints ≤ maxBlockSize then numPoints else maxBlockSize
          fullPivotData := pivots.1.map val
          centroid := pivots.2.1.map val
          chunkOffsets := pivots.2.2.map UInt32.toNat }
      (job.run basedim32.2).map fun s =>
        encodeNat 4 numPoints ++ encodeWord numPqChunks ++ s.written

end Generate

/-! ### Codes of single points -/

namespace Compression

section Spec

variable {α K : Type*} [Inhabited α] [Field K] (job : Compression α K)

/-- Coordinate `d` of point `i`, without the centroid. -/
def coord (values : List α) (i d : ℕ) : K :=
  job.toFloat (values.getD (i * job.dim + d) default) - job.centroid.getD d 0

/-- The squared distance of point `i` to center `j` in the dimensions of a chunk. -/
def chunkDist (values : List α) (i chunk j : ℕ) : K :=
  ∑ d ∈ Finset.Ico (job.chunkOffsets.getD chunk 0) (job.chunkOffsets.getD (chunk + 1) 0),
    (job.coord values i d - job.fullPivotData.getD (j * job.dim + d) 0) ^ 2

/-- The code of point `i` for a chunk: the first center that is nearest, and zero for a chunk
without coordinates. -/
def nearest [LinearOrder K] (values : List α) (i chunk : ℕ) : ℕ :=
  if job.chunkSize chunk = 0 then 0
  else (scanLeast id (job.chunkDist values i chunk) job.numCenters (0, (floatMax : K))).1

end Spec

/-! ### One chunk -/

section Chunk

variable {α K : Type*} [Inhabited α] [Field K] [LinearOrder K] {job : Compression α K}
  {block curBlkSize : ℕ} {blockDataFloat : Buffer K}

/-- The search for a chunk finds the nearest centers of the points of the block. -/
lemma closestCenter_eq (hcuts : Cuts job.chunkOffsets job.numPqChunks job.dim) (values : List α)
    (i : ℕ) {p chunk : ℕ} (hp : p < curBlkSize) (hchunk : chunk < job.numPqChunks)
    (hfloat : ∀ d < job.dim, blockDataFloat (p * job.dim + d) = job.coord values i d)
    (hsize : job.chunkSize chunk ≠ 0)
    (hmax : ∀ j < job.numCenters, job.chunkDist values i chunk j < (floatMax : K)) :
    job.closestCenter block curBlkSize blockDataFloat chunk p
      = UInt32.ofNat (job.nearest values i chunk) := by
  have hlast : job.chunkOffsets.getD (chunk + 1) 0 ≤ job.dim :=
    (monotone_chunkOffsets hcuts.mono hchunk le_rfl).trans hcuts.last_eq.le
  have hdist : ∀ j < job.numCenters, sqDist (job.curData curBlkSize blockDataFloat chunk)
      (job.curPivotData chunk) (job.chunkSize chunk) p j = job.chunkDist values i chunk j :=
    fun j hj => by
      rw [sqDist, chunkDist, Finset.sum_Ico_eq_sum_range, ← chunkSize]
      refine Finset.sum_congr rfl fun l hl => ?_
      rw [Finset.mem_range] at hl
      have hd : job.chunkOffsets.getD chunk 0 + l < job.dim := by
        rw [chunkSize] at hl
        omega
      rw [curData, curPivotData, Buffer.mapRows_all hp hl, Buffer.mapRows_all hj hl, Nat.add_assoc,
        lo, hfloat _ hd, Nat.add_assoc]
  rw [nearest, if_neg hsize]
  rcases Nat.eq_zero_or_pos job.numCenters with hzero | hpos
  · rw [closestCenter, hzero, computeClosestCenters_of_none]
    rfl
  · obtain ⟨m, hm, hclosest⟩ := computeClosestCenters_spec job.blas (job.heap block chunk)
      (fun _ => 0) hp hpos fun j hj => (hdist j hj).trans_lt (hmax j hj)
    obtain ⟨m', hm', hscan⟩ := scanLeast_spec id (0, (floatMax : K)) hpos hmax
    rw [closestCenter, hclosest, hscan, (hm.congr hdist).unique hm']
    rfl

omit [Inhabited α] in
/-- **The loop over chunks** writes the codes of the points of the block, in the columns of the
chunks with coordinates. -/
lemma foldl_compressChunk (base : Buffer UInt32) {p chunk k : ℕ} (hchunk : chunk < job.numPqChunks)
    (hk : k ≤ job.numPqChunks) :
    (List.range k).foldl (job.compressChunk block curBlkSize blockDataFloat) base
        (p * job.numPqChunks + chunk)
      = if p < curBlkSize ∧ chunk < k ∧ job.chunkSize chunk ≠ 0 then
          job.closestCenter block curBlkSize blockDataFloat chunk p
        else base (p * job.numPqChunks + chunk) := by
  induction k with
  | zero => rw [if_neg (by omega)]; rfl
  | succ k ih =>
      rw [List.range_succ, List.foldl_append, List.foldl_cons, List.foldl_nil, compressChunk]
      by_cases hsize : job.chunkSize k = 0
      · rw [if_pos hsize, ih (by omega)]
        refine if_congr ⟨fun h => ⟨h.1, by omega, h.2.2⟩, fun h => ⟨h.1, ?_, h.2.2⟩⟩ rfl rfl
        rcases eq_or_lt_of_le (Nat.le_of_lt_succ h.2.1) with rfl | hlt
        · exact absurd hsize h.2.2
        · exact hlt
      · rw [if_neg hsize, Buffer.mapRows_apply (by omega) hchunk, ih (by omega)]
        by_cases heq : chunk = k
        · subst heq
          by_cases hp : p < curBlkSize
          · rw [if_pos ⟨hp, le_rfl, Nat.lt_succ_self chunk⟩,
              if_pos ⟨hp, Nat.lt_succ_self chunk, hsize⟩]
          · rw [if_neg (by tauto), if_neg (by tauto), if_neg (by tauto)]
        · rw [if_neg (by omega)]
          refine if_congr ⟨fun h => ⟨h.1, by omega, h.2.2⟩, fun h => ⟨h.1, by omega, h.2.2⟩⟩ rfl rfl

end Chunk

/-! ### One block -/

section Block

variable {α K : Type*} [Inhabited α] [Field K] [LinearOrder K] (job : Compression α K)

/-- The bytes of a code. -/
def codeBytes (code : UInt32) : List UInt8 :=
  if 256 < job.numCenters then encodeWord code else [code.toUInt8]

/-- The bytes of the codes of the first `n` points. -/
def codesOf (values : List α) (n : ℕ) : List UInt8 :=
  (List.range n).flatMap fun i => (List.range job.numPqChunks).flatMap fun chunk =>
    job.codeBytes (UInt32.ofNat (job.nearest values i chunk))

variable {job}

omit [Inhabited α] [LinearOrder K] in
/-- The bytes of a block are those of its codes, row by row. -/
lemma blockBytes_eq (curBlkSize : ℕ) (base : Buffer UInt32) : job.blockBytes curBlkSize base
    = (List.range curBlkSize).flatMap fun p => (List.range job.numPqChunks).flatMap fun chunk =>
        job.codeBytes (base (p * job.numPqChunks + chunk)) := by
  by_cases hwide : 256 < job.numCenters
  · rw [blockBytes, if_pos hwide, Buffer.take, List.flatMap_map, flatMap_range_mul]
    simp only [codeBytes, if_pos hwide]
  · rw [blockBytes, if_neg hwide, Buffer.take, ← List.flatMap_singleton' ((List.range _).map _),
      List.flatMap_map, flatMap_range_mul]
    refine List.flatMap_congr fun p hp => List.flatMap_congr fun chunk hchunk => ?_
    rw [List.mem_range] at hp hchunk
    rw [Buffer.mapRows_all hp hchunk, codeBytes, if_neg hwide]

/-- **Between blocks**: the reader stands behind the first `n` points, their codes are written, and
the columns of chunks without coordinates are still zero. -/
structure Done (job : Compression α K) (body : List UInt8) (values : List α) (n : ℕ)
    (s : BlockState α K) : Prop where
  rest_eq : s.rest = body.drop (n * job.dim * job.codec.size)
  written_eq : s.written = job.codesOf values n
  column : ∀ p, ∀ chunk < job.numPqChunks, job.chunkSize chunk = 0 →
    s.blockCompressedBase (p * job.numPqChunks + chunk) = 0

/-- The codes of some points and of those that follow. -/
lemma codesOf_add (values : List α) (m n : ℕ) : job.codesOf values (m + n)
    = job.codesOf values m ++ (List.range n).flatMap fun p =>
        (List.range job.numPqChunks).flatMap fun chunk =>
          job.codeBytes (UInt32.ofNat (job.nearest values (m + p) chunk)) := by
  rw [codesOf, List.range_add, List.flatMap_append, List.flatMap_map]
  rfl

/-- What a run is given: chunks that cut the dimensions, a complete body, and distances below the
largest `float`. -/
structure Admits (job : Compression α K) (body : List UInt8) : Prop where
  cuts : Cuts job.chunkOffsets job.numPqChunks job.dim
  complete : job.numPoints * job.dim * job.codec.size ≤ body.length
  max : ∀ i < job.numPoints, ∀ chunk < job.numPqChunks, ∀ j < job.numCenters,
    job.chunkDist (job.codec.decodeAll (job.numPoints * job.dim) body) i chunk j < (floatMax : K)

variable {body : List UInt8}

/-- **One block** appends the codes of its points. -/
theorem compressBlock_spec (h : job.Admits body) {s : BlockState α K} {b : ℕ}
    (hb : b * job.blockSize < job.numPoints)
    (hs : job.Done body (job.codec.decodeAll (job.numPoints * job.dim) body)
        (b * job.blockSize) s) :
    ∃ s', job.compressBlock s b = some s' ∧
      job.Done body (job.codec.decodeAll (job.numPoints * job.dim) body)
        (min ((b + 1) * job.blockSize) job.numPoints) s' := by
  set values := job.codec.decodeAll (job.numPoints * job.dim) body with hvalues
  set start := b * job.blockSize with hstart
  obtain ⟨cur, hcur⟩ : ∃ cur, min ((b + 1) * job.blockSize) job.numPoints = start + cur :=
    Nat.exists_eq_add_of_le (by rw [Nat.succ_mul, ← hstart]; omega)
  have hend : start + cur ≤ job.numPoints := hcur ▸ min_le_right _ _
  have hpoints : start * job.dim + cur * job.dim ≤ job.numPoints * job.dim := by
    rw [← Nat.add_mul]
    exact Nat.mul_le_mul_right job.dim hend
  -- the reader has the points of the block
  have hbytes : job.codec.size * (cur * job.dim) ≤ s.rest.length := by
    have hall := Nat.mul_le_mul_right job.codec.size hpoints
    have hcomplete := h.complete
    rw [Nat.add_mul] at hall
    rw [hs.rest_eq, List.length_drop, Nat.mul_comm job.codec.size]
    omega
  rw [compressBlock, ← hstart, hcur, Nat.add_sub_cancel_left, takeExact, if_pos hbytes,
    Option.map_some]
  refine ⟨_, rfl, ?_, ?_, ?_⟩
  · show s.rest.drop (job.codec.size * (cur * job.dim)) = _
    rw [hs.rest_eq, List.drop_drop, Nat.add_mul, Nat.add_mul, Nat.mul_comm job.codec.size]
  · show s.written ++ job.blockBytes cur _ = _
    rw [hs.written_eq, codesOf_add, blockBytes_eq]
    refine congrArg (_ ++ ·) (List.flatMap_congr fun p hp =>
      List.flatMap_congr fun chunk hchunk => ?_)
    rw [List.mem_range] at hp hchunk
    rw [foldl_compressChunk _ hchunk le_rfl]
    by_cases hsize : job.chunkSize chunk = 0
    · rw [if_neg (by tauto), hs.column p chunk hchunk hsize, nearest, if_pos hsize]
      rfl
    · rw [if_pos ⟨hp, hchunk, hsize⟩,
        closestCenter_eq h.cuts values (start + p) hp hchunk ?_ hsize
          (h.max (start + p) (by omega) chunk hchunk)]
      intro d hd
      have hlt : p * job.dim + d < cur * job.dim := by
        have hrow := Nat.mul_le_mul_right job.dim hp
        rw [Nat.succ_mul] at hrow
        omega
      rw [Buffer.mapRows_all hp hd, Buffer.mapRows_all hp hd, Buffer.mapRows_all hp hd,
        Buffer.copy_of_mem ⟨Nat.zero_le _, by omega⟩, Nat.sub_zero, hs.rest_eq,
        job.codec.getD_decodeAll_drop body hlt hpoints, coord, hvalues, Nat.add_mul, Nat.add_assoc]
  · intro p chunk hchunk hsize
    show (List.range job.numPqChunks).foldl _ s.blockCompressedBase _ = 0
    rw [foldl_compressChunk _ hchunk le_rfl, if_neg (by tauto), hs.column p chunk hchunk hsize]

/-- Blocks before the last one are full, and they reach the end of the points. -/
lemma mul_lt_of_lt_divRoundUp {x y b : ℕ} (hy : 0 < y) (h : b < divRoundUp x y) : b * y < x := by
  have hdiv := Nat.div_add_mod x y
  rw [divRoundUp] at h
  split_ifs at h with hmod
  · have hle : (b + 1) * y ≤ x / y * y := Nat.mul_le_mul_right y (by omega)
    rw [Nat.succ_mul, Nat.mul_comm (x / y)] at hle
    omega
  · have hle : b * y ≤ x / y * y := Nat.mul_le_mul_right y (by omega)
    rw [Nat.mul_comm (x / y)] at hle
    omega

lemma le_divRoundUp_mul {x y : ℕ} (hy : 0 < y) : x ≤ divRoundUp x y * y := by
  have hdiv := Nat.div_add_mod x y
  have hmod := Nat.mod_lt x hy
  rw [divRoundUp]
  split_ifs with hzero
  · rw [Nat.add_zero, Nat.mul_comm]
    omega
  · rw [Nat.succ_mul, Nat.mul_comm]
    omega

/-- **All blocks** write the codes of all points. -/
theorem run_eq (h : job.Admits body) (hblock : 0 < job.blockSize) :
    ∃ s, job.run body = some s ∧ s.written
      = job.codesOf (job.codec.decodeAll (job.numPoints * job.dim) body) job.numPoints := by
  obtain ⟨s, hrun, hs⟩ := foldlM_range (n := divRoundUp job.numPoints job.blockSize)
    (f := job.compressBlock)
    (I := fun k => job.Done body (job.codec.decodeAll (job.numPoints * job.dim) body)
      (min (k * job.blockSize) job.numPoints))
    (fun k hk s hs => by
      have hlt := mul_lt_of_lt_divRoundUp hblock hk
      rw [min_eq_left hlt.le] at hs
      exact compressBlock_spec h hlt hs)
    (s := ⟨body, fun _ => default, fun _ => 0, fun _ => 0, fun _ => 0, []⟩)
    (by
      rw [Nat.zero_mul, Nat.zero_min]
      exact ⟨by rw [Nat.zero_mul, Nat.zero_mul, List.drop_zero], rfl, fun _ _ _ _ => rfl⟩)
  rw [min_eq_right (le_divRoundUp_mul hblock)] at hs
  exact ⟨s, hrun, hs.written_eq⟩

end Block

end Compression

/-! ### The file of codes -/

/-- A data file: at least one point, and all the values that the header announces. -/
structure DataFile {α : Type*} (codec : Codec α) where
  npts : UInt32
  dim : UInt32
  body : List UInt8
  npts_pos : 0 < npts.toNat
  complete : npts.toNat * dim.toNat * codec.size ≤ body.length

/-- A file of pivots, of which there are at most 256. -/
structure PivotFile (numCenters numPqChunks dim : UInt32) where
  file : File
  fullPivotData : List UInt32
  centroid : List UInt32
  chunkOffsets : List UInt32
  load_eq : loadPivots file = some (fullPivotData, centroid, chunkOffsets)
  length_fullPivotData : fullPivotData.length = numCenters.toNat * dim.toNat
  length_centroid : centroid.length = dim.toNat
  cuts : Cuts (chunkOffsets.map UInt32.toNat) numPqChunks.toNat dim.toNat
  numCenters_le : numCenters.toNat ≤ 256

section Pointwise

variable {α K : Type*} [Inhabited α] [Field K] {codec : Codec α}
  {numCenters numPqChunks : UInt32}

/-- The bytes of a data file. -/
def DataFile.bytes (d : DataFile codec) : List UInt8 :=
  encodeWord d.npts ++ encodeWord d.dim ++ d.body

/-- The values of the points, one row a point. -/
def DataFile.values (d : DataFile codec) : List α :=
  codec.decodeAll (d.npts.toNat * d.dim.toNat) d.body

/-- The offset of a chunk. -/
def PivotFile.offset {dim : UInt32} (p : PivotFile numCenters numPqChunks dim) (chunk : ℕ) : ℕ :=
  (p.chunkOffsets.map UInt32.toNat).getD chunk 0

/-- The squared distance, in the dimensions of a chunk, of a point minus the centroid to a
center. -/
def pointDist (toFloat : α → K) (val : UInt32 → K) (d : DataFile codec)
    (p : PivotFile numCenters numPqChunks d.dim) (i chunk j : ℕ) : K :=
  ∑ e ∈ Finset.Ico (p.offset chunk) (p.offset (chunk + 1)),
    (toFloat (d.values.getD (i * d.dim.toNat + e) default) - (p.centroid.map val).getD e 0
      - (p.fullPivotData.map val).getD (j * d.dim.toNat + e) 0) ^ 2

variable [LinearOrder K] (blas : Blas K) (toFloat : α → K) (val : UInt32 → K)
  (heap : ℕ → ℕ → Heap K) (maxBlockSize : ℕ) (d : DataFile codec)
  (p : PivotFile numCenters numPqChunks d.dim)

/-- The compression of a data file. -/
def compressionOf : Compression α K where
  blas := blas
  codec := codec
  toFloat := toFloat
  heap := heap
  numPoints := d.npts.toNat
  dim := d.dim.toNat
  numCenters := numCenters.toNat
  numPqChunks := numPqChunks.toNat
  blockSize := if d.npts.toNat ≤ maxBlockSize then d.npts.toNat else maxBlockSize
  fullPivotData := p.fullPivotData.map val
  centroid := p.centroid.map val
  chunkOffsets := p.chunkOffsets.map UInt32.toNat

lemma decodeNat_encodeWord' (w : UInt32) : decodeNat (encodeWord w) = w.toNat := by
  rw [encodeWord_eq, decodeNat_encodeNat (by simpa using w.toNat_lt)]

/-- The source compresses the data file, behind a header. -/
lemma generatePqDataFromPivots_eq :
    generatePqDataFromPivots blas codec toFloat val heap maxBlockSize d.bytes numCenters numPqChunks
        p.file
      = ((compressionOf blas toFloat val heap maxBlockSize d p).run d.body).map fun s =>
          codeFile d.npts numPqChunks s.written := by
  rw [generatePqDataFromPivots, DataFile.bytes, List.append_assoc,
    takeExact_of_length (length_encodeWord d.npts), Option.bind_some]
  simp only [takeExact_of_length (length_encodeWord d.dim), Option.bind_some, p.load_eq,
    decodeNat_encodeWord', ← encodeWord_eq]
  rfl

variable {toFloat val d p}

/-- The codes of the points, each computed on its own. -/
def pointCode (toFloat : α → K) (val : UInt32 → K) (d : DataFile codec)
    (p : PivotFile numCenters numPqChunks d.dim) (i chunk : ℕ) : ℕ :=
  if p.offset (chunk + 1) - p.offset chunk = 0 then 0
  else (scanLeast id (pointDist toFloat val d p i chunk) numCenters.toNat (0, (floatMax : K))).1

/-- The bytes of all codes, one row a point. -/
def pointCodes (toFloat : α → K) (val : UInt32 → K) (d : DataFile codec)
    (p : PivotFile numCenters numPqChunks d.dim) : List UInt8 :=
  (List.range (d.npts.toNat * numPqChunks.toNat)).map fun a =>
    (UInt32.ofNat (pointCode toFloat val d p (a / numPqChunks.toNat)
        (a % numPqChunks.toNat))).toUInt8

lemma codesOf_compressionOf :
    (compressionOf blas toFloat val heap maxBlockSize d p).codesOf d.values d.npts.toNat
      = pointCodes toFloat val d p := by
  have hwide : ¬ 256 < numCenters.toNat := not_lt.mpr p.numCenters_le
  rw [pointCodes, ← List.flatMap_singleton' ((List.range _).map _), List.flatMap_map,
    flatMap_range_mul]
  refine List.flatMap_congr fun i _ => List.flatMap_congr fun chunk hchunk => ?_
  have hlt : chunk < numPqChunks.toNat := List.mem_range.mp hchunk
  rw [row_of_index hlt, col_of_index hlt, Compression.codeBytes]
  exact if_neg hwide

/-- **The file that is written** has the codes of single points, for every size of the blocks. -/
lemma generatePqDataFromPivots_eq_some (hblock : 0 < maxBlockSize)
    (hmax : ∀ i < d.npts.toNat, ∀ chunk < numPqChunks.toNat, ∀ j < numCenters.toNat,
      pointDist toFloat val d p i chunk j < (floatMax : K)) :
    generatePqDataFromPivots blas codec toFloat val heap maxBlockSize d.bytes numCenters numPqChunks
        p.file = some (codeFile d.npts numPqChunks (pointCodes toFloat val d p)) := by
  have hadmits : (compressionOf blas toFloat val heap maxBlockSize d p).Admits d.body :=
    ⟨p.cuts, d.complete, hmax⟩
  have hsize : 0 < (compressionOf blas toFloat val heap maxBlockSize d p).blockSize := by
    show 0 < if d.npts.toNat ≤ maxBlockSize then d.npts.toNat else maxBlockSize
    split_ifs
    · exact d.npts_pos
    · exact hblock
  obtain ⟨s, hrun, hwritten⟩ := Compression.run_eq hadmits hsize
  rw [generatePqDataFromPivots_eq, hrun, Option.map_some, hwritten]
  exact congrArg (fun codes => some (codeFile d.npts numPqChunks codes))
    (codesOf_compressionOf blas heap maxBlockSize)

/-- The code of a point for a chunk is the first of the nearest centers. -/
lemma firstLeast_pointCode {i chunk : ℕ}
    (hsize : p.offset chunk < p.offset (chunk + 1)) (hcenters : 0 < numCenters.toNat)
    (hmax : ∀ j < numCenters.toNat, pointDist toFloat val d p i chunk j < (floatMax : K)) :
    FirstLeast (pointDist toFloat val d p i chunk) numCenters.toNat
      (pointCode toFloat val d p i chunk) := by
  obtain ⟨m, hm, hscan⟩ := scanLeast_spec id (0, (floatMax : K)) hcenters hmax
  rw [pointCode, if_neg (by omega), hscan]
  exact hm

lemma pointCode_lt {i chunk : ℕ}
    (hmax : ∀ j < numCenters.toNat, pointDist toFloat val d p i chunk j < (floatMax : K)) :
    pointCode toFloat val d p i chunk < 256 := by
  by_cases hsize : p.offset (chunk + 1) - p.offset chunk = 0
  · rw [pointCode, if_pos hsize]
    exact Nat.succ_pos 255
  · rcases Nat.eq_zero_or_pos numCenters.toNat with hzero | hpos
    · rw [pointCode, if_neg hsize, hzero]
      exact Nat.succ_pos 255
    · exact (firstLeast_pointCode (by omega) hpos hmax).lt.trans_le p.numCenters_le

lemma toNat_toUInt8_ofNat {n : ℕ} (h : n < 256) : (UInt32.ofNat n).toUInt8.toNat = n := by
  rw [UInt32.toNat_toUInt8, UInt32.toNat_ofNat_of_lt' (by omega : n < 2 ^ 32)]
  exact Nat.mod_eq_of_lt h

/-- **Compression works point by point**: whatever the size of the blocks, and whatever the arrays
held before, the same file is written, and what is read back from it is, for every point and chunk,
the first of the centers that are nearest to the point minus the centroid. -/
def CompressesPointwise (blas : Blas K) (toFloat : α → K) (val : UInt32 → K)
    (d : DataFile codec) (p : PivotFile numCenters numPqChunks d.dim) : Prop :=
  ∃ file, (∀ heap maxBlockSize, 0 < maxBlockSize →
      generatePqDataFromPivots blas codec toFloat val heap maxBlockSize d.bytes numCenters
        numPqChunks p.file = some file) ∧
    ∃ c, copyAlignedDataFromFile file = some c ∧ c.npts = d.npts ∧ c.dim = numPqChunks ∧
      c.returned = true ∧ ∀ malloc, ∀ i < d.npts.toNat, ∀ chunk < numPqChunks.toNat,
        let code := (c.data malloc (i * numPqChunks.toNat + chunk)).toNat
        (p.offset (chunk + 1) = p.offset chunk → code = 0) ∧
          (p.offset chunk < p.offset (chunk + 1) → 0 < numCenters.toNat →
            FirstLeast (pointDist toFloat val d p i chunk) numCenters.toNat code)

/-- Compression works point by point, with exact products and distances below the largest
`float`. -/
theorem compressesPointwise (blas : Blas K) (toFloat : α → K) (val : UInt32 → K)
    (d : DataFile codec) (p : PivotFile numCenters numPqChunks d.dim)
    (hmax : ∀ i < d.npts.toNat, ∀ chunk < numPqChunks.toNat, ∀ j < numCenters.toNat,
      pointDist toFloat val d p i chunk j < (floatMax : K)) :
    CompressesPointwise blas toFloat val d p := by
  refine ⟨codeFile d.npts numPqChunks (pointCodes toFloat val d p),
    fun heap maxBlockSize hblock => generatePqDataFromPivots_eq_some blas heap maxBlockSize hblock
      hmax, ?_⟩
  have hlen : (pointCodes toFloat val d p).length = d.npts.toNat * numPqChunks.toNat := by
    rw [pointCodes, List.length_map, List.length_range]
  obtain ⟨c, hcopy, hnpts, hdim, hreturned, hdata⟩ := copyAlignedDataFromFile_complete hlen
  refine ⟨c, hcopy, hnpts, hdim, hreturned, fun malloc i hi chunk hchunk => ?_⟩
  have hrow : (i + 1) * numPqChunks.toNat ≤ d.npts.toNat * numPqChunks.toNat :=
    Nat.mul_le_mul_right numPqChunks.toNat hi
  rw [Nat.succ_mul] at hrow
  have hlt : i * numPqChunks.toNat + chunk < (pointCodes toFloat val d p).length := by omega
  have hcode : (c.data malloc (i * numPqChunks.toNat + chunk)).toNat
      = pointCode toFloat val d p i chunk := by
    have hstand := stands_write malloc 0 (pointCodes toFloat val d p) _ hlt
    rw [Nat.zero_add] at hstand
    rw [hdata, hstand]
    simp only [pointCodes, List.getElem_map, List.getElem_range, row_of_index hchunk,
      col_of_index hchunk]
    exact toNat_toUInt8_ofNat (pointCode_lt (hmax i hi chunk hchunk))
  simp only [hcode]
  refine ⟨fun hempty => ?_, fun hsize hcenters =>
    firstLeast_pointCode hsize hcenters (hmax i hi chunk hchunk)⟩
  rw [pointCode, if_pos (by omega)]

end Pointwise

/-! ### Three points -/

section Bounded

variable {numCenters numPqChunks : UInt32} {d : DataFile Codec.uint8}
  {p : PivotFile numCenters numPqChunks d.dim}

/-- Words up to 255 are read as numbers up to 255. -/
lemma getD_map_toNat_mem {ws : List UInt32} (h : ∀ w ∈ ws, w.toNat ≤ 255) (a : ℕ) :
    0 ≤ (ws.map fun w => (w.toNat : ℝ)).getD a 0 ∧
      (ws.map fun w => (w.toNat : ℝ)).getD a 0 ≤ 255 := by
  rw [List.getD_eq_getElem?_getD, List.getElem?_map]
  cases hget : ws[a]? with
  | none => simp
  | some w =>
      have hle : (w.toNat : ℝ) ≤ 255 := by exact_mod_cast h w (List.mem_of_getElem? hget)
      exact ⟨Nat.cast_nonneg _, hle⟩

/-- The distances of bytes to pivots that are bytes too are small. -/
lemma pointDist_le (hcentroid : ∀ w ∈ p.centroid, w.toNat ≤ 255)
    (hpivots : ∀ w ∈ p.fullPivotData, w.toNat ≤ 255) (i chunk j : ℕ) :
    pointDist (fun x : UInt8 => (x.toNat : ℝ)) (fun w => (w.toNat : ℝ)) d p i chunk j
      ≤ (p.offset (chunk + 1) - p.offset chunk : ℕ) * 510 ^ 2 := by
  have hterm : ∀ e ∈ Finset.Ico (p.offset chunk) (p.offset (chunk + 1)),
      (((d.values.getD (i * d.dim.toNat + e) default).toNat : ℝ)
        - (p.centroid.map fun w => (w.toNat : ℝ)).getD e 0
        - (p.fullPivotData.map fun w => (w.toNat : ℝ)).getD (j * d.dim.toNat + e) 0) ^ 2
        ≤ 510 ^ 2 := by
    intro e _
    obtain ⟨hc0, hc⟩ := getD_map_toNat_mem hcentroid e
    obtain ⟨hp0, hp⟩ := getD_map_toNat_mem hpivots (j * d.dim.toNat + e)
    have hx : ((d.values.getD (i * d.dim.toNat + e) default).toNat : ℝ) ≤ 255 := by
      exact_mod_cast Nat.le_of_lt_succ (UInt8.toNat_lt _)
    have hx0 : (0 : ℝ) ≤ (d.values.getD (i * d.dim.toNat + e) default).toNat := Nat.cast_nonneg _
    exact sq_le_sq' (by linarith) (by linarith)
  calc pointDist (fun x : UInt8 => (x.toNat : ℝ)) (fun w => (w.toNat : ℝ)) d p i chunk j
      ≤ ∑ _e ∈ Finset.Ico (p.offset chunk) (p.offset (chunk + 1)), (510 : ℝ) ^ 2 :=
        Finset.sum_le_sum hterm
    _ = (p.offset (chunk + 1) - p.offset chunk : ℕ) * 510 ^ 2 := by
        rw [Finset.sum_const, Nat.card_Ico, nsmul_eq_mul]

end Bounded

/-- Three points of three coordinates. -/
def threePointsFile : DataFile Codec.uint8 where
  npts := 3
  dim := 3
  body := [7, 200, 16, 30, 4, 90, 255, 0, 128]
  npts_pos := Nat.succ_pos 2
  complete := le_rfl

/-- Pivots for two chunks, of which the first has two coordinates. -/
def rampPivots : PivotArrays 3 2 where
  fullPivotData := (List.range numPqCentroids).flatMap fun j =>
    [UInt32.ofNat j, UInt32.ofNat (255 - j), UInt32.ofNat (j / 2)]
  centroid := [1, 2, 3]
  chunkOffsets := [0, 2, 3]
  chunks_le := by decide
  length_fullPivotData := by decide +kernel
  length_centroid := rfl
  length_chunkOffsets := rfl

/-- The file of these pivots. -/
def rampPivotFile : PivotFile 256 2 threePointsFile.dim where
  file := File.empty.writes (pivotSections rampPivots)
  fullPivotData := rampPivots.fullPivotData
  centroid := rampPivots.centroid
  chunkOffsets := rampPivots.chunkOffsets
  load_eq := loadPivots_savePivots rampPivots (by decide)
  length_fullPivotData := length_pivots rampPivots (by decide)
  length_centroid := rfl
  cuts := ⟨rfl, rfl, by decide⟩
  numCenters_le := le_rfl

/-- The points are compressed one by one, in blocks of any size. -/
theorem compressesPointwise_threePoints : CompressesPointwise exactBlas
    (fun x : UInt8 => (x.toNat : ℝ)) (fun w => (w.toNat : ℝ)) threePointsFile rampPivotFile := by
  refine compressesPointwise exactBlas _ _ threePointsFile rampPivotFile
    fun i _ chunk hchunk j _ => ?_
  have hcentroid : ∀ w ∈ rampPivotFile.centroid, w.toNat ≤ 255 := by decide
  have hpivots : ∀ w ∈ rampPivotFile.fullPivotData, w.toNat ≤ 255 := by decide +kernel
  have hsize : ∀ chunk < 2, rampPivotFile.offset (chunk + 1) - rampPivotFile.offset chunk ≤ 2 := by
    decide
  have htwo : ((rampPivotFile.offset (chunk + 1) - rampPivotFile.offset chunk : ℕ) : ℝ) ≤ 2 := by
    exact_mod_cast hsize chunk hchunk
  have hle := pointDist_le hcentroid hpivots i chunk j
  rw [floatMax]
  push_cast
  linarith

end RedAnns
