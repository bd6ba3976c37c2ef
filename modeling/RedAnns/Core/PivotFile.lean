import RedAnns.Core.Pivots
import RedAnns.Lib.Files

/-!
The file of the pivots: the end of `generate_pq_pivots` and the two readers of `src/pq.cpp`.

The file has four sections, each a header of two 32-bit counts and the values they announce. The
directory at the front, which is written last, says where the other three start and where the last
of them ends.

* `saveBinStream`, `savePivots`, `loadBin`, `loadPqCentroidBin`, `loadPivots`: the source; a section
  is written when the array holds what the counts announce.
* `PivotArrays`: the arrays as `generate_pq_pivots` allocates them.
* `savePivots_eq`, `holds_pivotSections`: what the writer leaves in the file, section by section.
* `readsBack_iff`: both readers find what was written, for every number of chunks but zero and every
  dimension up to the one at which the size of the pivots leaves 32 bits.
-/

namespace RedAnns

/-! ### The writer -/

/-- `METADATA_SIZE`. -/
def metadataSize : UInt64 := 4096

/-- A stream on a file, with the sections that were written through it. -/
structure Fstream where
  file : File
  written : List (ℕ × List UInt8)

/-- The stream on a new file. -/
def Fstream.open : Fstream := ⟨File.empty, []⟩

section Bin

variable {α : Type*} (c : Codec α)

/-- The bytes of a section: both counts are cut to 32 bits. -/
def binSection (data : List α) (npts ndims : ℕ) : List UInt8 :=
  encodeNat 4 npts ++ encodeNat 4 ndims ++ c.encodeAll (data.take (npts * ndims))

/-- `save_bin_stream`: the stream and the number of bytes written; `none` when it reads behind the
end of the array. -/
def saveBinStream (writer : Fstream) (data : List α) (npts ndims : ℕ) (offset : UInt64) :
    Option (Fstream × UInt64) :=
  if npts * ndims ≤ data.length then
    some (⟨writer.file.write offset.toNat (binSection c data npts ndims),
        writer.written ++ [(offset.toNat, binSection c data npts ndims)]⟩,
      UInt64.ofNat (npts * ndims * c.size + 2 * 4))
  else none

/-- `load_bin`; `none` when a read fails and leaves the array as it was allocated. -/
def loadBin (file : File) (offset : ℕ) : Option (List α × ℕ × ℕ) :=
  (file.read offset 4).bind fun npts =>
    (file.read (offset + 4) 4).bind fun dim =>
      let npts := decodeNat npts
      let dim := decodeNat dim
      (file.read (offset + 8) (npts * dim * c.size)).map fun data =>
        (c.decodeAll (npts * dim) data, npts, dim)

end Bin

/-- The arrays as `generate_pq_pivots` has them in the end: the size of the pivots is a product of
two 32-bit numbers, and `chunk_offsets` has a first entry and a last one even for no chunk. -/
structure PivotArrays (dim numPqChunks : UInt32) where
  fullPivotData : List UInt32
  centroid : List UInt32
  chunkOffsets : List UInt32
  chunks_le : numPqChunks ≤ dim
  length_fullPivotData : fullPivotData.length = (UInt32.ofNat numPqCentroids * dim).toNat
  length_centroid : centroid.length = dim.toNat
  length_chunkOffsets : chunkOffsets.length = max numPqChunks.toNat 1 + 1

/-- The end of `generate_pq_pivots`: the stream, and `cumul_bytes`. -/
def savePivots {dim numPqChunks : UInt32} (p : PivotArrays dim numPqChunks) :
    Option (Fstream × List UInt64) := do
  let cumul0 := metadataSize
  let pivots ← saveBinStream Codec.uint32 Fstream.open p.fullPivotData numPqCentroids dim.toNat
    cumul0
  let cumul1 := cumul0 + pivots.2
  let centroid ← saveBinStream Codec.uint32 pivots.1 p.centroid dim.toNat 1 cumul1
  let cumul2 := cumul1 + centroid.2
  let chunkOffsets ← saveBinStream Codec.uint32 centroid.1 p.chunkOffsets p.chunkOffsets.length 1
    cumul2
  let cumul3 := cumul2 + chunkOffsets.2
  let cumulBytes := [cumul0, cumul1, cumul2, cumul3]
  let last ← saveBinStream Codec.uint64 chunkOffsets.1 cumulBytes cumulBytes.length 1 0
  return (last.1, cumulBytes)

/-! ### The readers -/

/-- The members of `FixedChunkPQTable` after a load, with the arrays as they are in memory. -/
structure LoadedTable where
  tables : List UInt32
  ndims : ℕ
  nChunks : UInt64
  chunkOffsets : List UInt32
  centroid : List UInt32
  tablesTr : Buffer UInt32

/-- The loop that transposes the pivots. -/
def transpose (tables : List UInt32) (ndims : ℕ) (heap : Buffer UInt32) : Buffer UInt32 :=
  (List.range numPqCentroids).foldl (fun m i => (List.range ndims).foldl
    (fun m j => Function.update m (j * numPqCentroids + i) (tables.getD (i * ndims + j) 0)) m) heap

/-- `load_pq_centroid_bin`, whose checks only print. -/
def loadPqCentroidBin (file : File) (heap : Buffer UInt32) : Option LoadedTable :=
  (loadBin Codec.uint64 file 0).bind fun fileOffsetData =>
    (loadBin Codec.uint32 file (fileOffsetData.1.getD 0 0).toNat).bind fun tables =>
      (loadBin Codec.uint32 file (fileOffsetData.1.getD 1 0).toNat).bind fun centroid =>
        (loadBin Codec.uint32 file (fileOffsetData.1.getD 2 0).toNat).map fun chunkOffsets =>
          { tables := tables.1
            ndims := tables.2.2
            nChunks := UInt64.ofNat chunkOffsets.2.1 - 1
            chunkOffsets := chunkOffsets.1
            centroid := centroid.1
            tablesTr := transpose tables.1 tables.2.2 heap }

/-- The pivots that `generate_pq_data_from_pivots` reads: the matrix, the centroid and the
offsets. -/
def loadPivots (file : File) : Option (List UInt32 × List UInt32 × List UInt32) :=
  (loadBin Codec.uint64 file 0).bind fun fileOffsetData =>
    (loadBin Codec.uint32 file (fileOffsetData.1.getD 0 0).toNat).bind fun fullPivotData =>
      (loadBin Codec.uint32 file (fileOffsetData.1.getD 1 0).toNat).bind fun centroid =>
        (loadBin Codec.uint32 file (fileOffsetData.1.getD 2 0).toNat).map fun chunkOffsets =>
          (fullPivotData.1, centroid.1, chunkOffsets.1)

/-! ### Sections -/

section Sections

variable {α : Type*} {c : Codec α} {data : List α} {npts ndims : ℕ} {f : File} {offset : ℕ}

lemma length_binSection (h : data.length = npts * ndims) :
    (binSection c data npts ndims).length = npts * ndims * c.size + 8 := by
  rw [binSection, List.take_of_length_le h.le, List.length_append, List.length_append,
    length_encodeNat, length_encodeNat, c.length_encodeAll, h]
  omega

/-- **A section reads back** when its counts fit in 32 bits. -/
theorem loadBin_of_holds (hf : f.Holds offset (binSection c data npts ndims))
    (hlen : data.length = npts * ndims) (hnpts : npts < 2 ^ 32) (hndims : ndims < 2 ^ 32) :
    loadBin c f offset = some (data, npts, ndims) := by
  rw [binSection, List.take_of_length_le hlen.le, File.holds_append, File.holds_append] at hf
  obtain ⟨⟨hnum, hdim⟩, hdata⟩ := hf
  rw [List.length_append, length_encodeNat, length_encodeNat] at hdata
  rw [length_encodeNat] at hdim
  have hbytes : (c.encodeAll data).length = npts * ndims * c.size := by
    rw [c.length_encodeAll, hlen]
  rw [loadBin, hnum.read_of_length (length_encodeNat 4 npts), Option.bind_some,
    hdim.read_of_length (length_encodeNat 4 ndims), Option.bind_some]
  simp only [decodeNat_encodeNat (show npts < 256 ^ 4 by omega),
    decodeNat_encodeNat (show ndims < 256 ^ 4 by omega)]
  rw [hdata.read_of_length hbytes, Option.map_some, ← hlen, c.decodeAll_encodeAll]

/-- A section of an array that holds what the counts announce. -/
lemma saveBinStream_of_length (writer : Fstream) (h : npts * ndims ≤ data.length)
    (offset : UInt64) : saveBinStream c writer data npts ndims offset
      = some (⟨writer.file.write offset.toNat (binSection c data npts ndims),
          writer.written ++ [(offset.toNat, binSection c data npts ndims)]⟩,
        UInt64.ofNat (npts * ndims * c.size + 2 * 4)) := if_pos h

end Sections

/-! ### What the writer leaves -/

section Saved

variable {dim numPqChunks : UInt32}

/-- Where the sections start, as numbers. -/
def pivotsStart : ℕ := 4096

def centroidStart (dim : UInt32) : ℕ := pivotsStart + (numPqCentroids * dim.toNat * 4 + 8)

def offsetsStart (dim : UInt32) : ℕ := centroidStart dim + (dim.toNat * 4 + 8)

def fileEnd (dim numPqChunks : UInt32) : ℕ :=
  offsetsStart dim + ((max numPqChunks.toNat 1 + 1) * 4 + 8)

/-- The directory. -/
def directory (dim numPqChunks : UInt32) : List UInt64 :=
  [UInt64.ofNat pivotsStart, UInt64.ofNat (centroidStart dim), UInt64.ofNat (offsetsStart dim),
    UInt64.ofNat (fileEnd dim numPqChunks)]

/-- The sections in the order in which they are written. -/
def pivotSections (p : PivotArrays dim numPqChunks) : List (ℕ × List UInt8) :=
  [(pivotsStart, binSection Codec.uint32 p.fullPivotData numPqCentroids dim.toNat),
    (centroidStart dim, binSection Codec.uint32 p.centroid dim.toNat 1),
    (offsetsStart dim, binSection Codec.uint32 p.chunkOffsets p.chunkOffsets.length 1),
    (0, binSection Codec.uint64 (directory dim numPqChunks) 4 1)]

lemma fileEnd_lt (dim numPqChunks : UInt32) : fileEnd dim numPqChunks < 2 ^ 64 := by
  have hdim := dim.toNat_lt
  have hchunks := numPqChunks.toNat_lt
  rw [fileEnd, offsetsStart, centroidStart, pivotsStart, numPqCentroids]
  omega

lemma toNat_centroidStart (dim : UInt32) :
    (UInt64.ofNat (centroidStart dim)).toNat = centroidStart dim := by
  have hlt := fileEnd_lt dim 0
  rw [fileEnd, offsetsStart] at hlt
  exact UInt64.toNat_ofNat_of_lt' (by omega : centroidStart dim < 2 ^ 64)

lemma toNat_offsetsStart (dim : UInt32) :
    (UInt64.ofNat (offsetsStart dim)).toNat = offsetsStart dim := by
  have hlt := fileEnd_lt dim 0
  rw [fileEnd] at hlt
  exact UInt64.toNat_ofNat_of_lt' (by omega : offsetsStart dim < 2 ^ 64)

/-- The size of the pivots is the product of the counts exactly when it fits in 32 bits. -/
lemma whole_iff (p : PivotArrays dim numPqChunks) :
    numPqCentroids * dim.toNat ≤ p.fullPivotData.length ↔ dim.toNat < 2 ^ 24 := by
  have hcenters : (UInt32.ofNat numPqCentroids).toNat = 256 := rfl
  have hlen := p.length_fullPivotData
  rw [UInt32.toNat_mul, hcenters] at hlen
  rw [hlen, numPqCentroids]
  omega

/-- Pivots that are too many for the buffer are not written. -/
lemma savePivots_eq_none (p : PivotArrays dim numPqChunks) (h : 2 ^ 24 ≤ dim.toNat) :
    savePivots p = none := by
  rw [savePivots, saveBinStream, if_neg fun hle => ((whole_iff p).mp hle).not_ge h]
  rfl

variable (p : PivotArrays dim numPqChunks) (hdim : dim.toNat < 2 ^ 24)
include hdim

lemma length_pivots : p.fullPivotData.length = numPqCentroids * dim.toNat := by
  have hle := (whole_iff p).mpr hdim
  have hlen := p.length_fullPivotData
  have hcenters : (UInt32.ofNat numPqCentroids).toNat = 256 := rfl
  rw [UInt32.toNat_mul, hcenters] at hlen
  rw [numPqCentroids] at hle ⊢
  omega

/-- **The writer** writes these sections and this directory. -/
theorem savePivots_eq : savePivots p =
    some (⟨File.empty.writes (pivotSections p), pivotSections p⟩, directory dim numPqChunks) := by
  have hstart : metadataSize = UInt64.ofNat pivotsStart := rfl
  have h1 : metadataSize + UInt64.ofNat (numPqCentroids * dim.toNat * 4 + 2 * 4)
      = UInt64.ofNat (centroidStart dim) := by
    rw [hstart, ← UInt64.ofNat_add, centroidStart]
  have h2 : UInt64.ofNat (centroidStart dim) + UInt64.ofNat (dim.toNat * 1 * 4 + 2 * 4)
      = UInt64.ofNat (offsetsStart dim) := by
    rw [← UInt64.ofNat_add, offsetsStart, Nat.mul_one]
  have h3 : UInt64.ofNat (offsetsStart dim)
        + UInt64.ofNat ((max numPqChunks.toNat 1 + 1) * 1 * 4 + 2 * 4)
      = UInt64.ofNat (fileEnd dim numPqChunks) := by
    rw [← UInt64.ofNat_add, fileEnd, Nat.mul_one]
  have hpivots : numPqCentroids * dim.toNat ≤ p.fullPivotData.length := (whole_iff p).mpr hdim
  have hcentroid : dim.toNat * 1 ≤ p.centroid.length := by rw [p.length_centroid, Nat.mul_one]
  have hoffsets : (max numPqChunks.toNat 1 + 1) * 1 ≤ p.chunkOffsets.length := by
    rw [p.length_chunkOffsets, Nat.mul_one]
  have hsize : Codec.uint32.size = 4 := rfl
  rw [savePivots, saveBinStream_of_length _ hpivots, Option.bind_eq_bind, Option.bind_some]
  simp only [saveBinStream_of_length _ hcentroid, saveBinStream_of_length _ hoffsets,
    Option.bind_some, hsize, p.length_chunkOffsets, h1, h2, h3]
  rw [saveBinStream_of_length _ (by rw [List.length_cons]; rfl), pivotSections,
    p.length_chunkOffsets, toNat_centroidStart, toNat_offsetsStart]
  rfl

omit hdim in
lemma length_directory (dim numPqChunks : UInt32) :
    (directory dim numPqChunks).length = 4 * 1 := rfl

/-- The sections lie one behind the other, behind the directory. -/
lemma pairwise_apart : (pivotSections p).Pairwise File.Apart := by
  have hpivots := length_binSection (c := Codec.uint32) (length_pivots p hdim)
  have hcentroid := length_binSection (c := Codec.uint32)
    (p.length_centroid.trans (Nat.mul_one dim.toNat).symm)
  have hoffsets := length_binSection (c := Codec.uint32) (Nat.mul_one p.chunkOffsets.length).symm
  have hdirectory := length_binSection (c := Codec.uint64) (length_directory dim numPqChunks)
  have hsize : Codec.uint32.size = 4 := rfl
  have hsize' : Codec.uint64.size = 8 := rfl
  rw [hsize] at hpivots hcentroid hoffsets
  rw [hsize'] at hdirectory
  have hpos : pivotsStart = 4096 := rfl
  have hcentroidStart : centroidStart dim
      = pivotsStart + (numPqCentroids * dim.toNat * 4 + 8) := rfl
  have hoffsetsStart : offsetsStart dim = centroidStart dim + (dim.toNat * 4 + 8) := rfl
  simp only [pivotSections, List.pairwise_cons, List.mem_cons, List.not_mem_nil, or_false,
    forall_eq_or_imp, forall_eq, File.Apart, hpivots, hcentroid, hoffsets, hdirectory]
  refine ⟨⟨?_, ?_, ?_⟩, ⟨?_, ?_⟩, ?_, fun _ h => h.elim, List.Pairwise.nil⟩ <;> omega

/-- Every section is in the file. -/
lemma holds_pivotSections {off : ℕ} {bs : List UInt8} (h : (off, bs) ∈ pivotSections p) :
    (File.empty.writes (pivotSections p)).Holds off bs :=
  File.holds_writes (pairwise_apart p hdim) h

/-- The directory is read from the front of the file. -/
lemma loadBin_directory : loadBin Codec.uint64 (File.empty.writes (pivotSections p)) 0
    = some (directory dim numPqChunks, 4, 1) :=
  loadBin_of_holds (holds_pivotSections p hdim (by simp [pivotSections]))
    (length_directory dim numPqChunks) (by norm_num) (by norm_num)

lemma loadBin_pivots : loadBin Codec.uint32 (File.empty.writes (pivotSections p))
      ((directory dim numPqChunks).getD 0 0).toNat
    = some (p.fullPivotData, numPqCentroids, dim.toNat) := by
  have hstart : ((directory dim numPqChunks).getD 0 0).toNat = pivotsStart := rfl
  rw [hstart]
  exact loadBin_of_holds (holds_pivotSections p hdim (by simp [pivotSections]))
    (length_pivots p hdim) (by norm_num [numPqCentroids]) dim.toNat_lt

lemma loadBin_centroid : loadBin Codec.uint32 (File.empty.writes (pivotSections p))
      ((directory dim numPqChunks).getD 1 0).toNat = some (p.centroid, dim.toNat, 1) := by
  have hstart : ((directory dim numPqChunks).getD 1 0).toNat = centroidStart dim :=
    toNat_centroidStart dim
  rw [hstart]
  exact loadBin_of_holds (holds_pivotSections p hdim (by simp [pivotSections]))
    (p.length_centroid.trans (Nat.mul_one dim.toNat).symm) dim.toNat_lt (by norm_num)

lemma loadBin_offsets : loadBin Codec.uint32 (File.empty.writes (pivotSections p))
      ((directory dim numPqChunks).getD 2 0).toNat
    = some (p.chunkOffsets, max numPqChunks.toNat 1 + 1, 1) := by
  have hstart : ((directory dim numPqChunks).getD 2 0).toNat = offsetsStart dim :=
    toNat_offsetsStart dim
  have hle : numPqChunks.toNat ≤ dim.toNat := p.chunks_le
  rw [hstart, ← p.length_chunkOffsets]
  refine loadBin_of_holds (holds_pivotSections p hdim (by simp [pivotSections]))
    (Nat.mul_one p.chunkOffsets.length).symm ?_ (by norm_num)
  rw [p.length_chunkOffsets]
  omega

end Saved

/-! ### The transpose -/

/-- Column `i` of the transpose. -/
lemma foldl_column (tables : List UInt32) (ndims i : ℕ) (m : Buffer UInt32) {i' j : ℕ}
    (hi : i < numPqCentroids) (hi' : i' < numPqCentroids) (n : ℕ) :
    (List.range n).foldl (fun m j => Function.update m (j * numPqCentroids + i)
        (tables.getD (i * ndims + j) 0)) m (j * numPqCentroids + i')
      = if i' = i ∧ j < n then tables.getD (i * ndims + j) 0 else m (j * numPqCentroids + i') := by
  rw [numPqCentroids] at *
  induction n with
  | zero => rw [if_neg (by omega)]; rfl
  | succ n ih =>
      rw [List.range_succ, List.foldl_append, List.foldl_cons, List.foldl_nil]
      by_cases hat : i' = i ∧ j = n
      · obtain ⟨rfl, rfl⟩ := hat
        rw [Function.update_self, if_pos ⟨rfl, Nat.lt_succ_self j⟩]
      · rw [Function.update_of_ne (by omega), ih]
        exact if_congr (by omega) rfl rfl

/-- **The transpose**: entry `i` of row `j` is coordinate `j` of pivot `i`. -/
theorem transpose_apply (tables : List UInt32) (ndims : ℕ) (heap : Buffer UInt32) {i j : ℕ}
    (hi : i < numPqCentroids) (hj : j < ndims) :
    transpose tables ndims heap (j * numPqCentroids + i) = tables.getD (i * ndims + j) 0 := by
  have key : ∀ n ≤ numPqCentroids, i < n → (List.range n).foldl (fun m i =>
      (List.range ndims).foldl (fun m j => Function.update m (j * numPqCentroids + i)
        (tables.getD (i * ndims + j) 0)) m) heap (j * numPqCentroids + i)
      = tables.getD (i * ndims + j) 0 := by
    intro n
    induction n with
    | zero => exact fun _ h => absurd h (Nat.not_lt_zero i)
    | succ n ih =>
        intro hn hlt
        rw [List.range_succ, List.foldl_append, List.foldl_cons, List.foldl_nil,
          foldl_column tables ndims n _ (by omega) hi]
        rcases eq_or_lt_of_le (Nat.le_of_lt_succ hlt) with rfl | hlt
        · rw [if_pos ⟨rfl, hj⟩]
        · rw [if_neg (by omega), ih (by omega) hlt]
  exact key numPqCentroids le_rfl hi

section Table

variable {K : Type*} [Field K]

/-- The table of the lookups, from a loaded one whose offsets cut the dimensions. -/
def LoadedTable.table (val : UInt32 → K) (t : LoadedTable)
    (h : Cuts (t.chunkOffsets.map UInt32.toNat) t.nChunks.toNat t.ndims) : FixedChunkPQTable K where
  tables := t.tables.map val
  ndims := t.ndims
  nChunks := t.nChunks.toNat
  chunkOffsets := t.chunkOffsets.map UInt32.toNat
  centroid := t.centroid.map val
  first_eq := h.first_eq
  last_eq := h.last_eq
  mono := h.mono

/-- **A loaded table has the transposed pivots** that the lookups read. -/
theorem LoadedTable.tablesTr_table {file : File} {heap : Buffer UInt32} {t : LoadedTable}
    (hload : loadPqCentroidBin file heap = some t) (val : UInt32 → K)
    (h : Cuts (t.chunkOffsets.map UInt32.toNat) t.nChunks.toNat t.ndims)
    (hsize : numPqCentroids * t.ndims ≤ t.tables.length) {i j : ℕ} (hi : i < numPqCentroids)
    (hj : j < t.ndims) :
    (t.table val h).tablesTr j i = val (t.tablesTr (j * numPqCentroids + i)) := by
  have htr : t.tablesTr = transpose t.tables t.ndims heap := by
    rw [loadPqCentroidBin] at hload
    obtain ⟨dir, -, hload⟩ := Option.bind_eq_some_iff.mp hload
    obtain ⟨tables, -, hload⟩ := Option.bind_eq_some_iff.mp hload
    obtain ⟨centroid, -, hload⟩ := Option.bind_eq_some_iff.mp hload
    obtain ⟨offsets, -, rfl⟩ := Option.map_eq_some_iff.mp hload
    dsimp only
  have hrow : (i + 1) * t.ndims ≤ numPqCentroids * t.ndims := Nat.mul_le_mul_right t.ndims hi
  rw [Nat.succ_mul] at hrow
  have hlt : i * t.ndims + j < t.tables.length := by omega
  have hentry : t.tablesTr (j * numPqCentroids + i) = t.tables.getD (i * t.ndims + j) 0 := by
    rw [htr]
    exact transpose_apply t.tables t.ndims heap hi hj
  have hval : (t.tables.map val).getD (i * t.ndims + j) 0
      = val (t.tables.getD (i * t.ndims + j) 0) := by
    simp [List.getD_eq_getElem?_getD, hlt]
  rw [hentry]
  exact hval

end Table

/-! ### The round trip -/

section RoundTrip

variable {dim numPqChunks : UInt32}

/-- **What is asked of the written file**: its sections are apart, the directory says where they
are, and both readers find the arrays that were written. -/
structure Saved (p : PivotArrays dim numPqChunks) (writer : Fstream) (cumulBytes : List UInt64) :
    Prop where
  sections : writer.written.length = 4
  apart : writer.written.Pairwise File.Apart
  directory : loadBin Codec.uint64 writer.file 0 = some (cumulBytes, 4, 1)
  starts : ∀ k < 3, (cumulBytes.getD k 0).toNat = (writer.written.getD k (0, [])).1
  table : ∀ heap, ∃ t, loadPqCentroidBin writer.file heap = some t ∧
    t.ndims = dim.toNat ∧ t.nChunks.toNat = numPqChunks.toNat ∧ t.tables = p.fullPivotData ∧
    t.centroid = p.centroid ∧ t.chunkOffsets = p.chunkOffsets ∧
    ∀ i < numPqCentroids, ∀ j < dim.toNat,
      t.tablesTr (j * numPqCentroids + i) = p.fullPivotData.getD (i * dim.toNat + j) 0
  pivots : loadPivots writer.file = some (p.fullPivotData, p.centroid, p.chunkOffsets)

/-- **The file reads back**: the arrays are written, and found again. -/
def ReadsBack (p : PivotArrays dim numPqChunks) : Prop :=
  ∃ writer cumulBytes, savePivots p = some (writer, cumulBytes) ∧ Saved p writer cumulBytes

variable (p : PivotArrays dim numPqChunks)

lemma loadPivots_savePivots (hdim : dim.toNat < 2 ^ 24) :
    loadPivots (File.empty.writes (pivotSections p))
      = some (p.fullPivotData, p.centroid, p.chunkOffsets) := by
  simp only [loadPivots, loadBin_directory p hdim, Option.bind_some, loadBin_pivots p hdim,
    loadBin_centroid p hdim, loadBin_offsets p hdim, Option.map_some]

/-- The table that is loaded: it has a chunk even where none was asked for. -/
lemma loadPqCentroidBin_savePivots (hdim : dim.toNat < 2 ^ 24) (heap : Buffer UInt32) :
    ∃ t, loadPqCentroidBin (File.empty.writes (pivotSections p)) heap = some t ∧
      t.ndims = dim.toNat ∧ t.nChunks.toNat = max numPqChunks.toNat 1 ∧
      t.tables = p.fullPivotData ∧ t.centroid = p.centroid ∧ t.chunkOffsets = p.chunkOffsets ∧
      ∀ i < numPqCentroids, ∀ j < dim.toNat,
        t.tablesTr (j * numPqCentroids + i) = p.fullPivotData.getD (i * dim.toNat + j) 0 := by
  have hlt := numPqChunks.toNat_lt
  have hchunks : (UInt64.ofNat (max numPqChunks.toNat 1 + 1) - 1).toNat
      = max numPqChunks.toNat 1 := by
    rw [UInt64.ofNat_add]
    have hone : UInt64.ofNat 1 = 1 := rfl
    rw [hone, UInt64.add_sub_cancel]
    exact UInt64.toNat_ofNat_of_lt' (by omega : max numPqChunks.toNat 1 < 2 ^ 64)
  refine ⟨⟨p.fullPivotData, dim.toNat, UInt64.ofNat (max numPqChunks.toNat 1 + 1) - 1,
    p.chunkOffsets, p.centroid, transpose p.fullPivotData dim.toNat heap⟩, ?_, rfl, hchunks, rfl,
    rfl, rfl, ?_⟩
  · simp only [loadPqCentroidBin, loadBin_directory p hdim, Option.bind_some,
      loadBin_pivots p hdim, loadBin_centroid p hdim, loadBin_offsets p hdim, Option.map_some]
  · intro i hi j hj
    simp only [transpose_apply p.fullPivotData dim.toNat heap hi hj]

lemma saved_savePivots (hpos : 0 < numPqChunks.toNat) (hdim : dim.toNat < 2 ^ 24) :
    Saved p ⟨File.empty.writes (pivotSections p), pivotSections p⟩ (directory dim numPqChunks) where
  sections := rfl
  apart := pairwise_apart p hdim
  directory := loadBin_directory p hdim
  starts := fun k hk => by
    interval_cases k
    · rfl
    · exact toNat_centroidStart dim
    · exact toNat_offsetsStart dim
  table := fun heap => by
    obtain ⟨t, ht, hdims, hchunks, hrest⟩ := loadPqCentroidBin_savePivots p hdim heap
    rw [max_eq_left (Nat.one_le_of_lt hpos)] at hchunks
    exact ⟨t, ht, hdims, hchunks, hrest⟩
  pivots := loadPivots_savePivots p hdim

/-- **When the pivot file reads back what was written**: there is a chunk, and the number of pivot
coordinates fits in the 32 bits in which the buffer is sized. -/
theorem readsBack_iff : ReadsBack p ↔ 0 < numPqChunks.toNat ∧ dim.toNat < 2 ^ 24 := by
  constructor
  · rintro ⟨writer, cumulBytes, hsave, hsaved⟩
    have hdim : dim.toNat < 2 ^ 24 := by
      by_contra hge
      rw [savePivots_eq_none p (not_lt.mp hge)] at hsave
      exact absurd hsave (by simp)
    rw [savePivots_eq p hdim] at hsave
    obtain ⟨rfl, rfl⟩ := Prod.mk.inj (Option.some.inj hsave)
    -- one chunk is read even if none was written
    obtain ⟨t, ht, -, hchunks, -⟩ := hsaved.table fun _ => 0
    obtain ⟨t', ht', -, hchunks', -⟩ := loadPqCentroidBin_savePivots p hdim fun _ => 0
    obtain rfl : t = t' := Option.some.inj (ht.symm.trans ht')
    exact ⟨by omega, hdim⟩
  · rintro ⟨hpos, hdim⟩
    exact ⟨_, _, savePivots_eq p hdim, saved_savePivots p hpos hdim⟩

end RoundTrip

/-- The arrays of one chunk, for as many dimensions as make the size of the pivots wrap to zero. -/
def wrappedArrays : PivotArrays 16777216 1 where
  fullPivotData := []
  centroid := List.replicate 16777216 0
  chunkOffsets := [0, 16777216]
  chunks_le := by decide
  length_fullPivotData := by decide
  length_centroid := List.length_replicate
  length_chunkOffsets := by decide

/-- Their pivots are not even written. -/
theorem not_readsBack_wrappedArrays : ¬ ReadsBack wrappedArrays := by
  rintro ⟨writer, cumulBytes, hsave, -⟩
  rw [savePivots_eq_none wrappedArrays (by decide)] at hsave
  exact absurd hsave (by simp)

end RedAnns
