import RedAnns.Core.Compress

/-!
The buffered reader of `include/efanna2e/cached_io.h`, through which `generate_pq_data_from_pivots`
reads its data file.

* `CachedIfstream`: the reader; `Unread`: its invariant, with the bytes that it has not given out.
* `ReadsAs`: a reader gives out the bytes of a stream; `readsAs_cachedIfstream`.
* `readAll_cachedIfstream`: any sequence of reads, with any size of the cache.
* `generatePqDataFromPivots_cached`: the file of codes does not depend on the size of the cache.
-/

namespace RedAnns

/-! ### The source -/

/-- `cached_ifstream`: the file, the position in it, and the cache with the offset of the next
byte. -/
structure CachedIfstream where
  file : List UInt8
  pos : ℕ
  cacheSize : ℕ
  cacheBuf : List UInt8
  curOff : ℕ

namespace CachedIfstream

/-- `reader.read`, which throws at the end of the file. -/
def readFile (r : CachedIfstream) (n : ℕ) : Option (List UInt8 × CachedIfstream) :=
  (takeExact n (r.file.drop r.pos)).map fun read => (read.1, { r with pos := r.pos + n })

/-- The constructor: the cache is filled. -/
def new (file : List UInt8) (cacheSize : ℕ) : Option CachedIfstream :=
  if cacheSize = 0 then none
  else
    let cacheSize := min cacheSize file.length
    (readFile ⟨file, 0, cacheSize, [], 0⟩ cacheSize).map fun read =>
      { read.2 with cacheBuf := read.1 }

/-- The end of `read`: the cache is filled again if there are bytes enough for it. -/
def refill (r : CachedIfstream) : Option CachedIfstream :=
  let sizeLeft := r.file.length - r.pos
  if r.cacheSize ≤ sizeLeft then
    (r.readFile r.cacheSize).map fun read => { read.2 with cacheBuf := read.1, curOff := 0 }
  else some r

/-- `read`. -/
def read (n : ℕ) (r : CachedIfstream) : Option (List UInt8 × CachedIfstream) :=
  if n ≤ r.cacheSize - r.curOff then
    some ((r.cacheBuf.drop r.curOff).take n, { r with curOff := r.curOff + n })
  else
    let cachedBytes := r.cacheSize - r.curOff
    (r.readFile (n - cachedBytes)).bind fun read =>
      (refill { read.2 with curOff := r.cacheSize }).map fun r' =>
        ((r.cacheBuf.drop r.curOff).take cachedBytes ++ read.1, r')

end CachedIfstream

/-! ### Readers -/

section Readers

variable {ρ : Type*} {read : ℕ → ρ → Option (List UInt8 × ρ)} {R : ρ → List UInt8 → Prop}

/-- What some reads return, up to the first that fails. -/
def readAll (read : ℕ → ρ → Option (List UInt8 × ρ)) : List ℕ → ρ → List (Option (List UInt8))
  | [], _ => []
  | n :: sizes, r =>
      match read n r with
      | none => [none]
      | some (bytes, r') => some bytes :: readAll read sizes r'

/-- **A reader gives out the bytes of a stream**, and fails where the stream ends. -/
structure ReadsAs (read : ℕ → ρ → Option (List UInt8 × ρ)) (R : ρ → List UInt8 → Prop) : Prop where
  fails : ∀ {r bs} n, R r bs → takeExact n bs = none → read n r = none
  reads : ∀ {r bs as cs} n, R r bs → takeExact n bs = some (as, cs) →
    ∃ r', read n r = some (as, r') ∧ R r' cs

lemma ReadsAs.readAll_eq (h : ReadsAs read R) {r : ρ} {bs : List UInt8} (hr : R r bs)
    (sizes : List ℕ) : readAll read sizes r = readAll takeExact sizes bs := by
  induction sizes generalizing r bs with
  | nil => rfl
  | cons n sizes ih =>
      rw [readAll, readAll]
      cases htake : takeExact n bs with
      | none => rw [h.fails n hr htake]
      | some p =>
          obtain ⟨r', hread, hr'⟩ := h.reads n hr htake
          rw [hread]
          exact congrArg (some p.1 :: ·) (ih hr')

end Readers

/-! ### The buffered reader -/

namespace CachedIfstream

/-- **The invariant of the reader**: what is left in its cache stands in the file before its
position, and it is followed by the rest of the file. -/
structure Unread (r : CachedIfstream) (bs : List UInt8) : Prop where
  length_cacheBuf : r.cacheBuf.length = r.cacheSize
  curOff_le : r.curOff ≤ r.cacheSize
  eq : bs = r.cacheBuf.drop r.curOff ++ r.file.drop r.pos

variable {r : CachedIfstream}

lemma readFile_of_le {n : ℕ} (h : n ≤ (r.file.drop r.pos).length) :
    r.readFile n = some ((r.file.drop r.pos).take n, { r with pos := r.pos + n }) := by
  rw [readFile, takeExact, if_pos h]
  rfl

lemma readFile_of_lt {n : ℕ} (h : (r.file.drop r.pos).length < n) : r.readFile n = none := by
  rw [readFile, takeExact, if_neg (Nat.not_le_of_lt h)]
  rfl

lemma read_of_lt {n : ℕ} (h : r.cacheSize - r.curOff < n) :
    r.read n = (r.readFile (n - (r.cacheSize - r.curOff))).bind fun read =>
      (refill { read.2 with curOff := r.cacheSize }).map fun r' =>
        ((r.cacheBuf.drop r.curOff).take (r.cacheSize - r.curOff) ++ read.1, r') :=
  if_neg (Nat.not_le_of_lt h)

lemma unread_new (file : List UInt8) {cacheSize : ℕ} (hcache : 0 < cacheSize) :
    ∃ r, new file cacheSize = some r ∧ r.Unread file := by
  have hle : min cacheSize file.length ≤ (file.drop 0).length := min_le_right _ _
  refine ⟨⟨file, 0 + min cacheSize file.length, min cacheSize file.length,
    (file.drop 0).take (min cacheSize file.length), 0⟩, ?_, ?_, Nat.zero_le _, ?_⟩
  · rw [new, if_neg (Nat.ne_of_gt hcache)]
    exact congrArg (Option.map _) (readFile_of_le hle)
  · show ((file.drop 0).take (min cacheSize file.length)).length = min cacheSize file.length
    rw [List.length_take, min_eq_left hle]
  · show file = ((file.drop 0).take _).drop 0 ++ file.drop (0 + _)
    rw [List.drop_zero, List.drop_zero, Nat.zero_add, List.take_append_drop]

/-- Whether the cache is filled again or not, the bytes are those of the file. -/
lemma unread_refill (hlen : r.cacheBuf.length = r.cacheSize) (hoff : r.curOff = r.cacheSize) :
    ∃ r', r.refill = some r' ∧ r'.Unread (r.file.drop r.pos) := by
  by_cases hleft : r.cacheSize ≤ r.file.length - r.pos
  · have hle : r.cacheSize ≤ (r.file.drop r.pos).length := by rwa [List.length_drop]
    refine ⟨{ r with
      pos := r.pos + r.cacheSize
      cacheBuf := (r.file.drop r.pos).take r.cacheSize
      curOff := 0 }, ?_, ?_, Nat.zero_le _, ?_⟩
    · rw [refill, if_pos hleft, readFile_of_le hle]
      rfl
    · show ((r.file.drop r.pos).take r.cacheSize).length = r.cacheSize
      rw [List.length_take, min_eq_left hle]
    · show _ = ((r.file.drop r.pos).take r.cacheSize).drop 0 ++ r.file.drop (r.pos + r.cacheSize)
      rw [List.drop_zero, ← List.drop_drop, List.take_append_drop]
  · refine ⟨r, by rw [refill, if_neg hleft], hlen, hoff.le, ?_⟩
    rw [List.drop_eq_nil_of_le (by omega : r.cacheBuf.length ≤ r.curOff), List.nil_append]

/-- **The buffered reader gives out the bytes of its file.** -/
theorem readsAs_cachedIfstream : ReadsAs read Unread where
  fails {r bs} n hr htake := by
    have hlen : bs.length = r.cacheSize - r.curOff + (r.file.drop r.pos).length := by
      rw [hr.eq, List.length_append, List.length_drop, hr.length_cacheBuf]
    rw [takeExact, ite_eq_right_iff] at htake
    have hlt : bs.length < n := not_le.mp fun hle => absurd (htake hle) (Option.some_ne_none _)
    rw [read_of_lt (by omega), readFile_of_lt (by omega), Option.bind_none]
  reads {r bs as cs} n hr htake := by
    have hcur := hr.curOff_le
    have hlen : (r.cacheBuf.drop r.curOff).length = r.cacheSize - r.curOff := by
      rw [List.length_drop, hr.length_cacheBuf]
    rw [takeExact, hr.eq, List.length_append, hlen] at htake
    split_ifs at htake with hle
    rw [Option.some.injEq, Prod.mk.injEq, List.take_append, List.drop_append, hlen] at htake
    obtain ⟨rfl, rfl⟩ := htake
    by_cases hcached : n ≤ r.cacheSize - r.curOff
    · -- the cache has all the bytes
      refine ⟨{ r with curOff := r.curOff + n }, ?_, hr.length_cacheBuf, ?_, ?_⟩
      · rw [read, if_pos hcached, Nat.sub_eq_zero_of_le hcached, List.take_zero, List.append_nil]
      · show r.curOff + n ≤ r.cacheSize
        omega
      · show _ = r.cacheBuf.drop (r.curOff + n) ++ r.file.drop r.pos
        rw [Nat.sub_eq_zero_of_le hcached, List.drop_zero, List.drop_drop]
    · -- the cache is used up, and the file has the others
      have hrest : n - (r.cacheSize - r.curOff) ≤ (r.file.drop r.pos).length := by omega
      obtain ⟨r', hrefill, hr'⟩ := unread_refill
        (r := { r with pos := r.pos + (n - (r.cacheSize - r.curOff)), curOff := r.cacheSize })
        hr.length_cacheBuf rfl
      refine ⟨r', ?_, ?_⟩
      · rw [read_of_lt (by omega), readFile_of_le hrest, Option.bind_some, hrefill, Option.map_some,
          List.take_of_length_le (by omega : _ ≤ r.cacheSize - r.curOff),
          List.take_of_length_le (by omega : _ ≤ n)]
      · rw [List.drop_eq_nil_of_le (by omega : _ ≤ n), List.nil_append, List.drop_drop]
        exact hr'

/-- **Reads through a cache**: whatever its size, any sequence of reads returns the bytes of the
file in their order, and the first read that would go beyond its end fails. -/
theorem readAll_cachedIfstream (file : List UInt8) {cacheSize : ℕ} (hcache : 0 < cacheSize)
    (sizes : List ℕ) :
    (new file cacheSize).map (readAll read sizes) = some (readAll takeExact sizes file) := by
  obtain ⟨r, hnew, hr⟩ := unread_new file hcache
  rw [hnew, Option.map_some, readsAs_cachedIfstream.readAll_eq hr]

/-- A cache of four bytes over a file of nine; the last read fails. -/
theorem readAll_nine :
    (new [1, 2, 3, 4, 5, 6, 7, 8, 9] 4).map (readAll read [3, 2, 0, 3, 1, 1])
      = some [some [1, 2, 3], some [4, 5], some [], some [6, 7, 8], some [9], none] :=
  readAll_cachedIfstream [1, 2, 3, 4, 5, 6, 7, 8, 9] (Nat.succ_pos 3) [3, 2, 0, 3, 1, 1]

end CachedIfstream

/-! ### The compression through a reader -/

section Compress

variable {α K ρ : Type*} [Inhabited α] [Field K] [LinearOrder K]
  (read : ℕ → ρ → Option (List UInt8 × ρ)) (job : Compression α K)

/-- The number of bytes of a block. -/
def Compression.blockLength (block : ℕ) : ℕ :=
  job.codec.size * ((min ((block + 1) * job.blockSize) job.numPoints - block * job.blockSize)
    * job.dim)

/-- One block, whose bytes are read first. -/
def Compression.compressBlockFrom (s : BlockState α K × ρ) (block : ℕ) :
    Option (BlockState α K × ρ) :=
  (read (job.blockLength block) s.2).bind fun p =>
    (job.compressBlock { s.1 with rest := p.1 } block).map fun s' => (s', p.2)

/-- The loop over blocks. -/
def Compression.runFrom (baseReader : ρ) : Option (BlockState α K × ρ) :=
  (List.range (divRoundUp job.numPoints job.blockSize)).foldlM (job.compressBlockFrom read)
    (⟨[], fun _ => default, fun _ => 0, fun _ => 0, fun _ => 0, []⟩, baseReader)

/-- The compression that a header and the pivots ask for. -/
def compressionFor (blas : Blas K) (codec : Codec α) (toFloat : α → K) (val : UInt32 → K)
    (heap : ℕ → ℕ → Heap K) (maxBlockSize : ℕ) (npts32 basedim32 : List UInt8)
    (numCenters numPqChunks : UInt32) (pivots : List UInt32 × List UInt32 × List UInt32) :
    Compression α K where
  blas := blas
  codec := codec
  toFloat := toFloat
  heap := heap
  numPoints := decodeNat npts32
  dim := decodeNat basedim32
  numCenters := numCenters.toNat
  numPqChunks := numPqChunks.toNat
  blockSize := if decodeNat npts32 ≤ maxBlockSize then decodeNat npts32 else maxBlockSize
  fullPivotData := pivots.1.map val
  centroid := pivots.2.1.map val
  chunkOffsets := pivots.2.2.map UInt32.toNat

/-- `generate_pq_data_from_pivots` with its `base_reader`, a `cached_ifstream` of `readBlkSize`
bytes, which is 64 MiB. -/
def generatePqDataCached (blas : Blas K) (codec : Codec α) (toFloat : α → K) (val : UInt32 → K)
    (heap : ℕ → ℕ → Heap K) (maxBlockSize readBlkSize : ℕ) (dataFile : List UInt8)
    (numCenters numPqChunks : UInt32) (pivotsFile : File) : Option (List UInt8) :=
  (CachedIfstream.new dataFile readBlkSize).bind fun baseReader =>
    (baseReader.read 4).bind fun npts32 => (npts32.2.read 4).bind fun basedim32 =>
      (loadPivots pivotsFile).bind fun pivots =>
        ((compressionFor blas codec toFloat val heap maxBlockSize npts32.1 basedim32.1 numCenters
          numPqChunks pivots).runFrom CachedIfstream.read basedim32.2).map fun s =>
            encodeNat 4 (decodeNat npts32.1) ++ Bytes.encodeWord numPqChunks ++ s.1.written

variable {read job} {R : ρ → List UInt8 → Prop}

/-- A block does not look beyond its bytes. -/
lemma compressBlock_rest {s : BlockState α K} {block : ℕ} {as cs : List UInt8}
    (h : takeExact (job.blockLength block) s.rest = some (as, cs)) :
    ∃ s', job.compressBlock s block = some s' ∧ s'.rest = cs ∧
      job.compressBlock { s with rest := as } block = some { s' with rest := [] } := by
  have has : as.length = job.blockLength block ∧ as.take (job.blockLength block) = as := by
    rw [takeExact] at h
    split_ifs at h with hle
    rw [Option.some.injEq, Prod.mk.injEq] at h
    rw [← h.1, List.length_take, List.take_take, min_self]
    exact ⟨min_eq_left hle, rfl⟩
  have htake : takeExact (job.blockLength block) as = some (as, []) := by
    rw [takeExact, if_pos has.1.ge, has.2, List.drop_eq_nil_of_le has.1.le]
  rw [Compression.blockLength] at h htake
  exact ⟨_, congrArg (Option.map _) h, rfl, congrArg (Option.map _) htake⟩

/-- A state with a reader, and one with the stream that it gives out. -/
def SameBlocks (R : ρ → List UInt8 → Prop) (s : BlockState α K × ρ) (t : BlockState α K) : Prop :=
  s.1 = { t with rest := [] } ∧ R s.2 t.rest

lemma compressBlockFrom_eq (h : ReadsAs read R) {s : BlockState α K × ρ} {t : BlockState α K}
    (hs : SameBlocks R s t) (block : ℕ) :
    (job.compressBlock t block = none ∧ job.compressBlockFrom read s block = none) ∨
      ∃ t' s', job.compressBlock t block = some t' ∧ job.compressBlockFrom read s block = some s' ∧
        SameBlocks R s' t' := by
  obtain ⟨hstate, hread⟩ := hs
  cases htake : takeExact (job.blockLength block) t.rest with
  | none =>
      left
      refine ⟨?_, by rw [Compression.compressBlockFrom, h.fails _ hread htake, Option.bind_none]⟩
      rw [Compression.blockLength] at htake
      rw [Compression.compressBlock]
      simp only [htake, Option.map_none]
  | some p =>
      right
      obtain ⟨r', hread', hr'⟩ := h.reads _ hread htake
      obtain ⟨t', hwhole, hrest, hpart⟩ := compressBlock_rest htake
      refine ⟨t', ({ t' with rest := [] }, r'), hwhole, ?_, rfl, hrest ▸ hr'⟩
      rw [Compression.compressBlockFrom, hread', Option.bind_some, hstate]
      exact congrArg (Option.map fun s' => (s', r')) hpart

/-- **The blocks are the same**, and so is a failure. -/
lemma runFrom_eq (job : Compression α K) (h : ReadsAs read R) {r : ρ} {body : List UInt8}
    (hr : R r body) :
    (job.runFrom read r).map (fun s => s.1.written)
      = (job.run body).map BlockState.written := by
  have hfold : ∀ (blocks : List ℕ) (s : BlockState α K × ρ) (t : BlockState α K),
      SameBlocks R s t → (blocks.foldlM (job.compressBlockFrom read) s).map (fun s => s.1.written)
        = (blocks.foldlM job.compressBlock t).map BlockState.written := by
    intro blocks
    induction blocks with
    | nil =>
        intro s t hs
        have hwritten := congrArg BlockState.written hs.1
        exact congrArg some hwritten
    | cons block blocks ih =>
        intro s t hs
        rw [List.foldlM_cons, List.foldlM_cons]
        rcases compressBlockFrom_eq h hs block with ⟨hwhole, hfrom⟩ | ⟨t', s', hwhole, hfrom, hs'⟩
        · rw [hwhole, hfrom]
          rfl
        · rw [hwhole, hfrom]
          exact ih s' t' hs'
  exact hfold _ _ _ ⟨rfl, hr⟩

end Compress

section Generate

variable {α K : Type*} [Inhabited α] [Field K] [LinearOrder K]

/-- **The file of codes does not depend on the cache** through which the data file is read. -/
theorem generatePqDataFromPivots_cached (blas : Blas K) (codec : Codec α) (toFloat : α → K)
    (val : UInt32 → K) (heap : ℕ → ℕ → Heap K) (maxBlockSize : ℕ) {readBlkSize : ℕ}
    (hread : 0 < readBlkSize) (dataFile : List UInt8) (numCenters numPqChunks : UInt32)
    (pivotsFile : File) :
    generatePqDataCached blas codec toFloat val heap maxBlockSize readBlkSize dataFile numCenters
        numPqChunks pivotsFile
      = generatePqDataFromPivots blas codec toFloat val heap maxBlockSize dataFile numCenters
          numPqChunks pivotsFile := by
  have h := CachedIfstream.readsAs_cachedIfstream
  obtain ⟨r, hnew, hr⟩ := CachedIfstream.unread_new dataFile hread
  rw [generatePqDataCached, hnew, Option.bind_some, generatePqDataFromPivots]
  cases hnpts : takeExact 4 dataFile with
  | none => rw [h.fails 4 hr hnpts, Option.bind_none, Option.bind_none]
  | some npts32 =>
      obtain ⟨r₁, hread₁, hr₁⟩ := h.reads 4 hr hnpts
      rw [hread₁, Option.bind_some, Option.bind_some]
      cases hdim : takeExact 4 npts32.2 with
      | none => rw [h.fails 4 hr₁ hdim, Option.bind_none, Option.bind_none]
      | some basedim32 =>
          obtain ⟨r₂, hread₂, hr₂⟩ := h.reads 4 hr₁ hdim
          rw [hread₂, Option.bind_some, Option.bind_some]
          refine congrArg (Option.bind _) (funext fun pivots => ?_)
          have hrun := runFrom_eq (compressionFor blas codec toFloat val heap maxBlockSize
            npts32.1 basedim32.1 numCenters numPqChunks pivots) h hr₂
          have hbytes := congrArg (Option.map fun written =>
            encodeNat 4 (decodeNat npts32.1) ++ Bytes.encodeWord numPqChunks ++ written) hrun
          rw [Option.map_map, Option.map_map] at hbytes
          exact hbytes

/-- The three points in blocks of two, through a cache of three bytes. -/
theorem generatePqDataFromPivots_cached_threePoints :
    generatePqDataCached exactBlas Codec.uint8 (fun x : UInt8 => (x.toNat : ℝ))
        (fun w => (w.toNat : ℝ)) (fun _ _ => ⟨fun _ => 0, fun _ => 0⟩) 2 3 threePointsFile.bytes
        256 2 rampPivotFile.file
      = generatePqDataFromPivots exactBlas Codec.uint8 (fun x : UInt8 => (x.toNat : ℝ))
          (fun w => (w.toNat : ℝ)) (fun _ _ => ⟨fun _ => 0, fun _ => 0⟩) 2 threePointsFile.bytes
          256 2 rampPivotFile.file :=
  generatePqDataFromPivots_cached exactBlas Codec.uint8 _ _ _ 2 (Nat.succ_pos 2)
    threePointsFile.bytes 256 2 rampPivotFile.file

end Generate

end RedAnns
