import Mathlib
import RedAnns.Index.Placement
import RedAnns.Lib.Decimal
import RedAnns.Lib.Streams

/-!
An index on buckets on disk (`src/index.cpp` and the file helpers of `include/common.h`).

* `saveBaseIndexOnBuckets` writes a text header, one raw file a bucket, the partition as raw
  words and two vectors in decimal text; `loadBaseIndexDistributed` reads them on one server
  and puts its bucket into the front of the kvstore.
* `loadBaseIndexDistributed_save`: on every server whose bucket fits, a fresh index ends with
  the members that were saved, and the kvstore with the slots of the bucket.
-/

namespace RedAnns

open Bytes

/-! ### Files -/

/-- The files by name. -/
abbrev Files := String → Option (List UInt8)

/-- Opening a file to read it, with the message of the reader. -/
def openFile (what : String) (files : Files) (name : String) : Except String (List UInt8) :=
  match files name with
  | some bytes => .ok bytes
  | none => .error what

/-- A file is written anew. -/
def saveFile (name : String) (bytes : List UInt8) (files : Files) : Files :=
  Function.update files name (some bytes)

/-- `common::save_vector`. -/
def saveVector (name : String) (P : List ℕ) (files : Files) : Files :=
  saveFile name (lines P) files

/-- `common::load_vector`: the numbers are pushed behind those of `P`. -/
def loadVector (bound : ℕ) (files : Files) (name : String) (P : List ℕ) :
    Except String (List ℕ) := do
  let cs ← openFile "error:@load_vector: open file failed." files name
  return extractAll bound (cs.length + 1) cs P

/-- `common::read_file`. -/
def readFile (files : Files) (name : String) : Except String (List UInt8) :=
  openFile "error:@read_file: open file failed." files name

/-! ### Saving -/

/-- The members of `Index` that are saved and loaded. -/
structure IndexMembers where
  baseNum : ℕ
  dimension : ℕ
  elementNum : ℕ
  elementSize : ℕ
  dataOffset : ℕ
  labelOffset : ℕ
  neighborOffset : ℕ
  baseIndexR : ℕ
  membktEP : Item
  bucketCount : ℕ
  baseInBucket : List UInt32
  baseToLid : List LocalId
  dataNum : List ℕ
  deriving Inhabited

/-- The members after `generate_base_index_on_buckets`. -/
def BucketIndex.members (idx : BucketIndex) (b : BaseSet) : IndexMembers where
  baseNum := b.baseNum
  dimension := b.dimension
  elementNum := b.baseNum
  elementSize := idx.layout.elementSize
  dataOffset := Layout.dataOffset
  labelOffset := idx.layout.labelOffset
  neighborOffset := idx.layout.neighborOffset
  baseIndexR := b.baseGraphR
  membktEP := idx.membktEP
  bucketCount := idx.bucketCount
  baseInBucket := idx.baseInBucket
  baseToLid := idx.baseToLid
  dataNum := idx.dataNum

/-- The header, a number a line. -/
def metaNumbers (m : IndexMembers) : List ℕ :=
  [m.baseNum, m.dimension, m.elementNum, m.elementSize, m.dataOffset, m.labelOffset,
    m.neighborOffset, m.baseIndexR, m.membktEP.first.toNat, m.membktEP.second.toNat]

/-- The bytes of a bucket that are in use; the product is a `size_t`. -/
def bucketBytes (m : IndexMembers) (memoryBuckets : ServerId → Bytes) (bucketId : ℕ) :
    List UInt8 :=
  (memoryBuckets (UInt8.ofNat bucketId)).read 0 (m.dataNum.getD bucketId 0 * m.elementSize % 2 ^ 64)

/-- The loop that saves the first `n` buckets. -/
def saveBuckets (filenamePrefix : String) (m : IndexMembers) (memoryBuckets : ServerId → Bytes)
    (n : ℕ) (files : Files) : Files :=
  (List.range n).foldl (fun files bucketId =>
    saveFile (filenamePrefix ++ (".bucket_" ++ toString bucketId))
      (bucketBytes m memoryBuckets bucketId) files) files

/-- `save_base_index_on_buckets`. -/
def saveBaseIndexOnBuckets (filenamePrefix : String) (m : IndexMembers)
    (memoryBuckets : ServerId → Bytes) (files : Files) : Files :=
  let files := saveFile (filenamePrefix ++ ".meta") (lines (metaNumbers m)) files
  let files := saveBuckets filenamePrefix m memoryBuckets m.bucketCount files
  let files := saveFile (filenamePrefix ++ ".partition")
    ((encodeWords m.baseInBucket).take (m.baseNum * 4)) files
  let files := saveVector (filenamePrefix ++ ".lid") (m.baseToLid.map UInt32.toNat) files
  saveVector (filenamePrefix ++ ".data_num") m.dataNum files

/-! ### Loading -/

/-- The kvstore of a server; its size is a `uint64_t`. -/
structure KvMem where
  kvstore : Bytes
  kvstoreSize : ℕ
  size_lt : kvstoreSize < 2 ^ 64

/-- The largest `size_t` and the largest `unsigned`. -/
def sizeMax : ℕ := 2 ^ 64 - 1

def unsignedMax : ℕ := 2 ^ 32 - 1

/-- The header is extracted into the members one after the other. -/
def loadMeta (cs : List UInt8) (m : IndexMembers) : IndexMembers :=
  let (baseNum, s) := extract sizeMax (some cs) m.baseNum
  let (dimension, s) := extract sizeMax s m.dimension
  let (elementNum, s) := extract sizeMax s m.elementNum
  let (elementSize, s) := extract sizeMax s m.elementSize
  let (dataOffset, s) := extract sizeMax s m.dataOffset
  let (labelOffset, s) := extract sizeMax s m.labelOffset
  let (neighborOffset, s) := extract sizeMax s m.neighborOffset
  let (baseIndexR, s) := extract unsignedMax s m.baseIndexR
  let (first, s) := extract unsignedMax s 0
  let (second, _) := extract unsignedMax s first
  { m with
    baseNum := baseNum
    dimension := dimension
    elementNum := elementNum
    elementSize := elementSize
    dataOffset := dataOffset
    labelOffset := labelOffset
    neighborOffset := neighborOffset
    baseIndexR := baseIndexR
    membktEP := ⟨UInt8.ofNat first, UInt32.ofNat second⟩ }

/-- `load_base_index_distributed` on the server `sid`. -/
def loadBaseIndexDistributed (filenamePrefix : String) (bucketCount numServers : ℕ)
    (files : Files) (sid : ℕ) (mem : KvMem) (m : IndexMembers) :
    Except String (IndexMembers × KvMem) := do
  if bucketCount ≠ numServers then throw "bucket_count == Global::num_servers"
  let cs ← openFile "error:@meta_filepath: open file failed." files (filenamePrefix ++ ".meta")
  let m := loadMeta cs { m with bucketCount := bucketCount }
  let data ← readFile files (filenamePrefix ++ (".bucket_" ++ toString sid))
  if mem.kvstoreSize < data.length then
    throw "error:@read_file: read file failed. size > max_size."
  let mem := { mem with kvstore := mem.kvstore.write 0 data }
  -- the log tells the number of records
  if m.elementSize = 0 then throw "division by zero"
  let data ← readFile files (filenamePrefix ++ ".partition")
  -- a longer file overruns the array
  if m.baseNum * 4 < data.length then throw "heap overflow"
  let zeros := List.replicate (m.baseNum * 4 - data.length) 0
  let m := { m with baseInBucket := decodeWords m.baseNum (data ++ zeros) }
  let baseToLid ← loadVector unsignedMax files (filenamePrefix ++ ".lid")
    (m.baseToLid.map UInt32.toNat)
  let dataNum ← loadVector sizeMax files (filenamePrefix ++ ".data_num") m.dataNum
  return ({ m with baseToLid := baseToLid.map UInt32.ofNat, dataNum := dataNum }, mem)

/-! ### The files of an index -/

variable {filenamePrefix : String} {m : IndexMembers} {memoryBuckets : ServerId → Bytes}
  {files : Files}

lemma saveFile_self (name : String) (bytes : List UInt8) (files : Files) :
    saveFile name bytes files name = some bytes := Function.update_self ..

/-- Files whose names end differently are apart. -/
lemma saveFile_of_ne {suffix suffix' : String} (h : suffix ≠ suffix') (bytes : List UInt8) :
    saveFile (filenamePrefix ++ suffix) bytes files (filenamePrefix ++ suffix')
      = files (filenamePrefix ++ suffix') :=
  Function.update_of_ne (fun heq => h ((String.append_right_inj _).mp heq).symm) ..

lemma bucket_ne (i : ℕ) {suffix : String} (h : ¬ ".bucket_".toList <+: suffix.toList) :
    ".bucket_" ++ toString i ≠ suffix := by
  rintro rfl
  exact h ⟨_, String.toList_append.symm⟩

lemma bucket_inj {i j : ℕ} (h : ".bucket_" ++ toString i = ".bucket_" ++ toString j) : i = j :=
  Nat.repr_inj.mp ((String.append_right_inj _).mp h)

lemma saveBuckets_of_ne {suffix : String} (h : ¬ ".bucket_".toList <+: suffix.toList) (n : ℕ) :
    saveBuckets filenamePrefix m memoryBuckets n files (filenamePrefix ++ suffix)
      = files (filenamePrefix ++ suffix) := by
  induction n with
  | zero => rfl
  | succ n ih =>
      rw [saveBuckets, List.range_succ, List.foldl_append, ← saveBuckets, List.foldl_cons,
        List.foldl_nil, saveFile_of_ne (bucket_ne n h), ih]

lemma saveBuckets_bucket {i n : ℕ} (h : i < n) :
    saveBuckets filenamePrefix m memoryBuckets n files
      (filenamePrefix ++ (".bucket_" ++ toString i)) = some (bucketBytes m memoryBuckets i) := by
  induction n with
  | zero => omega
  | succ n ih =>
      rw [saveBuckets, List.range_succ, List.foldl_append, ← saveBuckets, List.foldl_cons,
        List.foldl_nil]
      by_cases hi : i = n
      · rw [hi, saveFile_self]
      · rw [saveFile_of_ne fun heq => hi (bucket_inj heq).symm, ih (by omega)]

/-- What stands in every file of a saved index. -/
structure SavedAs (filenamePrefix : String) (m : IndexMembers) (memoryBuckets : ServerId → Bytes)
    (files : Files) : Prop where
  metaFile : files (filenamePrefix ++ ".meta") = some (lines (metaNumbers m))
  bucketFile : ∀ i < m.bucketCount, files (filenamePrefix ++ (".bucket_" ++ toString i))
    = some (bucketBytes m memoryBuckets i)
  partitionFile : files (filenamePrefix ++ ".partition")
    = some ((encodeWords m.baseInBucket).take (m.baseNum * 4))
  lidFile : files (filenamePrefix ++ ".lid") = some (lines (m.baseToLid.map UInt32.toNat))
  dataNumFile : files (filenamePrefix ++ ".data_num") = some (lines m.dataNum)

/-- No file is written over. -/
lemma savedAs_save (filenamePrefix : String) (m : IndexMembers)
    (memoryBuckets : ServerId → Bytes) (files : Files) :
    SavedAs filenamePrefix m memoryBuckets
      (saveBaseIndexOnBuckets filenamePrefix m memoryBuckets files) where
  metaFile := by
    rw [saveBaseIndexOnBuckets, saveVector, saveFile_of_ne (by decide), saveVector,
      saveFile_of_ne (by decide), saveFile_of_ne (by decide), saveBuckets_of_ne (by decide),
      saveFile_self]
  bucketFile i hi := by
    rw [saveBaseIndexOnBuckets, saveVector, saveFile_of_ne (bucket_ne i (by decide)).symm,
      saveVector, saveFile_of_ne (bucket_ne i (by decide)).symm,
      saveFile_of_ne (bucket_ne i (by decide)).symm, saveBuckets_bucket hi]
  partitionFile := by
    rw [saveBaseIndexOnBuckets, saveVector, saveFile_of_ne (by decide), saveVector,
      saveFile_of_ne (by decide), saveFile_self]
  lidFile := by
    rw [saveBaseIndexOnBuckets, saveVector, saveFile_of_ne (by decide), saveVector,
      saveFile_self]
  dataNumFile := by
    rw [saveBaseIndexOnBuckets, saveVector, saveFile_self]

/-! ### The round trip -/

/-- The members fit their types, and the partition has a word for every vertex. -/
structure IndexMembers.Fits (m : IndexMembers) : Prop where
  baseNum_le : m.baseNum ≤ sizeMax
  dimension_le : m.dimension ≤ sizeMax
  elementNum_le : m.elementNum ≤ sizeMax
  elementSize_le : m.elementSize ≤ sizeMax
  elementSize_pos : 0 < m.elementSize
  dataOffset_le : m.dataOffset ≤ sizeMax
  labelOffset_le : m.labelOffset ≤ sizeMax
  neighborOffset_le : m.neighborOffset ≤ sizeMax
  baseIndexR_le : m.baseIndexR ≤ unsignedMax
  length_baseInBucket : m.baseInBucket.length = m.baseNum
  dataNum_le : ∀ n ∈ m.dataNum, n ≤ sizeMax

/-- A new index: whatever its numbers are, its vectors are empty. -/
def IndexMembers.Fresh (m : IndexMembers) : Prop := m.baseToLid = [] ∧ m.dataNum = []

variable {m₀ : IndexMembers}

/-- **The header is read in the order it is written.** -/
lemma loadMeta_lines (hm : m.Fits) (m₀ : IndexMembers) :
    loadMeta (lines (metaNumbers m)) m₀ = { m with
      bucketCount := m₀.bucketCount
      baseInBucket := m₀.baseInBucket
      baseToLid := m₀.baseToLid
      dataNum := m₀.dataNum } := by
  have hfirst : m.membktEP.first.toNat ≤ unsignedMax := by
    have := m.membktEP.first.toNat_lt
    rw [unsignedMax]
    omega
  have hsecond : m.membktEP.second.toNat ≤ unsignedMax := by
    have := m.membktEP.second.toNat_lt
    rw [unsignedMax]
    omega
  simp only [loadMeta, metaNumbers, extract_lines hm.baseNum_le, extract_next hm.dimension_le,
    extract_next hm.elementNum_le, extract_next hm.elementSize_le, extract_next hm.dataOffset_le,
    extract_next hm.labelOffset_le, extract_next hm.neighborOffset_le,
    extract_next hm.baseIndexR_le, extract_next hfirst, extract_next hsecond,
    UInt8.ofNat_toNat, UInt32.ofNat_toNat]

/-- A vector of words is loaded behind what was there. -/
lemma loadVector_lines {bound : ℕ} {ns : List ℕ} {name : String}
    (hfile : files name = some (lines ns)) (hns : ∀ n ∈ ns, n ≤ bound) (P : List ℕ) :
    loadVector bound files name P = .ok (P ++ ns) := by
  have hread := extractAll_lines hns ((lines ns).length + 1) [] P (by simp)
    (Nat.lt_succ_of_le (length_le_lines ns))
  rw [List.nil_append] at hread
  simp only [loadVector, openFile, hfile, bind, Except.bind, hread]
  rfl

/-- **A saved index loads on every server whose bucket fits.** -/
theorem SavedAs.load (h : SavedAs filenamePrefix m memoryBuckets files) (hm : m.Fits)
    (h₀ : m₀.Fresh) {sid : ℕ} (hsid : sid < m.bucketCount) {mem : KvMem}
    (hfit : (bucketBytes m memoryBuckets sid).length ≤ mem.kvstoreSize) :
    loadBaseIndexDistributed filenamePrefix m.bucketCount m.bucketCount files sid mem m₀
      = .ok (m, { mem with kvstore := mem.kvstore.write 0 (bucketBytes m memoryBuckets sid) }) := by
  have hlen : (encodeWords m.baseInBucket).length = m.baseNum * 4 := by
    rw [length_encodeWords, hm.length_baseInBucket, Nat.mul_comm]
  have hpartition := h.partitionFile
  rw [← hlen, List.take_length] at hpartition
  have hwords : ∀ n ∈ m.baseToLid.map UInt32.toNat, n ≤ unsignedMax := by
    intro n hn
    obtain ⟨w, -, rfl⟩ := List.mem_map.mp hn
    have := w.toNat_lt
    rw [unsignedMax]
    omega
  have hlid := loadVector_lines h.lidFile hwords []
  have hnum := loadVector_lines h.dataNumFile hm.dataNum_le []
  rw [List.nil_append] at hlid hnum
  have hread : decodeWords m.baseNum (encodeWords m.baseInBucket) = m.baseInBucket := by
    rw [← hm.length_baseInBucket, decodeWords_encodeWords]
  have hback : (m.baseToLid.map UInt32.toNat).map UInt32.ofNat = m.baseToLid := by
    rw [List.map_map]
    exact (List.map_congr_left fun w _ => UInt32.ofNat_toNat).trans (List.map_id _)
  simp only [loadBaseIndexDistributed, readFile, openFile, h.metaFile, h.bucketFile sid hsid,
    hpartition, loadMeta_lines hm, bind, Except.bind, ne_eq, not_true_eq_false, if_false,
    if_neg (show ¬ mem.kvstoreSize < (bucketBytes m memoryBuckets sid).length by omega),
    if_neg hm.elementSize_pos.ne', hlen, lt_irrefl, Nat.sub_self, List.replicate_zero,
    List.append_nil, hread, h₀.1, h₀.2, List.map_nil, hlid, hnum, hback]
  rfl

/-! ### Generated indexes -/

section Generated

variable {b : BaseSet} {bucketCount : ℕ} {baseInBucket : List UInt32}
  {malloc : ServerId → Bytes}

/-- No bucket counts more vertices than there are. -/
lemma dataNum_le (n : ℕ) : ∀ d ∈ (alloc bucketCount baseInBucket n).dataNum, d ≤ n := by
  induction n with
  | zero =>
      intro d hd
      exact (List.eq_of_mem_replicate hd).le
  | succ n ih =>
      intro d hd
      rw [alloc_succ] at hd
      rcases List.mem_or_eq_of_mem_set hd with hd | rfl
      · exact (ih d hd).trans (Nat.le_succ n)
      · refine Nat.succ_le_succ ?_
        rw [List.getD_eq_getElem?_getD]
        cases hget : (alloc bucketCount baseInBucket n).dataNum[
            (baseInBucket.getD n 0).toUInt8.toNat]? with
        | none => exact Nat.zero_le n
        | some d => exact ih d (List.mem_of_getElem? hget)

lemma getD_dataNum_le (n q : ℕ) : (alloc bucketCount baseInBucket n).dataNum.getD q 0 ≤ n := by
  rw [List.getD_eq_getElem?_getD]
  cases hget : (alloc bucketCount baseInBucket n).dataNum[q]? with
  | none => exact Nat.zero_le n
  | some d => exact dataNum_le n d (List.mem_of_getElem? hget)

/-- A generated index is an arrangement by one bucket for each vertex. -/
lemma exists_arrange {δ : Type*} [LinearOrder δ] {clusters : CoarseClusters}
    {distance : Distance δ} {idx : BucketIndex}
    (hgen : generateBaseIndexOnBuckets b clusters distance bucketCount malloc = .ok idx) :
    ∃ baseInBucket, baseInBucket.length = b.baseNum ∧
      arrange b bucketCount baseInBucket malloc = idx := by
  rw [generateBaseIndexOnBuckets] at hgen
  cases hassign : assignBuckets b clusters distance with
  | error e => rw [hassign] at hgen; exact absurd hgen (by simp [bind, Except.bind])
  | ok baseInBucket =>
      rw [hassign] at hgen
      exact ⟨baseInBucket, by rw [(mapM_eq_ok hassign).1, List.length_range],
        Except.ok.inj hgen⟩

/-- What `generate_base_index_on_buckets` leaves fits the types of the members. -/
lemma fits_members (hdim : b.dimension < 2 ^ 32) (hlen : baseInBucket.length = b.baseNum) :
    ((arrange b bucketCount baseInBucket malloc).members b).Fits := by
  have hnum := b.baseNum_lt
  have hR := b.baseGraphR_lt
  have hsize : (arrange b bucketCount baseInBucket malloc).layout.elementSize =
      b.dimension * 4 + 4 + (4 + b.baseGraphR * (4 + 1 + 4)) := rfl
  have hlabel : (arrange b bucketCount baseInBucket malloc).layout.labelOffset =
      b.dimension * 4 := rfl
  have hneighbor : (arrange b bucketCount baseInBucket malloc).layout.neighborOffset =
      b.dimension * 4 + 4 := rfl
  constructor <;>
    simp only [BucketIndex.members, hsize, hlabel, hneighbor, Layout.dataOffset, sizeMax,
      unsignedMax] <;> try omega
  · exact hlen
  · intro d hd
    have := dataNum_le b.baseNum d hd
    omega

/-- **What a server ends with**: the members that were saved, and in its kvstore the slots of
its bucket, which are the records of its items. -/
structure LoadedOn (b : BaseSet) (idx : BucketIndex) (sid : ℕ) (m : IndexMembers) (mem : KvMem) :
    Prop where
  members_eq : m = idx.members b
  slots : ∀ l < idx.dataNum.getD sid 0,
    mem.kvstore.read (l * m.elementSize) m.elementSize
      = (idx.memoryBuckets (UInt8.ofNat sid)).read (l * m.elementSize) m.elementSize
  records : ∀ item : Item, item.first.toNat = sid → item.second.toNat < idx.dataNum.getD sid 0 →
    mem.kvstore.read (item.second.toNat * m.elementSize) m.elementSize
      = (idx.getVertex item).read 0 m.elementSize

/-- Slots in front of a bucket are copied with it. -/
lemma read_write_read {m : Bytes} {bucket : Bytes} {l n size : ℕ} (h : l < n) :
    (m.write 0 (bucket.read 0 (n * size))).read (l * size) size = bucket.read (l * size) size := by
  have hle : l * size + size ≤ n * size := by
    rw [← Nat.succ_mul]
    exact Nat.mul_le_mul_right size h
  refine List.ext_getElem (by simp) fun i hi hi' => ?_
  rw [length_read] at hi
  rw [getElem_read, getElem_read]
  have hstand := stands_write m 0 (bucket.read 0 (n * size)) (l * size + i)
    (by rw [length_read]; omega)
  rwa [Nat.zero_add, getElem_read, Nat.zero_add] at hstand

/-- **Saving and loading is a round trip on every server.** An index on buckets is saved, and
every server whose bucket fits its kvstore loads it into a new index. -/
theorem loadBaseIndexDistributed_save {δ : Type*} [LinearOrder δ] {clusters : CoarseClusters}
    {distance : Distance δ} {idx : BucketIndex}
    (hgen : generateBaseIndexOnBuckets b clusters distance bucketCount malloc = .ok idx)
    (hdim : b.dimension < 2 ^ 32) (filenamePrefix : String) (files : Files) {m₀ : IndexMembers}
    (h₀ : m₀.Fresh) {sid : ℕ} (hsid : sid < bucketCount) {mem : KvMem}
    (hfit : idx.dataNum.getD sid 0 * idx.layout.elementSize ≤ mem.kvstoreSize) :
    ∃ m mem', loadBaseIndexDistributed filenamePrefix bucketCount bucketCount
        (saveBaseIndexOnBuckets filenamePrefix (idx.members b) idx.memoryBuckets files) sid mem m₀
        = .ok (m, mem') ∧ LoadedOn b idx sid m mem' := by
  obtain ⟨baseInBucket, hlen, rfl⟩ := exists_arrange hgen
  set idx := arrange b bucketCount baseInBucket malloc with hidx
  have hbytes : bucketBytes (idx.members b) idx.memoryBuckets sid =
      (idx.memoryBuckets (UInt8.ofNat sid)).read 0
        (idx.dataNum.getD sid 0 * idx.layout.elementSize) := by
    rw [bucketBytes]
    show (idx.memoryBuckets _).read 0 (idx.dataNum.getD sid 0 * idx.layout.elementSize % _) = _
    rw [Nat.mod_eq_of_lt (hfit.trans_lt mem.size_lt)]
  have hload := (savedAs_save filenamePrefix (idx.members b) idx.memoryBuckets files).load
    (fits_members hdim hlen) h₀ hsid
    (show (bucketBytes (idx.members b) idx.memoryBuckets sid).length ≤ mem.kvstoreSize by
      rw [hbytes, length_read]; exact hfit)
  refine ⟨_, _, hload, rfl, fun l hl => ?_, fun item hitem hl => ?_⟩
  · rw [hbytes]
    exact read_write_read hl
  · have hserver : UInt8.ofNat sid = item.first := by rw [← hitem, UInt8.ofNat_toNat]
    rw [hbytes, hserver]
    refine (read_write_read hl).trans ?_
    rw [BucketIndex.getVertex, read_view, Nat.add_zero]
    rfl

/-- The two points on two buckets, saved and loaded by the first server. -/
theorem loadBaseIndexDistributed_save_twoPoints : ∃ idx,
    generateBaseIndexOnBuckets twoPoints ⟨1, fun _ => 0⟩ (distanceL2 fun w => (w.toNat : ℚ)) 2
      (fun _ _ => 0) = .ok idx ∧
    ∃ m mem', loadBaseIndexDistributed "index" 2 2
        (saveBaseIndexOnBuckets "index" (idx.members twoPoints) idx.memoryBuckets fun _ => none) 0
        ⟨fun _ => 0, 1024, by norm_num⟩ default = .ok (m, mem') ∧
      LoadedOn twoPoints idx 0 m mem' := by
  obtain ⟨baseInBucket, hassign⟩ : ∃ baseInBucket, assignBuckets twoPoints ⟨1, fun _ => 0⟩
      (distanceL2 fun w => (w.toNat : ℚ)) = .ok baseInBucket :=
    assignBuckets_ok _ one_pos (by decide)
  have hgen : generateBaseIndexOnBuckets twoPoints ⟨1, fun _ => 0⟩
      (distanceL2 fun w => (w.toNat : ℚ)) 2 (fun _ _ => 0)
      = .ok (arrange twoPoints 2 baseInBucket fun _ _ => 0) := by
    rw [generateBaseIndexOnBuckets, hassign]
    rfl
  refine ⟨_, hgen, loadBaseIndexDistributed_save hgen (by decide) "index" _ ⟨rfl, rfl⟩
    (by decide) ?_⟩
  exact (Nat.mul_le_mul_right _ (getD_dataNum_le twoPoints.baseNum 0)).trans
    (show twoPoints.baseNum * twoPoints.bucketLayout.elementSize ≤ 1024 by decide)

end Generated

end RedAnns
