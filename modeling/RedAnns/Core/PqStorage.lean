import RedAnns.Core.PqLookups
import RedAnns.Lib.Streams

/-!
Where the PQ codes are kept: `alloc_aligned` and `copy_aligned_data_from_file` of
`include/efanna2e/util.h`, and their callers `PQ::load` and `IndexBF::load_pq_structure`.

The size of the buffer is a product of two 32-bit numbers, and so is the offset of a code in it.
`PQ::load` multiplies constants, whatever the file holds. The callers pass one variable both as the
row length that the header sets and as the rounded one, so the rows in memory lie as close as those
in the file.

* `copyAlignedDataFromFile`: the writes of the copying loop, up to where the file ends.
* `copyRows_le`, `exists_copyRows`: how far the writes reach; `writeRows_copyRows`: they are one
  write of the codes.
* `codesInPlace_iff`: when the buffers are large enough; `computeDist_loadCodes`: the lookups that
  codes in place answer.
-/

namespace RedAnns

open Bytes

/-! ### The loader -/

/-- A `memcpy` or `memset` into a buffer: the offset and the bytes. -/
abbrev Store := ℕ × List UInt8

/-- The loop over rows, from row `i` on: its writes, and whether no read failed. A read that fails
has stored what was left. -/
def copyRows (dim roundedDim : UInt32) : ℕ → ℕ → List UInt8 → List Store × Bool
  | _, 0, _ => ([], true)
  | i, n + 1, rest =>
      if dim.toNat ≤ rest.length then
        let next := copyRows dim roundedDim (i + 1) n (rest.drop dim.toNat)
        ((i * roundedDim.toNat, rest.take dim.toNat) ::
          (i * roundedDim.toNat + dim.toNat, List.replicate (roundedDim - dim).toNat 0) :: next.1,
          next.2)
      else ([(i * roundedDim.toNat, rest)], false)

/-- What `copy_aligned_data_from_file` leaves behind: the header, the writes into the buffer, and
whether it returned. -/
structure Copied where
  npts : UInt32
  dim : UInt32
  writes : List Store
  returned : Bool

/-- The bytes of the buffer, on top of what the allocation left in it. -/
def Copied.data (c : Copied) (malloc : Bytes) : Bytes :=
  c.writes.foldl (fun m w => m.write w.1 w.2) malloc

/-- `copy_aligned_data_from_file`; `none` when the header cannot be read. Both callers pass the
variable of `dim` for `rounded_dim` too. -/
def copyAlignedDataFromFile (file : List UInt8) : Option Copied := do
  let (npts, rest) ← takeExact 4 file
  let (dim, rest) ← takeExact 4 rest
  let npts := UInt32.ofNat (decodeNat npts)
  let dim := UInt32.ofNat (decodeNat dim)
  let rows := copyRows dim dim 0 npts.toNat rest
  return ⟨npts, dim, rows.1, rows.2⟩

/-- `alloc_aligned`: the size of the buffer; it exits when the size is not aligned. -/
def allocAligned (size align : ℕ) : Option ℕ := if size % align = 0 then some size else none

/-- A code buffer after a load: its size, what was copied into it, and the member
`num_pq_chunks`. -/
structure CodeStore where
  size : ℕ
  copied : Copied
  numPqChunks : UInt32

/-- The part of `IndexBF::load_pq_structure` that concerns the codes: the member keeps the
argument. -/
def IndexBF.loadPqStructure (numPoints numPqChunks : UInt32) (file : List UInt8) :
    Option CodeStore := do
  let size ← allocAligned (numPoints * numPqChunks).toNat 1
  let copied ← copyAlignedDataFromFile file
  return ⟨size, copied, numPqChunks⟩

/-- The part of `PQ::load` that concerns the codes: the member takes what the header says. -/
def PQ.loadCodes (file : List UInt8) : Option CodeStore := do
  let size ← allocAligned PQ.bufferSize 1
  let copied ← copyAlignedDataFromFile file
  return ⟨size, copied, copied.dim⟩

namespace CodeStore

variable (s : CodeStore)

/-- The offset `base_id * num_pq_chunks`, a product of 32 bits. -/
def codeOffset (baseId : UInt32) : ℕ := (baseId * s.numPqChunks).toNat

/-- `compute_dist`. -/
def computeDist {K : Type*} [Field K] (loaded : Bool) (pqData : Bytes) (distVec : Buffer K)
    (baseId : UInt32) : K :=
  if loaded then
    pqDistLookupSingleIn (pqData.view (s.codeOffset baseId)) s.numPqChunks.toNat distVec
  else 0

end CodeStore

/-- A file of codes: the header and what follows it. -/
def codeFile (npts dim : UInt32) (codes : List UInt8) : List UInt8 :=
  encodeWord npts ++ encodeWord dim ++ codes

lemma copyAlignedDataFromFile_codeFile (npts dim : UInt32) (codes : List UInt8) :
    copyAlignedDataFromFile (codeFile npts dim codes)
      = some ⟨npts, dim, (copyRows dim dim 0 npts.toNat codes).1,
          (copyRows dim dim 0 npts.toNat codes).2⟩ := by
  rw [copyAlignedDataFromFile, codeFile, List.append_assoc,
    takeExact_of_length (length_encodeWord npts), Option.bind_eq_bind, Option.bind_some]
  simp only [takeExact_of_length (length_encodeWord dim), Option.bind_some, decodeNat_encodeWord]
  rfl

/-! ### How far the writes reach -/

section Reach

variable {dim : UInt32}

/-- No write reaches beyond the codes of the file. -/
lemma copyRows_le (n : ℕ) : ∀ (i : ℕ) (rest : List UInt8), ∀ w ∈ (copyRows dim dim i n rest).1,
    w.1 + w.2.length ≤ i * dim.toNat + min rest.length (n * dim.toNat) := by
  induction n with
  | zero => exact fun i rest w hw => absurd hw (List.not_mem_nil)
  | succ n ih =>
      intro i rest w hw
      rw [copyRows] at hw
      have hrow : (n + 1) * dim.toNat = n * dim.toNat + dim.toNat := Nat.succ_mul n dim.toNat
      split_ifs at hw with hlen
      · rcases List.mem_cons.mp hw with rfl | hw
        · simp only [List.length_take]
          omega
        rcases List.mem_cons.mp hw with rfl | hw
        · simp only [UInt32.sub_self, List.length_replicate, UInt32.toNat_zero]
          omega
        · have hnext := ih (i + 1) (rest.drop dim.toNat) w hw
          rw [List.length_drop, Nat.succ_mul] at hnext
          omega
      · rw [List.mem_singleton] at hw
        subst hw
        show i * dim.toNat + rest.length ≤ _
        omega

variable (dim) in
/-- One write reaches the end of the codes. -/
lemma exists_copyRows (n : ℕ) : ∀ (i : ℕ) (rest : List UInt8), 0 < n →
    ∃ w ∈ (copyRows dim dim i n rest).1,
      w.1 + w.2.length = i * dim.toNat + min rest.length (n * dim.toNat) := by
  induction n with
  | zero => exact fun i rest h => absurd h (lt_irrefl 0)
  | succ n ih =>
      intro i rest _
      have hrow : (n + 1) * dim.toNat = n * dim.toNat + dim.toNat := Nat.succ_mul n dim.toNat
      rw [copyRows]
      split_ifs with hlen
      · rcases Nat.eq_zero_or_pos n with rfl | hn
        · refine ⟨_, List.mem_cons_self .., ?_⟩
          simp only [List.length_take]
          omega
        · obtain ⟨w, hw, hreach⟩ := ih (i + 1) (rest.drop dim.toNat) hn
          refine ⟨w, List.mem_cons_of_mem _ (List.mem_cons_of_mem _ hw), ?_⟩
          rw [hreach, List.length_drop, Nat.succ_mul]
          omega
      · refine ⟨_, List.mem_singleton_self _, ?_⟩
        show i * dim.toNat + rest.length = _
        omega

/-- **The writes fit into a buffer exactly when the codes of the file do.** -/
lemma copyRows_fits_iff (n size : ℕ) (codes : List UInt8) :
    (∀ w ∈ (copyRows dim dim 0 n codes).1, w.1 + w.2.length ≤ size) ↔
      min codes.length (n * dim.toNat) ≤ size := by
  constructor
  · intro h
    rcases Nat.eq_zero_or_pos n with rfl | hn
    · rw [Nat.zero_mul, Nat.min_zero]
      exact Nat.zero_le size
    · obtain ⟨w, hw, hreach⟩ := exists_copyRows dim n 0 codes hn
      have hle := h w hw
      rwa [hreach, Nat.zero_mul, Nat.zero_add] at hle
  · intro h w hw
    have hle := copyRows_le n 0 codes w hw
    rw [Nat.zero_mul, Nat.zero_add] at hle
    exact hle.trans h

/-- The writes are one write of the codes. -/
lemma writeRows_copyRows (n : ℕ) : ∀ (i : ℕ) (rest : List UInt8) (m : Bytes),
    (copyRows dim dim i n rest).1.foldl (fun m w => m.write w.1 w.2) m
      = m.write (i * dim.toNat) (rest.take (n * dim.toNat)) := by
  induction n with
  | zero =>
      intro i rest m
      rw [Nat.zero_mul, List.take_zero, write_nil]
      rfl
  | succ n ih =>
      intro i rest m
      rw [copyRows]
      split_ifs with hlen
      · have hrow : (rest.take dim.toNat).length = dim.toNat := by
          rw [List.length_take, min_eq_left hlen]
        have hnext : (m.write (i * dim.toNat) (rest.take dim.toNat)).write
            (i * dim.toNat + (rest.take dim.toNat).length)
            ((rest.drop dim.toNat).take (n * dim.toNat))
            = m.write (i * dim.toNat)
              (rest.take dim.toNat ++ (rest.drop dim.toNat).take (n * dim.toNat)) := write_append
        rw [hrow, ← List.take_add, Nat.add_comm dim.toNat, ← Nat.succ_mul n] at hnext
        rw [List.foldl_cons, List.foldl_cons, ih, UInt32.sub_self, UInt32.toNat_zero,
          List.replicate_zero, write_nil, Nat.succ_mul i, hnext]
      · have hall : rest.length ≤ (n + 1) * dim.toNat := by
          rw [Nat.succ_mul]
          omega
        rw [List.take_of_length_le hall]
        rfl

/-- The loop returns exactly when the file holds all rows. -/
lemma returned_copyRows_iff (n : ℕ) : ∀ (i : ℕ) (rest : List UInt8),
    (copyRows dim dim i n rest).2 = true ↔ n * dim.toNat ≤ rest.length := by
  induction n with
  | zero => exact fun _ rest => iff_of_true rfl ((Nat.zero_mul _).trans_le (Nat.zero_le _))
  | succ n ih =>
      intro i rest
      rw [copyRows, Nat.succ_mul]
      split_ifs with hlen
      · show (copyRows dim dim (i + 1) n (rest.drop dim.toNat)).2 = true ↔ _
        rw [ih, List.length_drop]
        omega
      · exact iff_of_false not_false (by omega)

end Reach

/-- **A complete file of codes is read back**: the header, and the codes from the start of the
buffer on. -/
theorem copyAlignedDataFromFile_complete {npts dim : UInt32} {codes : List UInt8}
    (hlen : codes.length = npts.toNat * dim.toNat) :
    ∃ c, copyAlignedDataFromFile (codeFile npts dim codes) = some c ∧ c.npts = npts ∧
      c.dim = dim ∧ c.returned = true ∧ ∀ malloc, c.data malloc = malloc.write 0 codes := by
  refine ⟨_, copyAlignedDataFromFile_codeFile npts dim codes, rfl, rfl,
    (returned_copyRows_iff npts.toNat 0 codes).mpr hlen.ge, fun malloc => ?_⟩
  have hwrites : (copyRows dim dim 0 npts.toNat codes).1.foldl (fun m w => m.write w.1 w.2) malloc
      = malloc.write (0 * dim.toNat) (codes.take (npts.toNat * dim.toNat)) :=
    writeRows_copyRows npts.toNat 0 codes malloc
  rwa [Nat.zero_mul, List.take_of_length_le hlen.le] at hwrites

/-! ### Sizes and offsets -/

/-- The size that `load_pq_structure` asks for. -/
lemma loadPqStructure_codeFile (numPoints numPqChunks npts dim : UInt32) (codes : List UInt8) :
    IndexBF.loadPqStructure numPoints numPqChunks (codeFile npts dim codes)
      = some ⟨(numPoints * numPqChunks).toNat, ⟨npts, dim, (copyRows dim dim 0 npts.toNat codes).1,
          (copyRows dim dim 0 npts.toNat codes).2⟩, numPqChunks⟩ := by
  rw [IndexBF.loadPqStructure, copyAlignedDataFromFile_codeFile, allocAligned, Nat.mod_one]
  rfl

lemma loadCodes_codeFile (npts dim : UInt32) (codes : List UInt8) :
    PQ.loadCodes (codeFile npts dim codes)
      = some ⟨PQ.bufferSize,
          ⟨npts, dim, (copyRows dim dim 0 npts.toNat codes).1,
            (copyRows dim dim 0 npts.toNat codes).2⟩, dim⟩ := by
  rw [PQ.loadCodes, copyAlignedDataFromFile_codeFile, allocAligned, Nat.mod_one]
  rfl

/-- **What a load leaves**: the codes of the file, from the first one on. -/
theorem data_loadCodes {npts dim : UInt32} {codes : List UInt8} {s : CodeStore}
    (h : PQ.loadCodes (codeFile npts dim codes) = some s) (malloc : Bytes) :
    s.copied.data malloc = malloc.write 0 (codes.take (npts.toNat * dim.toNat)) := by
  rw [loadCodes_codeFile] at h
  obtain rfl := Option.some.inj h
  have hwrites : (copyRows dim dim 0 npts.toNat codes).1.foldl (fun m w => m.write w.1 w.2) malloc
      = malloc.write (0 * dim.toNat) (codes.take (npts.toNat * dim.toNat)) :=
    writeRows_copyRows npts.toNat 0 codes malloc
  rwa [Nat.zero_mul] at hwrites

/-- All writes of a load stay in its buffer. -/
def CodeStore.Room (s : CodeStore) : Prop := ∀ w ∈ s.copied.writes, w.1 + w.2.length ≤ s.size

/-- **A lookup finds the codes of a point**: the offset is the mathematical product, and the row
that starts there lies in the buffer and holds the codes that the file has for the point. -/
structure CodeStore.Finds (s : CodeStore) (codes : List UInt8) (baseId : UInt32) : Prop where
  offset : s.codeOffset baseId = baseId.toNat * s.copied.dim.toNat
  inside : s.codeOffset baseId + s.copied.dim.toNat ≤ s.size
  read : ∀ malloc, ∀ chunk < s.copied.dim.toNat,
    s.copied.data malloc (s.codeOffset baseId + chunk)
      = codes.getD (baseId.toNat * s.copied.dim.toNat + chunk) 0

/-- **The codes are in place**: the buffers of `load_pq_structure` and of `PQ::load` have room for
every write into them, and `compute_dist` finds the codes of every point of a file that was
loaded. -/
structure CodesInPlace (numPoints numPqChunks npts dim : UInt32) (codes : List UInt8) : Prop where
  room : ∀ s, IndexBF.loadPqStructure numPoints numPqChunks (codeFile npts dim codes) = some s →
    s.Room
  roomLoad : ∀ s, PQ.loadCodes (codeFile npts dim codes) = some s → s.Room
  finds : ∀ s, PQ.loadCodes (codeFile npts dim codes) = some s → s.copied.returned = true →
    ∀ baseId : UInt32, baseId.toNat < s.copied.npts.toNat → s.Finds codes baseId

section InPlace

variable {numPoints numPqChunks npts dim : UInt32} {codes : List UInt8}

lemma room_iff : (∀ s, IndexBF.loadPqStructure numPoints numPqChunks (codeFile npts dim codes)
        = some s → s.Room) ↔
      min codes.length (npts.toNat * dim.toNat)
        ≤ numPoints.toNat * numPqChunks.toNat % 2 ^ 32 := by
  rw [loadPqStructure_codeFile, ← copyRows_fits_iff, ← UInt32.toNat_mul]
  constructor
  · exact fun h => h _ rfl
  · rintro h s ⟨⟩
    exact h

lemma roomLoad_iff : (∀ s, PQ.loadCodes (codeFile npts dim codes) = some s → s.Room) ↔
      min codes.length (npts.toNat * dim.toNat) ≤ PQ.bufferSize := by
  rw [loadCodes_codeFile, ← copyRows_fits_iff]
  constructor
  · exact fun h => h _ rfl
  · rintro h s ⟨⟩
    exact h

/-- The codes of a file that fit into the buffer are found. -/
lemma finds_of_room {s : CodeStore} (h : PQ.loadCodes (codeFile npts dim codes) = some s)
    (hroom : min codes.length (npts.toNat * dim.toNat) ≤ PQ.bufferSize)
    (hret : s.copied.returned = true) {baseId : UInt32} (hid : baseId.toNat < npts.toNat) :
    s.Finds codes baseId := by
  have hdata := data_loadCodes h
  rw [loadCodes_codeFile] at h
  obtain rfl := Option.some.inj h
  have hall : npts.toNat * dim.toNat ≤ codes.length :=
    (returned_copyRows_iff npts.toNat 0 codes).mp hret
  rw [min_eq_right hall, PQ.bufferSize_eq] at hroom
  have hrow : (baseId.toNat + 1) * dim.toNat ≤ npts.toNat * dim.toNat :=
    Nat.mul_le_mul_right dim.toNat hid
  rw [Nat.succ_mul] at hrow
  have hoffset : (baseId * dim).toNat = baseId.toNat * dim.toNat := by
    rw [UInt32.toNat_mul, Nat.mod_eq_of_lt (by omega)]
  refine ⟨hoffset, ?_, fun malloc chunk hc => ?_⟩
  · show (baseId * dim).toNat + dim.toNat ≤ PQ.bufferSize
    rw [hoffset, PQ.bufferSize_eq]
    omega
  · have hc : chunk < dim.toNat := hc
    show Copied.data _ malloc ((baseId * dim).toNat + chunk) = _
    rw [hdata, hoffset]
    have hlt : baseId.toNat * dim.toNat + chunk
        < (codes.take (npts.toNat * dim.toNat)).length := by
      rw [List.length_take, min_eq_left hall]
      omega
    have hstand := stands_write malloc 0 _ (baseId.toNat * dim.toNat + chunk) hlt
    rw [Nat.zero_add] at hstand
    rw [hstand, List.getElem_take, List.getD_eq_getElem]

/-- **When the codes are in place**: what a load copies, the codes of the file as far as its header
counts them, is no more than the product of the arguments, which is one of 32 bits, and no more than
the buffer that `PQ::load` allocates for every file. -/
theorem codesInPlace_iff (numPoints numPqChunks npts dim : UInt32) (codes : List UInt8) :
    CodesInPlace numPoints numPqChunks npts dim codes ↔
      min codes.length (npts.toNat * dim.toNat)
          ≤ numPoints.toNat * numPqChunks.toNat % 2 ^ 32 ∧
        min codes.length (npts.toNat * dim.toNat) ≤ PQ.bufferSize := by
  refine ⟨fun h => ⟨room_iff.mp h.room, roomLoad_iff.mp h.roomLoad⟩, fun h => ?_⟩
  refine ⟨room_iff.mpr h.1, roomLoad_iff.mpr h.2, fun s hs hret baseId hid => ?_⟩
  refine finds_of_room hs h.2 hret ?_
  rw [loadCodes_codeFile] at hs
  obtain rfl := Option.some.inj hs
  exact hid

/-- A billion points of eight codes are not in place: `load_pq_structure` allocates `2 ^ 32` bytes
less than it copies. -/
theorem not_codesInPlace_billion :
    ¬ CodesInPlace 1000000000 8 1000000000 8 (List.replicate 8000000000 0) := by
  intro h
  have hroom := room_iff.mp h.room
  rw [List.length_replicate, show (1000000000 : UInt32).toNat = 1000000000 from rfl,
    show (8 : UInt32).toNat = 8 from rfl] at hroom
  omega

end InPlace

/-- **A lookup reads the codes of its point** where they are in place. -/
theorem computeDist_loadCodes {K : Type*} [Field K] {npts dim : UInt32} {codes : List UInt8}
    {s : CodeStore} (h : PQ.loadCodes (codeFile npts dim codes) = some s)
    (hlen : codes.length = npts.toNat * dim.toNat) (hroom : codes.length ≤ PQ.bufferSize)
    {baseId : UInt32} (hid : baseId.toNat < npts.toNat) (malloc : Bytes) (distVec : Buffer K) :
    s.computeDist true (s.copied.data malloc) distVec baseId
      = ∑ chunk ∈ Finset.range dim.toNat, distVec (chunk * numPqCentroids
          + (codes.getD (baseId.toNat * dim.toNat + chunk) 0).toNat) := by
  have hfinds : s.copied.returned = true → s.Finds codes baseId := fun hret =>
    finds_of_room h ((min_le_left _ _).trans hroom) hret hid
  rw [loadCodes_codeFile] at h
  obtain rfl := Option.some.inj h
  have hcodes := (hfinds ((returned_copyRows_iff npts.toNat 0 codes).mpr hlen.ge)).read malloc
  rw [CodeStore.computeDist, if_pos rfl, pqDistLookupSingleIn_eq]
  refine Finset.sum_congr rfl fun chunk hc => ?_
  rw [view_apply, hcodes chunk (Finset.mem_range.mp hc)]

end RedAnns
