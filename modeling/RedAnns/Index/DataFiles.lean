import RedAnns.Lib.Files
import RedAnns.Lib.Loop

/-!
The data files of `include/common.h`: `read_data` and `write_data` for the formats `bin` and `vecs`,
`read_gt_ivecs` and `write_gt_ivecs`.

A `bin` file has both counts in front of the matrix. A `vecs` file repeats the number of columns in
front of every row, and the number of rows comes from the size of the file. The templates over the
type `T` are generic over a `Codec`, whose `size` is `sizeof(T)`. Arrays carry the bound that the
language puts on their size in bytes, so what is written is an array that can exist.

* `fread`, `CArray`, `newArray`, `Disk`: the standard library, as far as it is used here.
* `writeDataVecs`, `readDataVecs`, `writeDataBin`, `readDataBin`, `writeData`, `readData`,
  `writeGtIvecs`, `readGtIvecs`: the source.
* `readRowsVecs_records`, `readGtRows_records`: what the loops of the readers find in the records of
  some rows.
* `dataFiles_iff`: a matrix always reads back, and a list of rows exactly when both counts fit in 32
  bits.
-/

namespace RedAnns

namespace Common

/-- How a call ends when it does not return: an exception, or an access outside an array. -/
inductive DataFault
  | thrown (what : String)
  | outside
  deriving DecidableEq

/-! ### The standard library -/

/-- The files that exist, and the paths that can be opened for writing. -/
structure Disk where
  files : String → Option (List UInt8)
  writable : String → Bool

/-- `fopen` for reading. -/
def Disk.openRead (disk : Disk) (path what : String) : Except DataFault (List UInt8) :=
  match disk.files path with
  | some file => .ok file
  | none => .error (.thrown what)

/-- `fopen` for writing, and `fclose` after the bytes `F` were written. -/
def Disk.put (disk : Disk) (path : String) (F : List UInt8) : Disk :=
  { disk with files := Function.update disk.files path (some F) }

section Source

variable {α : Type} (c : Codec α)

/-- An array of type `T[]`, which the language limits to `2 ^ 63 - 1` bytes. -/
@[ext]
structure CArray where
  values : List α
  fits : values.length * c.size < 2 ^ 63

variable {c} in
/-- The `n` values from the position `off` on. -/
def CArray.slice (a : CArray c) (off n : ℕ) : Except DataFault (List α) :=
  if off + n ≤ a.values.length then .ok ((a.values.drop off).take n) else .error .outside

variable {c} in
/-- The array with some values put at the position `off`. -/
def CArray.put (a : CArray c) (off : ℕ) (vs : List α) : Except DataFault (CArray c) :=
  if h : off + vs.length ≤ a.values.length then
    .ok ⟨a.values.take off ++ vs ++ a.values.drop (off + vs.length), by
      have hlen : (a.values.take off ++ vs ++ a.values.drop (off + vs.length)).length
          = a.values.length := by
        simp only [List.length_append, List.length_take, List.length_drop]
        omega
      rw [hlen]
      exact a.fits⟩
  else .error .outside

/-- `new T[n]`, which leaves the contents to the heap. -/
def newArray (n : ℕ) (heap : ℕ → α) : Except DataFault (CArray c) :=
  if h : n * c.size < 2 ^ 63 then .ok ⟨(List.range n).map heap, by simpa using h⟩
  else .error (.thrown "std::bad_array_new_length")

/-- `fread` of `n` values: those that the rest `F` of the file has, and what is left of it. -/
def fread (n : ℕ) (F : List UInt8) : List α × List UInt8 :=
  (c.decodeAll (min n (F.length / c.size)) F, F.drop (n * c.size))

/-- `fread` of one `unsigned` into a variable, which keeps its value at the end of the file. -/
def freadUnsigned (x : UInt32) (F : List UInt8) : UInt32 × List UInt8 :=
  let (vs, F) := fread Codec.uint32 1 F
  (vs.headD x, F)

/-! ### The matrices -/

/-- What a reader hands back: its two reference parameters and the array. -/
structure DataRead where
  N : UInt32
  Dim : UInt32
  data : CArray c

/-- The number of rows, from the size of the file. The size is a `long int` that the division
converts to `size_t`; the divisor fits for every `T` of less than `2 ^ 32` bytes. -/
def rowCount (sizebytes : ℕ) (Dim : UInt32) : UInt32 :=
  UInt32.ofNat (sizebytes % 2 ^ 64 / (4 + c.size * Dim.toNat))

/-- The two `fwrite`s of a row: the number of its columns and its values. -/
def record (Dim : UInt32) (row : List α) : List UInt8 :=
  Codec.uint32.encodeAll [Dim] ++ c.encodeAll row

/-- `write_data_vecs`. -/
def writeDataVecs (disk : Disk) (path : String) (data : CArray c) (N Dim : UInt32) :
    Except DataFault Disk := do
  if disk.writable path = false then throw (.thrown "error@write_data_vecs: File not found")
  let F ← (List.range N.toNat).foldlM (fun F i => do
    let row ← data.slice (i * Dim.toNat) Dim.toNat
    return F ++ record c Dim row) []
  return disk.put path F

/-- The variables of the loop of `read_data_vecs`. -/
structure VecsLoop where
  Dim : UInt32
  F : List UInt8
  data : CArray c

/-- A round of the loop of `read_data_vecs`. -/
def readRowVecs (s : VecsLoop c) (i : ℕ) : Except DataFault (VecsLoop c) := do
  let (Dim, F) := freadUnsigned s.Dim s.F
  let (vs, F) := fread c Dim.toNat F
  let data ← s.data.put (i * Dim.toNat) vs
  return ⟨Dim, F, data⟩

/-- `read_data_vecs`, on the value that the caller's variable `Dim` has before. -/
def readDataVecs (disk : Disk) (path : String) (Dim : UInt32) (heap : ℕ → α) :
    Except DataFault (DataRead c) := do
  let file ← disk.openRead path "error@read_data_vecs: Dataset not found"
  let Dim := (freadUnsigned Dim file).1
  let N := rowCount c file.length Dim
  let data ← newArray c (N.toNat * Dim.toNat) heap
  let s ← (List.range N.toNat).foldlM (readRowVecs c) ⟨Dim, file, data⟩
  return ⟨N, s.Dim, s.data⟩

/-- `write_data_bin`. -/
def writeDataBin (disk : Disk) (path : String) (data : CArray c) (N Dim : UInt32) :
    Except DataFault Disk := do
  if disk.writable path = false then throw (.thrown "error@write_data_bin: File not found")
  let F ← (List.range N.toNat).foldlM (fun F i => do
    let row ← data.slice (i * Dim.toNat) Dim.toNat
    return F ++ c.encodeAll row) (Codec.uint32.encodeAll [N] ++ Codec.uint32.encodeAll [Dim])
  return disk.put path F

/-- `read_data_bin`. -/
def readDataBin (disk : Disk) (path : String) (N Dim : UInt32) (heap : ℕ → α) :
    Except DataFault (DataRead c) := do
  let file ← disk.openRead path "error@read_data_bin: Dataset not found"
  let (N, F) := freadUnsigned N file
  let (Dim, F) := freadUnsigned Dim F
  let data ← newArray c (N.toNat * Dim.toNat) heap
  let data ← data.put 0 (fread c (N.toNat * Dim.toNat) F).1
  return ⟨N, Dim, data⟩

/-! ### The lists of rows -/

/-- A `std::vector<std::vector<T>>` in an address space of 64 bits: a vector has three pointers and
an array. -/
structure GroundTruth where
  rows : List (CArray c)
  fits : (rows.map fun r => 24 + r.values.length * c.size).sum < 2 ^ 64

/-- `write_gt_ivecs`. -/
def writeGtIvecs (disk : Disk) (path : String) (GT : GroundTruth c) : Except DataFault Disk := do
  if disk.writable path = false then throw (.thrown "error@write_gt_ivecs: File not found")
  let N := UInt32.ofNat GT.rows.length
  let F := (GT.rows.take N.toNat).flatMap fun row =>
    let K := UInt32.ofNat row.values.length
    record c K (row.values.take K.toNat)
  return disk.put path F

/-- The variables of the loop of `read_gt_ivecs`. -/
structure GtLoop where
  Dim : UInt32
  F : List UInt8
  gt : List (CArray c)

/-- A round of the loop of `read_gt_ivecs`. -/
def readGtRow (heap : ℕ → ℕ → α) (s : GtLoop c) (i : ℕ) : Except DataFault (GtLoop c) := do
  let (Dim, F) := freadUnsigned s.Dim s.F
  let nn ← newArray c Dim.toNat (heap i)
  let (vs, F) := fread c Dim.toNat F
  let nn ← nn.put 0 vs
  return ⟨Dim, F, s.gt ++ [nn]⟩

/-- What `read_gt_ivecs` hands back. -/
structure GtRead where
  N : UInt32
  Dim : UInt32
  gt : List (CArray c)

/-- `read_gt_ivecs`. -/
def readGtIvecs (disk : Disk) (path : String) (Dim : UInt32) (heap : ℕ → ℕ → α) :
    Except DataFault (GtRead c) := do
  let file ← disk.openRead path "error@read_gt_ivecs: Dataset not found"
  let Dim := (freadUnsigned Dim file).1
  let N := rowCount c file.length Dim
  let s ← (List.range N.toNat).foldlM (readGtRow c heap) ⟨Dim, file, []⟩
  return ⟨N, s.Dim, s.gt⟩

end Source

/-- `write_data`: the values of type `float` stand for their bits. -/
def writeData (disk : Disk) (path format : String) (data : CArray Codec.uint32) (N Dim : UInt32) :
    Except DataFault Disk :=
  if format = "bin" then writeDataBin Codec.uint32 disk path data N Dim
  else if format = "vecs" then writeDataVecs Codec.uint32 disk path data N Dim
  else .error (.thrown "error@read_data: unsurported file format.")

/-- `read_data`. -/
def readData (disk : Disk) (path format : String) (N Dim : UInt32) (heap : ℕ → UInt32) :
    Except DataFault (DataRead Codec.uint32) :=
  if format = "bin" then readDataBin Codec.uint32 disk path N Dim heap
  else if format = "vecs" then readDataVecs Codec.uint32 disk path Dim heap
  else .error (.thrown "error@read_data: unsurported file format.")

/-! ### Records -/

section Records

variable {α : Type} {c : Codec α}

lemma CArray.put_of_le {a : CArray c} {off : ℕ} {vs : List α}
    (h : off + vs.length ≤ a.values.length) : ∃ b, a.put off vs = .ok b ∧
      b.values = a.values.take off ++ vs ++ a.values.drop (off + vs.length) := by
  rw [CArray.put, dif_pos h]
  exact ⟨_, rfl, rfl⟩

/-- What was written is read, whatever follows it. -/
lemma fread_encodeAll (hsize : 0 < c.size) (vs : List α) (F : List UInt8) :
    fread c vs.length (c.encodeAll vs ++ F) = (vs, F) := by
  have hlen := c.length_encodeAll vs
  have hmin : vs.length ≤ (c.encodeAll vs ++ F).length / c.size := by
    rw [Nat.le_div_iff_mul_le hsize, List.length_append, hlen]
    exact Nat.le_add_right _ _
  rw [fread, min_eq_left hmin, c.decodeAll_encodeAll_append, List.drop_left' hlen]

lemma freadUnsigned_encodeAll (x y : UInt32) (F : List UInt8) :
    freadUnsigned x (Codec.uint32.encodeAll [y] ++ F) = (y, F) := by
  have h := fread_encodeAll (c := Codec.uint32) (by decide) [y] F
  rw [freadUnsigned, show (1 : ℕ) = [y].length from rfl, h]
  rfl

lemma length_record (Dim : UInt32) (row : List α) :
    (record c Dim row).length = 4 + row.length * c.size := by
  rw [record, List.length_append, Codec.length_encodeAll, Codec.length_encodeAll]
  rfl

/-- The records of some rows of equal length, and the number that the readers find there. -/
lemma rowCount_records {Dim : UInt32} {rows : List (List α)}
    (hrows : ∀ r ∈ rows, r.length = Dim.toNat) (hN : rows.length < 2 ^ 32)
    (hfile : rows.length * (4 + c.size * Dim.toNat) < 2 ^ 64) :
    (rowCount c (rows.flatMap (record c Dim)).length Dim).toNat = rows.length := by
  have hlen : (rows.flatMap (record c Dim)).length = rows.length * (4 + c.size * Dim.toNat) := by
    rw [List.length_flatMap, List.map_congr_left fun r hr => by
      rw [length_record, hrows r hr, Nat.mul_comm], List.map_const', List.sum_replicate,
      smul_eq_mul]
  rw [rowCount, hlen, Nat.mod_eq_of_lt hfile, Nat.mul_div_cancel _ (by omega),
    UInt32.toNat_ofNat_of_lt' hN]

lemma freadUnsigned_records {Dim : UInt32} {rows : List (List α)} (hne : rows ≠ []) (x : UInt32) :
    (freadUnsigned x (rows.flatMap (record c Dim))).1 = Dim := by
  cases rows with
  | nil => exact absurd rfl hne
  | cons r rows =>
      rw [List.flatMap_cons, record, List.append_assoc, freadUnsigned_encodeAll]

/-- **The loop of `read_data_vecs` on the records of some rows** puts them behind one another. -/
lemma readRowsVecs_records (hsize : 0 < c.size) {Dim : UInt32} {rows : List (List α)}
    (hrows : ∀ r ∈ rows, r.length = Dim.toNat) (F : List UInt8) (start : ℕ) (x : UInt32)
    (data : CArray c) (hlen : (start + rows.length) * Dim.toNat ≤ data.values.length) :
    ∃ s, (List.range' start rows.length).foldlM (readRowVecs c)
        ⟨x, rows.flatMap (record c Dim) ++ F, data⟩ = .ok s ∧ (rows ≠ [] → s.Dim = Dim) ∧ s.F = F ∧
      s.data.values = data.values.take (start * Dim.toNat) ++ rows.flatten
        ++ data.values.drop ((start + rows.length) * Dim.toNat) := by
  induction rows generalizing start x data with
  | nil =>
      refine ⟨_, rfl, fun h => absurd rfl h, rfl, ?_⟩
      simp
  | cons r rows ih =>
      have hr : r.length = Dim.toNat := hrows r (List.mem_cons_self ..)
      rw [List.length_cons] at hlen
      have hfit : (start + 1 + rows.length) * Dim.toNat ≤ data.values.length := by
        rwa [show start + 1 + rows.length = start + (rows.length + 1) by omega]
      have hroom : start * Dim.toNat + Dim.toNat ≤ data.values.length := by
        rw [← Nat.succ_mul]
        exact (Nat.mul_le_mul_right _ (by omega)).trans hfit
      have hput : start * Dim.toNat + r.length ≤ data.values.length := hr ▸ hroom
      obtain ⟨d, hd, hvalues⟩ := CArray.put_of_le hput
      have hstep : readRowVecs c ⟨x, (r :: rows).flatMap (record c Dim) ++ F, data⟩ start
          = .ok ⟨Dim, rows.flatMap (record c Dim) ++ F, d⟩ := by
        rw [readRowVecs, List.flatMap_cons, record, List.append_assoc, List.append_assoc,
          freadUnsigned_encodeAll]
        simp only [← hr, fread_encodeAll hsize]
        rw [hr, hd]
        rfl
      have hlend : d.values.length = data.values.length := by
        rw [hvalues, List.length_append, List.length_append, List.length_take, List.length_drop]
        omega
      obtain ⟨s, hrun, hDim, hF, hs⟩ := ih (fun r hr => hrows r (List.mem_cons_of_mem _ hr))
        (start + 1) Dim d (hlend.symm ▸ hfit)
      rw [List.length_cons, List.range'_succ, List.foldlM_cons, hstep]
      refine ⟨s, hrun, fun _ => ?_, hF, ?_⟩
      · cases rows with
        | nil =>
            obtain rfl := Except.ok.inj hrun
            rfl
        | cons r' rows => exact hDim (List.cons_ne_nil _ _)
      · -- what stands in front of the next row is what stood there and this row
        have hnext : (start + 1) * Dim.toNat = start * Dim.toNat + r.length := by
          rw [Nat.succ_mul, hr]
        have hhead : d.values.take ((start + 1) * Dim.toNat)
            = data.values.take (start * Dim.toNat) ++ r := by
          rw [hvalues, hnext]
          refine List.take_left' ?_
          rw [List.length_append, List.length_take]
          omega
        have htail : d.values.drop ((start + 1 + rows.length) * Dim.toNat)
            = data.values.drop ((start + (rows.length + 1)) * Dim.toNat) := by
          have hsplit : (start + 1 + rows.length) * Dim.toNat
              = (start * Dim.toNat + r.length) + rows.length * Dim.toNat := by
            rw [Nat.add_mul, hnext]
          have hfront : (data.values.take (start * Dim.toNat) ++ r).length
              = start * Dim.toNat + r.length := by
            rw [List.length_append, List.length_take]
            omega
          rw [hvalues, hsplit, ← List.drop_drop, List.drop_left' hfront, List.drop_drop, ← hsplit,
            show start + 1 + rows.length = start + (rows.length + 1) by omega]
        rw [hs, hhead, htail, List.flatten_cons, List.append_assoc (List.take _ _) r]

/-! ### Matrices -/

/-- The rows of a matrix. -/
def matrixRows (values : List α) (N Dim : ℕ) : List (List α) :=
  (List.range N).map fun i => (values.drop (i * Dim)).take Dim

lemma matrixRows_succ (values : List α) (N Dim : ℕ) : matrixRows values (N + 1) Dim
    = matrixRows values N Dim ++ [(values.drop (N * Dim)).take Dim] := by
  rw [matrixRows, List.range_succ, List.map_append]
  rfl

@[simp] lemma length_matrixRows (values : List α) (N Dim : ℕ) :
    (matrixRows values N Dim).length = N := by
  rw [matrixRows, List.length_map, List.length_range]

lemma flatten_matrixRows (values : List α) (N Dim : ℕ) :
    (matrixRows values N Dim).flatten = values.take (N * Dim) := by
  induction N with
  | zero => rw [Nat.zero_mul, List.take_zero]; rfl
  | succ N ih =>
      rw [matrixRows_succ, List.flatten_append, ih, List.flatten_singleton, Nat.succ_mul,
        List.take_add]

lemma length_of_mem_matrixRows {values r : List α} {N Dim : ℕ} (hlen : values.length = N * Dim)
    (hr : r ∈ matrixRows values N Dim) : r.length = Dim := by
  obtain ⟨i, hi, rfl⟩ := List.mem_map.mp hr
  have hfit : (i + 1) * Dim ≤ N * Dim := Nat.mul_le_mul_right _ (List.mem_range.mp hi)
  rw [Nat.succ_mul] at hfit
  rw [List.length_take, List.length_drop]
  omega

/-- **The loop of a writer** appends what it makes of the rows. -/
lemma foldlM_slices {data : CArray c} {N Dim : ℕ} (hlen : data.values.length = N * Dim)
    (g : List α → List UInt8) (F : List UInt8) :
    ((List.range N).foldlM (fun F i => do
      let row ← data.slice (i * Dim) Dim
      return F ++ g row) F : Except DataFault (List UInt8))
        = .ok (F ++ (matrixRows data.values N Dim).flatMap g) := by
  obtain ⟨F', hrun, rfl⟩ := foldlM_range
    (I := fun n F' => F' = F ++ (matrixRows data.values n Dim).flatMap g)
    (f := fun F i => (do
      let row ← data.slice (i * Dim) Dim
      return F ++ g row : Except DataFault (List UInt8)))
    (fun n hn F' hF' => by
      have hfit : (n + 1) * Dim ≤ N * Dim := Nat.mul_le_mul_right _ hn
      rw [Nat.succ_mul, ← hlen] at hfit
      refine ⟨F' ++ g ((data.values.drop (n * Dim)).take Dim), ?_, ?_⟩
      · rw [CArray.slice, if_pos hfit]
        rfl
      · rw [hF', matrixRows_succ, List.flatMap_append, List.flatMap_singleton, List.append_assoc])
    (by rw [matrixRows, List.range_zero, List.map_nil, List.flatMap_nil, List.append_nil])
  exact hrun

lemma openRead_put (disk : Disk) (path what : String) (F : List UInt8) :
    (disk.put path F).openRead path what = .ok F := by
  rw [Disk.openRead, Disk.put]
  simp

lemma exists_newArray {n : ℕ} (h : n * c.size < 2 ^ 63) (heap : ℕ → α) :
    ∃ a, newArray c n heap = .ok a ∧ a.values.length = n := by
  rw [newArray, dif_pos h]
  exact ⟨_, rfl, by simp⟩

/-- A matrix reads back from a `vecs` file. -/
theorem readDataVecs_writeDataVecs (hsize : 0 < c.size) {N Dim : UInt32} (hN : 0 < N.toNat)
    {data : CArray c} (hlen : data.values.length = N.toNat * Dim.toNat) {disk : Disk}
    {path : String} (hopen : disk.writable path = true) (x : UInt32) (heap : ℕ → α) :
    ∃ disk', writeDataVecs c disk path data N Dim = .ok disk' ∧
      readDataVecs c disk' path x heap = .ok ⟨N, Dim, data⟩ := by
  have hN' := N.toNat_lt
  have hfits := data.fits
  rw [hlen] at hfits
  have hrows : ∀ r ∈ matrixRows data.values N.toNat Dim.toNat, r.length = Dim.toNat :=
    fun r hr => length_of_mem_matrixRows hlen hr
  have hlength := length_matrixRows data.values N.toNat Dim.toNat
  have hfile : N.toNat * (4 + c.size * Dim.toNat) < 2 ^ 64 := by
    have hsplit : N.toNat * (4 + c.size * Dim.toNat)
        = 4 * N.toNat + N.toNat * Dim.toNat * c.size := by
      ring
    omega
  refine ⟨disk.put path ((matrixRows data.values N.toNat Dim.toNat).flatMap (record c Dim)), ?_, ?_⟩
  · rw [writeDataVecs, hopen, if_neg (by simp), foldlM_slices hlen (record c Dim) []]
    rfl
  · have hcount :=
      rowCount_records hrows (by rw [hlength]; exact hN') (by rw [hlength]; exact hfile)
    rw [hlength, UInt32.toNat_inj] at hcount
    obtain ⟨a, ha, hlena⟩ := exists_newArray (c := c) hfits heap
    obtain ⟨s, hrun, hDim, -, hvalues⟩ := readRowsVecs_records hsize hrows [] 0 Dim a
      (by rw [hlength, hlena, Nat.zero_add])
    have hne : matrixRows data.values N.toNat Dim.toNat ≠ [] := fun h => by
      rw [h] at hlength
      exact absurd hlength hN.ne
    rw [hlength, ← List.range_eq_range', List.append_nil] at hrun
    have hdata : s.data = data := by
      refine CArray.ext ?_
      rw [hvalues, Nat.zero_mul, List.take_zero, List.nil_append, hlength, Nat.zero_add, ← hlena,
        List.drop_length, List.append_nil, flatten_matrixRows, ← hlen, List.take_length]
    rw [readDataVecs, openRead_put, ok_bind]
    simp only [freadUnsigned_records hne, hcount]
    rw [ha, ok_bind, hrun, ok_bind, hDim hne, hdata]
    rfl

/-- A matrix reads back from a `bin` file. -/
theorem readDataBin_writeDataBin (hsize : 0 < c.size) {N Dim : UInt32} {data : CArray c}
    (hlen : data.values.length = N.toNat * Dim.toNat) {disk : Disk} {path : String}
    (hopen : disk.writable path = true) (x y : UInt32) (heap : ℕ → α) :
    ∃ disk', writeDataBin c disk path data N Dim = .ok disk' ∧
      readDataBin c disk' path x y heap = .ok ⟨N, Dim, data⟩ := by
  have hfits := data.fits
  rw [hlen] at hfits
  have hrows : (matrixRows data.values N.toNat Dim.toNat).flatMap c.encodeAll
      = c.encodeAll data.values := by
    have hall : data.values = (matrixRows data.values N.toNat Dim.toNat).flatten := by
      rw [flatten_matrixRows, ← hlen, List.take_length]
    conv_rhs => rw [hall, Codec.encodeAll, ← List.flatMap_id, List.flatMap_assoc]
    rfl
  refine ⟨disk.put path (Codec.uint32.encodeAll [N] ++ Codec.uint32.encodeAll [Dim]
    ++ c.encodeAll data.values), ?_, ?_⟩
  · rw [writeDataBin, hopen, if_neg (by simp), foldlM_slices hlen c.encodeAll, hrows]
    rfl
  · obtain ⟨a, ha, hlena⟩ := exists_newArray (c := c) hfits heap
    have hput : 0 + data.values.length ≤ a.values.length := by omega
    obtain ⟨b, hb, hvalues⟩ := CArray.put_of_le hput
    have hdata : b = data := by
      refine CArray.ext ?_
      rw [hvalues, List.take_zero, List.nil_append, List.drop_of_length_le (by omega),
        List.append_nil]
    have hread := fread_encodeAll hsize data.values []
    rw [hlen, List.append_nil] at hread
    rw [readDataBin, openRead_put, ok_bind, List.append_assoc, freadUnsigned_encodeAll]
    simp only [freadUnsigned_encodeAll, hread]
    rw [ha, ok_bind, hb, ok_bind, hdata]
    rfl

/-! ### Lists of rows -/

/-- **The loop of `read_gt_ivecs` on the records of some rows** pushes them behind what it has. -/
lemma readGtRows_records (hsize : 0 < c.size) {Dim : UInt32} {rows : List (CArray c)}
    (hrows : ∀ r ∈ rows, r.values.length = Dim.toNat) (heap : ℕ → ℕ → α) (F : List UInt8)
    (start : ℕ) (x : UInt32) (gt : List (CArray c)) :
    ∃ s, (List.range' start rows.length).foldlM (readGtRow c heap)
        ⟨x, (rows.map CArray.values).flatMap (record c Dim) ++ F, gt⟩ = .ok s ∧
      (rows ≠ [] → s.Dim = Dim) ∧ s.gt = gt ++ rows := by
  induction rows generalizing start x gt with
  | nil => exact ⟨_, rfl, fun h => absurd rfl h, (List.append_nil gt).symm⟩
  | cons r rows ih =>
      have hr : r.values.length = Dim.toNat := hrows r (List.mem_cons_self ..)
      have hfits := r.fits
      obtain ⟨a, ha, hlena⟩ := exists_newArray (c := c) hfits (heap start)
      obtain ⟨b, hb, hvalues⟩ :=
        CArray.put_of_le (show 0 + r.values.length ≤ a.values.length by omega)
      have hrow : b = r := by
        refine CArray.ext ?_
        rw [hvalues, List.take_zero, List.nil_append, List.drop_of_length_le (by omega),
          List.append_nil]
      have hstep : readGtRow c heap
          ⟨x, ((r :: rows).map CArray.values).flatMap (record c Dim) ++ F, gt⟩ start
          = .ok ⟨Dim, (rows.map CArray.values).flatMap (record c Dim) ++ F, gt ++ [r]⟩ := by
        rw [readGtRow, List.map_cons, List.flatMap_cons, record, List.append_assoc,
          List.append_assoc, freadUnsigned_encodeAll]
        simp only [← hr, fread_encodeAll hsize]
        rw [ha, ok_bind, hb, ok_bind, hrow]
        rfl
      obtain ⟨s, hrun, hDim, hgt⟩ := ih (fun r hr => hrows r (List.mem_cons_of_mem _ hr))
        (start + 1) Dim (gt ++ [r])
      rw [List.length_cons, List.range'_succ, List.foldlM_cons, hstep]
      refine ⟨s, hrun, fun _ => ?_, ?_⟩
      · cases rows with
        | nil =>
            obtain rfl := Except.ok.inj hrun
            rfl
        | cons r' rows => exact hDim (List.cons_ne_nil _ _)
      · rw [hgt, List.append_assoc]
        rfl

/-- A list of equally long rows reads back when both counts fit in 32 bits. -/
theorem readGtIvecs_writeGtIvecs (hsize : 0 < c.size) {GT : GroundTruth c} {k : ℕ}
    (hne : GT.rows ≠ []) (hrows : ∀ r ∈ GT.rows, r.values.length = k)
    (hN : GT.rows.length < 2 ^ 32) (hk : k < 2 ^ 32) {disk : Disk} {path : String}
    (hopen : disk.writable path = true) (x : UInt32) (heap : ℕ → ℕ → α) :
    ∃ disk', writeGtIvecs c disk path GT = .ok disk' ∧ readGtIvecs c disk' path x heap
      = .ok ⟨UInt32.ofNat GT.rows.length, UInt32.ofNat k, GT.rows⟩ := by
  have hDim : (UInt32.ofNat k).toNat = k := UInt32.toNat_ofNat_of_lt' hk
  have hNum : (UInt32.ofNat GT.rows.length).toNat = GT.rows.length := UInt32.toNat_ofNat_of_lt' hN
  have hlen : ∀ r ∈ GT.rows, r.values.length = (UInt32.ofNat k).toNat :=
    fun r hr => (hrows r hr).trans hDim.symm
  have hlen' : ∀ r ∈ GT.rows.map CArray.values, r.length = (UInt32.ofNat k).toNat := by
    intro r hr
    obtain ⟨a, ha, rfl⟩ := List.mem_map.mp hr
    exact hlen a ha
  have hfile : (GT.rows.map CArray.values).length * (4 + c.size * (UInt32.ofNat k).toNat)
      < 2 ^ 64 := by
    have hfits := GT.fits
    rw [List.map_congr_left fun r hr => by rw [hrows r hr], List.map_const', List.sum_replicate,
      smul_eq_mul] at hfits
    rw [List.length_map, hDim]
    refine lt_of_le_of_lt (Nat.mul_le_mul_left _ ?_) hfits
    rw [Nat.mul_comm c.size]
    omega
  have hne' : GT.rows.map CArray.values ≠ [] := fun h => hne (List.map_eq_nil_iff.mp h)
  refine ⟨disk.put path ((GT.rows.map CArray.values).flatMap (record c (UInt32.ofNat k))), ?_, ?_⟩
  · have hbytes : (GT.rows.take GT.rows.length).flatMap (fun row =>
        record c (UInt32.ofNat row.values.length)
          (row.values.take (UInt32.ofNat row.values.length).toNat))
        = (GT.rows.map CArray.values).flatMap (record c (UInt32.ofNat k)) := by
      rw [List.take_length, List.flatMap_map]
      refine List.flatMap_congr fun r hr => ?_
      rw [hrows r hr, hDim, List.take_of_length_le (hrows r hr).le]
    rw [writeGtIvecs, hopen, if_neg (by simp)]
    simp only [hNum, hbytes]
    rfl
  · have hcount := rowCount_records hlen' (by rw [List.length_map]; exact hN) hfile
    rw [List.length_map] at hcount
    obtain ⟨s, hrun, hDim', hgt⟩ := readGtRows_records hsize hlen heap [] 0 (UInt32.ofNat k) []
    rw [← List.range_eq_range', List.append_nil] at hrun
    rw [readGtIvecs, openRead_put, ok_bind]
    simp only [freadUnsigned_records hne', hcount, hrun]
    rw [ok_bind, hDim' hne, hgt, ← hcount, UInt32.ofNat_toNat]
    rfl

lemma length_of_newArray {n : ℕ} {heap : ℕ → α} {a : CArray c} (h : newArray c n heap = .ok a) :
    a.values.length = n := by
  rw [newArray] at h
  split_ifs at h
  obtain rfl := Except.ok.inj h
  simp

lemma CArray.length_of_put {a b : CArray c} {off : ℕ} {vs : List α} (h : a.put off vs = .ok b) :
    b.values.length = a.values.length := by
  rw [CArray.put] at h
  split_ifs at h with hle
  obtain rfl := Except.ok.inj h
  simp only [List.length_append, List.length_take, List.length_drop]
  omega

/-- A round of the loop of `read_gt_ivecs` pushes one row, whose length is a 32-bit number. -/
lemma readGtRow_inv {heap : ℕ → ℕ → α} {s s' : GtLoop c} {i : ℕ}
    (h : readGtRow c heap s i = .ok s') (hs : ∀ r ∈ s.gt, r.values.length < 2 ^ 32) :
    s'.gt.length = s.gt.length + 1 ∧ ∀ r ∈ s'.gt, r.values.length < 2 ^ 32 := by
  rw [readGtRow] at h
  simp only at h
  obtain ⟨nn, hnew, h⟩ := bind_eq_ok.mp h
  obtain ⟨nn', hput, h⟩ := bind_eq_ok.mp h
  obtain rfl := Except.ok.inj h
  refine ⟨by rw [List.length_append]; rfl, fun r hr => ?_⟩
  rcases List.mem_append.mp hr with hr | hr
  · exact hs r hr
  · obtain rfl := List.mem_singleton.mp hr
    rw [CArray.length_of_put hput, length_of_newArray hnew]
    exact UInt32.toNat_lt _

/-- **Whatever is read has 32-bit counts.** -/
lemma lt_of_readGtIvecs {disk : Disk} {path : String} {x : UInt32} {heap : ℕ → ℕ → α}
    {out : GtRead c} (h : readGtIvecs c disk path x heap = .ok out) :
    out.gt.length < 2 ^ 32 ∧ ∀ r ∈ out.gt, r.values.length < 2 ^ 32 := by
  rw [readGtIvecs] at h
  obtain ⟨file, -, h⟩ := bind_eq_ok.mp h
  simp only at h
  obtain ⟨s, hrun, h⟩ := bind_eq_ok.mp h
  obtain rfl := Except.ok.inj h
  obtain ⟨hlen, hrows⟩ := of_foldlM_range
    (I := fun k s => s.gt.length = k ∧ ∀ r ∈ s.gt, r.values.length < 2 ^ 32)
    (fun k _ s s' hs hrow => by
      obtain ⟨hlen, hrows⟩ := readGtRow_inv hrow hs.2
      exact ⟨hlen.trans (congrArg (· + 1) hs.1), hrows⟩)
    ⟨rfl, fun r hr => absurd hr List.not_mem_nil⟩ hrun
  exact ⟨hlen.trans_lt (UInt32.toNat_lt _), hrows⟩

end Records

/-- **A matrix reads back**: on every disk where the file can be opened, whatever the two variables
of the reader and the new array hold before. -/
def MatrixReadsBack (format : String) (N Dim : UInt32) (data : CArray Codec.uint32) : Prop :=
  ∀ (disk : Disk) (path : String), disk.writable path = true →
    ∀ (N₀ Dim₀ : UInt32) (heap : ℕ → UInt32), ∃ disk',
      writeData disk path format data N Dim = .ok disk' ∧
      readData disk' path format N₀ Dim₀ heap = .ok ⟨N, Dim, data⟩

/-- **A list of rows of length `k` reads back**, with its two counts. -/
def GroundTruth.ReadsBack {α : Type} {c : Codec α} (GT : GroundTruth c) (k : ℕ) : Prop :=
  ∀ (disk : Disk) (path : String), disk.writable path = true →
    ∀ (Dim₀ : UInt32) (heap : ℕ → ℕ → α), ∃ disk' out,
      writeGtIvecs c disk path GT = .ok disk' ∧ readGtIvecs c disk' path Dim₀ heap = .ok out ∧
      out.N.toNat = GT.rows.length ∧ out.Dim.toNat = k ∧ out.gt = GT.rows

lemma GroundTruth.ReadsBack.lt {α : Type} {c : Codec α} {GT : GroundTruth c} {k : ℕ}
    (h : GT.ReadsBack k) :
    GT.rows.length < 2 ^ 32 ∧ ∀ r ∈ GT.rows, r.values.length < 2 ^ 32 := by
  obtain ⟨disk', out, -, hread, -, -, hgt⟩ := h ⟨fun _ => none, fun _ => true⟩ "" rfl 0
    fun _ _ => c.decode []
  rw [← hgt]
  exact lt_of_readGtIvecs hread

/-- **Data files read back what was written**: every matrix in both formats, and a list of equally
long rows exactly when both counts fit in 32 bits. -/
theorem dataFiles_iff {α : Type} (c : Codec α) (hsize : 0 < c.size) :
    (∀ format ∈ ["bin", "vecs"], ∀ N Dim : UInt32, 0 < N → 0 < Dim →
      ∀ data : CArray Codec.uint32, data.values.length = N.toNat * Dim.toNat →
        MatrixReadsBack format N Dim data) ∧
    ∀ (GT : GroundTruth c) (k : ℕ), 0 < k → GT.rows ≠ [] →
      (∀ r ∈ GT.rows, r.values.length = k) →
        (GT.ReadsBack k ↔ GT.rows.length < 2 ^ 32 ∧ k < 2 ^ 32) := by
  refine ⟨fun format hformat N Dim hN _ data hlen disk path hopen N₀ Dim₀ heap => ?_,
    fun GT k _ hne hrows => ⟨fun h => ?_, fun h disk path hopen Dim₀ heap => ?_⟩⟩
  · rcases List.mem_pair.mp hformat with rfl | rfl
    · exact readDataBin_writeDataBin (by decide) hlen hopen N₀ Dim₀ heap
    · exact readDataVecs_writeDataVecs (by decide) (UInt32.lt_iff_toNat_lt.mp hN) hlen
        hopen Dim₀ heap
  · obtain ⟨hlen, hrow⟩ := h.lt
    obtain ⟨r, hr⟩ := List.exists_mem_of_ne_nil _ hne
    exact ⟨hlen, hrows r hr ▸ hrow r hr⟩
  · obtain ⟨disk', hwrite, hread⟩ :=
      readGtIvecs_writeGtIvecs hsize hne hrows h.1 h.2 hopen Dim₀ heap
    exact ⟨disk', _, hwrite, hread, UInt32.toNat_ofNat_of_lt' h.1, UInt32.toNat_ofNat_of_lt' h.2,
      rfl⟩

theorem dataFiles_iff_uint32 :
    (∀ format ∈ ["bin", "vecs"], ∀ N Dim : UInt32, 0 < N → 0 < Dim →
      ∀ data : CArray Codec.uint32, data.values.length = N.toNat * Dim.toNat →
        MatrixReadsBack format N Dim data) ∧
    ∀ (GT : GroundTruth Codec.uint32) (k : ℕ), 0 < k → GT.rows ≠ [] →
      (∀ r ∈ GT.rows, r.values.length = k) →
        (GT.ReadsBack k ↔ GT.rows.length < 2 ^ 32 ∧ k < 2 ^ 32) :=
  dataFiles_iff Codec.uint32 (by decide)

/-- A list of one row of `n` entries. -/
def oneRow (n : ℕ) (h : 24 + n * 4 < 2 ^ 63) : GroundTruth Codec.uint32 where
  rows := [⟨List.replicate n 0, by
    rw [List.length_replicate]
    exact lt_of_le_of_lt (Nat.le_add_left _ 24) h⟩]
  fits := by
    rw [List.map_singleton, List.sum_singleton, List.length_replicate]
    exact h.trans (by norm_num)

lemma oneRow_rows {n : ℕ} (h : 24 + n * 4 < 2 ^ 63) :
    ∃ r, (oneRow n h).rows = [r] ∧ r.values.length = n := ⟨_, rfl, List.length_replicate⟩

lemma longRow_fits : 24 + 2 ^ 32 * 4 < 2 ^ 63 := by norm_num

/-- One row of `2 ^ 32` entries, whose length is written as 0. -/
theorem not_readsBack_longRow :
    ∃ r, (oneRow (2 ^ 32) longRow_fits).rows = [r] ∧ r.values.length = 2 ^ 32 ∧
      ¬ (oneRow (2 ^ 32) longRow_fits).ReadsBack (2 ^ 32) := by
  obtain ⟨r, hrows, hlen⟩ := oneRow_rows longRow_fits
  refine ⟨r, hrows, hlen, fun h => ?_⟩
  have hlt := h.lt.2 r (by rw [hrows]; exact List.mem_singleton_self r)
  rw [hlen] at hlt
  exact lt_irrefl _ hlt

end Common

end RedAnns
