import RedAnns.Core.Quantization

/-!
The entry points: the scan of `generate_more_entry_points` (`include/generate_subgraph.h`) for the
points nearest to the final pivots.

The points are read block by block. Running minima, one for each pivot, are carried across the
blocks, and the vector of a new minimum is copied into a buffer of its own.

* `EntryJob`, `Medoids`, `scanBlock`, `generateMoreEntryPoints`: the source, from the final pivots
  on.
* `Assigned`, `FirstAssigned`: the points of a pivot, and the first of the nearest of them.
* `Consistent`: what the two files are for; `Usable`: when they are right.
* `Scanned`: the invariant of the scan: the minima of the points before.
* `consistent_iff`: the two are the same, for every size of the blocks; `not_consistent_twoPivots`:
  a pivot without points.
-/

namespace RedAnns.EntryPoints

open Checked Bytes
open MathUtils (CentersCall CentersOut MathEnv)

/-! ### The source -/

/-- What a call is given: the data file and the final pivots. -/
structure EntryJob {α : Type} (codec : Codec α) (K : Type) where
  dataFile : DataFile codec
  toFloat : α → K
  epNumParts : ℕ
  pivotData : Buffer K
  epNumParts_pos : 0 < epNumParts

/-- The running minima: `closest_id`, `closest_dis` and `store_disk_data`. -/
structure Medoids (K : Type) where
  closestId : Allocated UInt32
  closestDis : Allocated K
  storeDiskData : Buffer K

/-- The reader, the arrays that the blocks share, and the minima. -/
structure EntryState (α K : Type) where
  rest : List UInt8
  blockDataT : Buffer α
  blockTrainDataFloat : Buffer K
  blockClosestCenters : Buffer UInt32
  blockClosestDistance : Buffer K
  medoids : Medoids K

/-- What the memory holds before the call: the arrays of the searches, block by block, and the
buffer of the vectors. -/
structure EntryMemory (K : Type) where
  heap : ℕ → Heap K
  storeDiskData : Buffer K

/-- A file that `save_bin` writes. -/
structure BinFile (α : Type) where
  npts : UInt32
  ndims : UInt32
  data : List α

/-- The two files of the entry points. -/
structure EntryFiles (K : Type) where
  vectors : BinFile K
  ids : BinFile UInt32

section Source

variable {α K : Type} [Inhabited α] [Field K] [LinearOrder K] {codec : Codec α}
  (job : EntryJob codec K)

/-- The initial value of `closest_dis`: `0x3fffffff` as a `float`. -/
def largeDistance : K := (2 ^ 30 : ℕ)

/-- `memset` of `count` bytes in an array of `float`s, which clears the entries it covers. -/
def clearBytes (m : Buffer K) (count : ℕ) : Buffer K :=
  fun a => if 4 * (a + 1) ≤ count then 0 else m a

/-- `block_closest_centers[p]` as an `int` index. -/
def intIndex (id : UInt32) : Except Stop ℕ :=
  if id.toNat < 2 ^ 31 then .ok id.toNat else .error (.internal .outside)

/-- The body of the loop over the points of a block. -/
def updateMedoid (dim startId : ℕ) (trainData : Buffer K) (centers : Buffer UInt32)
    (distance : Buffer K) (m : Medoids K) (p : ℕ) : Except Stop (Medoids K) := do
  let centroids ← intIndex (centers p)
  let thisId := UInt32.ofNat (startId + p)
  let best ← (m.closestDis.get centroids).mapError Stop.internal
  if distance p < best then
    let closestDis ← (m.closestDis.set centroids (distance p)).mapError Stop.internal
    let closestId ← (m.closestId.set centroids thisId).mapError Stop.internal
    return ⟨closestId, closestDis, m.storeDiskData.copy (centroids * dim) dim
      (trainData.view (p * dim))⟩
  else return m

/-- The search of a block. -/
def blockCall (trainData : Buffer K) (curBlkSize dim : ℕ) : CentersCall K where
  data := trainData
  numPoints := curBlkSize
  dim := dim
  pivotData := job.pivotData
  numCenters := job.epNumParts
  k := 1
  ptsNormsSquared := none
  norms_eq := fun _ h => absurd h (by simp)

/-- One block. -/
def scanBlock (env : MathEnv K) (heap : ℕ → Heap K) (npts dim blockSize : ℕ) (s : EntryState α K)
    (block : ℕ) : Except Stop (EntryState α K) := do
  let startId := block * blockSize
  let endId := min ((block + 1) * blockSize) npts
  let curBlkSize := endId - startId
  let parts ← Checked.readBytes (codec.size * (curBlkSize * dim)) s.rest
  let values := codec.decodeAll (curBlkSize * dim) parts.1
  let blockDataT := s.blockDataT.copy 0 (curBlkSize * dim) fun a => values.getD a default
  let trainData := s.blockTrainDataFloat.mapRows curBlkSize dim dim 0
    fun i j _ => job.toFloat (blockDataT (i * dim + j))
  let found ← (MathUtils.computeClosestCentersWithDistances { env with heap := heap block }
    (blockCall job trainData curBlkSize dim) ⟨s.blockClosestCenters, none⟩
    s.blockClosestDistance).mapError Stop.internal
  let medoids ← (List.range curBlkSize).foldlM
    (updateMedoid dim startId trainData found.1.ivf found.2) s.medoids
  return {
    rest := parts.2
    blockDataT
    blockTrainDataFloat := trainData
    blockClosestCenters := found.1.ivf
    blockClosestDistance := found.2
    medoids }

/-- The state before the loop over the blocks. -/
def startScan (memory : EntryMemory K) (dim : ℕ) (body : List UInt8) : EntryState α K where
  rest := body
  blockDataT := fun _ => default
  blockTrainDataFloat := fun _ => 0
  blockClosestCenters := fun _ => 0
  blockClosestDistance := fun _ => 0
  medoids :=
    { closestId := ⟨job.epNumParts, fun _ => 0⟩
      closestDis := ⟨job.epNumParts, fun _ => largeDistance⟩
      storeDiskData := clearBytes memory.storeDiskData (job.epNumParts * dim) }

/-- `save_bin`. -/
def saveBin {β : Type} (data : Buffer β) (npts ndims : ℕ) : BinFile β :=
  ⟨UInt32.ofNat npts, UInt32.ofNat ndims, data.take (npts * ndims)⟩

/-- `generate_more_entry_points`, from the final pivots on; the blocks have at most `maxBlockSize`
points, which is `ENTRY_BLOCK_SIZE`, 500000. -/
def generateMoreEntryPoints (env : MathEnv K) (memory : EntryMemory K) (maxBlockSize : ℕ) :
    Except Stop (EntryFiles K) := do
  let npts32 ← Checked.readBytes 4 job.dataFile.bytes
  let basedim32 ← Checked.readBytes 4 npts32.2
  let npts := decodeNat npts32.1
  let dim := decodeNat basedim32.1
  let blockSize := if npts ≤ maxBlockSize then npts else maxBlockSize
  let numBlocks ← Checked.divRoundUp npts blockSize
  let s ← (List.range numBlocks).foldlM (scanBlock job env memory.heap npts dim blockSize)
    (startScan job memory dim basedim32.2)
  return ⟨saveBin s.medoids.storeDiskData job.epNumParts dim,
    saveBin s.medoids.closestId.entry job.epNumParts 1⟩

end Source

/-! ### The points of the pivots -/

namespace EntryJob

variable {α K : Type} [Inhabited α] [Field K] [LinearOrder K] {codec : Codec α}
  (job : EntryJob codec K)

def npts : ℕ := job.dataFile.npts.toNat

def dim : ℕ := job.dataFile.dim.toNat

/-- Coordinate `d` of point `q`. -/
def coord (q d : ℕ) : K := job.toFloat (job.dataFile.values.getD (q * job.dim + d) default)

/-- The squared distance of point `q` and pivot `j`. -/
def dist (q j : ℕ) : K :=
  ∑ d ∈ Finset.range job.dim, (job.coord q d - job.pivotData (j * job.dim + d)) ^ 2

/-- Pivot `i` is the first nearest one of point `q`. -/
def Assigned (q i : ℕ) : Prop := FirstLeast (job.dist q) job.epNumParts i

/-- Of the points of pivot `i`, `q` is the first one at least distance. -/
structure FirstAssigned (i q : ℕ) : Prop where
  lt : q < job.npts
  assigned : job.Assigned q i
  le : ∀ p < job.npts, job.Assigned p i → job.dist q i ≤ job.dist p i
  first : ∀ p < q, job.Assigned p i → job.dist q i < job.dist p i

/-- **The ids and the vectors describe the same points**: entry `i` of the ids is a point, row `i`
of the vectors is its vector, and if pivot `i` has points, it is the first one of them at least
distance; whatever the memory held before. -/
def Consistent (env : MathEnv K) (maxBlockSize : ℕ) : Prop :=
  ∀ memory, ∃ files, generateMoreEntryPoints job env memory maxBlockSize = .ok files ∧
    ∀ i < job.epNumParts, (files.ids.data.getD i 0).toNat < job.npts ∧
      (∀ d < job.dim, files.vectors.data.getD (i * job.dim + d) 0
        = job.coord (files.ids.data.getD i 0).toNat d) ∧
      ((∃ q < job.npts, job.Assigned q i) → job.FirstAssigned i (files.ids.data.getD i 0).toNat)

/-- A point of pivot `i` is nearer than the initial value of its minimum. -/
def Reached (i : ℕ) : Prop := ∃ q < job.npts, job.Assigned q i ∧ job.dist q i < largeDistance

/-- Row `i` of the buffer is cleared, and so is the vector of point `0`. -/
def Blank (i : ℕ) : Prop :=
  job.dim = 0 ∨ (4 * (i + 1) ≤ job.epNumParts ∧ ∀ d < job.dim, job.coord 0 d = 0)

/-- **When the files are right**: every point has a pivot nearer than the largest float, the pivots
that have points are numbers of type `int`, and each pivot is reached, up to pivots for which the
default id and the cleared row happen to be right. -/
structure Usable : Prop where
  below : ∀ q < job.npts, ∃ j < job.epNumParts, job.dist q j < (floatMax : K)
  fits : ∀ q < job.npts, ∀ i, job.Assigned q i → i < 2 ^ 31
  covered : ∀ i < job.epNumParts, job.Reached i ∨
    (job.Blank i ∧ ((∃ q < job.npts, job.Assigned q i) → job.FirstAssigned i 0))

end EntryJob

/-! ### The minima -/

namespace EntryJob

variable {α K : Type} [Inhabited α] [Field K] [LinearOrder K] {codec : Codec α}
  {job : EntryJob codec K}

/-- What the search of a point leaves where `before` stood. -/
def foundId (job : EntryJob codec K) (before : UInt32) (q : ℕ) : UInt32 :=
  (scanLeast UInt32.ofNat (job.dist q) job.epNumParts (before, (floatMax : K))).1

/-- The pivot of a point, as the scan finds it. -/
def pivotOf (job : EntryJob codec K) (q : ℕ) : ℕ := (job.foundId 0 q).toNat

/-- What point `q` contributes to the minimum of pivot `i`. -/
def key (job : EntryJob codec K) (i q : ℕ) : K :=
  if job.pivotOf q = i then job.dist q i else largeDistance

/-- The minimum of pivot `i` over the first `n` points. -/
def best (job : EntryJob codec K) (i n : ℕ) : ℕ × K := scanLeast id (job.key i) n (0, largeDistance)

/-- **The invariant of the scan**: the minima are those of the first `n` points, and the rows are
the vectors of the points that were taken. -/
structure Scanned (job : EntryJob codec K) (init : Buffer K) (n : ℕ) (m : Medoids K) : Prop where
  sizeId : m.closestId.size = job.epNumParts
  sizeDis : m.closestDis.size = job.epNumParts
  id_eq : ∀ i < job.epNumParts, m.closestId.entry i = UInt32.ofNat (job.best i n).1
  dis_eq : ∀ i < job.epNumParts, m.closestDis.entry i = (job.best i n).2
  row_eq : ∀ i < job.epNumParts, ∀ d < job.dim, m.storeDiskData (i * job.dim + d)
    = if (job.best i n).2 < largeDistance then job.coord (job.best i n).1 d
      else init (i * job.dim + d)

/-- A point changes the minimum of its own pivot only. -/
lemma best_succ_of_ne {i q : ℕ} (h : job.pivotOf q ≠ i) : job.best i (q + 1) = job.best i q := by
  rw [best, scanLeast_succ, ← best, key, if_neg h, if_neg]
  exact not_lt.mpr (scanLeast_le ..)

lemma best_succ (q : ℕ) : job.best (job.pivotOf q) (q + 1)
    = if job.dist q (job.pivotOf q) < (job.best (job.pivotOf q) q).2 then
        (q, job.dist q (job.pivotOf q))
      else job.best (job.pivotOf q) q := by
  rw [best, scanLeast_succ, ← best, key, if_pos rfl]
  rfl

/-- **One point**: the minimum of its pivot is updated, and the row with it. -/
lemma Scanned.update {init : Buffer K} {m : Medoids K} {startId p : ℕ}
    {trainData distance : Buffer K} {centers : Buffer UInt32} (h : job.Scanned init (startId + p) m)
    (hint : job.pivotOf (startId + p) < 2 ^ 31) (hlt : job.pivotOf (startId + p) < job.epNumParts)
    (hcenter : (centers p).toNat = job.pivotOf (startId + p))
    (hdist : distance p = job.dist (startId + p) (job.pivotOf (startId + p)))
    (htrain : ∀ d < job.dim, trainData (p * job.dim + d) = job.coord (startId + p) d) :
    ∃ m', updateMedoid job.dim startId trainData centers distance m p = .ok m' ∧
      job.Scanned init (startId + p + 1) m' := by
  set q := startId + p with hq
  set c := job.pivotOf q with hc
  have hindex : intIndex (centers p) = .ok c := by
    rw [intIndex, hcenter, if_pos hint]
  have hget : (m.closestDis.get c).mapError Stop.internal = .ok (job.best c q).2 := by
    rw [Allocated.get_of_lt (h.sizeDis ▸ hlt), h.dis_eq c hlt]
    rfl
  rw [updateMedoid, hindex, ok_bind]
  dsimp only
  rw [hget, ok_bind, hdist]
  by_cases hless : job.dist q c < (job.best c q).2
  · have hnew : job.best c (q + 1) = (q, job.dist q c) := (best_succ q).trans (if_pos hless)
    rw [if_pos hless, Allocated.set_of_lt (h.sizeDis ▸ hlt), Allocated.set_of_lt (h.sizeId ▸ hlt)]
    refine ⟨_, rfl, h.sizeId, h.sizeDis, fun i hi => ?_, fun i hi => ?_, fun i hi d hd => ?_⟩
    · by_cases hic : i = c
      · rw [hic, hnew]
        exact Function.update_self ..
      · rw [best_succ_of_ne (Ne.symm hic), ← h.id_eq i hi]
        exact Function.update_of_ne hic ..
    · by_cases hic : i = c
      · rw [hic, hnew]
        exact Function.update_self ..
      · rw [best_succ_of_ne (Ne.symm hic), ← h.dis_eq i hi]
        exact Function.update_of_ne hic ..
    · dsimp only
      rw [Buffer.copy_row hd]
      by_cases hic : i = c
      · rw [if_pos hic, hic, hnew, if_pos (hless.trans_le (scanLeast_le ..))]
        exact htrain d hd
      · rw [if_neg hic, best_succ_of_ne (Ne.symm hic), h.row_eq i hi d hd]
  · have hsame : ∀ i, job.best i (q + 1) = job.best i q := fun i => by
      by_cases hic : c = i
      · rw [← hic]
        exact (best_succ q).trans (if_neg hless)
      · exact best_succ_of_ne hic
    rw [if_neg hless]
    refine ⟨m, rfl, h.sizeId, h.sizeDis, fun i hi => ?_, fun i hi => ?_, fun i hi d hd => ?_⟩
    · rw [hsame, h.id_eq i hi]
    · rw [hsame, h.dis_eq i hi]
    · rw [hsame, h.row_eq i hi d hd]

end EntryJob

/-! ### One block -/

namespace EntryJob

variable {α K : Type} [Inhabited α] [Field K] [LinearOrder K] {codec : Codec α}
  {job : EntryJob codec K} {s : EntryState α K} {blockSize b cur : ℕ}

/-- **A block** reads its points, searches them and updates the minima. -/
lemma scanBlock_eq (env : MathEnv K) (heap : ℕ → Heap K)
    (hcur : min ((b + 1) * blockSize) job.npts = b * blockSize + cur)
    (hrest : s.rest = job.dataFile.body.drop (b * blockSize * job.dim * codec.size)) :
    ∃ (trainData : Buffer K) (blockDataT : Buffer α),
      (∀ p < cur, ∀ d < job.dim, trainData (p * job.dim + d) = job.coord (b * blockSize + p) d) ∧
      scanBlock job env heap job.npts job.dim blockSize s b = (do
        let found ← (MathUtils.computeClosestCentersWithDistances { env with heap := heap b }
          (blockCall job trainData cur job.dim) ⟨s.blockClosestCenters, none⟩
          s.blockClosestDistance).mapError Stop.internal
        let medoids ← (List.range cur).foldlM
          (updateMedoid job.dim (b * blockSize) trainData found.1.ivf found.2) s.medoids
        return {
          rest := job.dataFile.body.drop ((b * blockSize + cur) * job.dim * codec.size)
          blockDataT
          blockTrainDataFloat := trainData
          blockClosestCenters := found.1.ivf
          blockClosestDistance := found.2
          medoids }) := by
  set start := b * blockSize with hstart
  have hpoints : start * job.dim + cur * job.dim ≤ job.npts * job.dim := by
    rw [← Nat.add_mul, ← hcur]
    exact Nat.mul_le_mul_right _ (min_le_right _ _)
  have hbody : job.npts * job.dim * codec.size ≤ job.dataFile.body.length := job.dataFile.complete
  have hall := Nat.mul_le_mul_right codec.size hpoints
  rw [Nat.add_mul] at hall
  have hbytes : codec.size * (cur * job.dim) ≤ s.rest.length := by
    rw [hrest, List.length_drop, Nat.mul_comm codec.size]
    omega
  have hdrop : s.rest.drop (codec.size * (cur * job.dim))
      = job.dataFile.body.drop ((start + cur) * job.dim * codec.size) := by
    rw [hrest, List.drop_drop, Nat.add_mul, Nat.add_mul, Nat.mul_comm codec.size]
  let values := codec.decodeAll (cur * job.dim) (s.rest.take (codec.size * (cur * job.dim)))
  let blockDataT := s.blockDataT.copy 0 (cur * job.dim) fun a => values.getD a default
  refine ⟨s.blockTrainDataFloat.mapRows cur job.dim job.dim 0
    fun i j _ => job.toFloat (blockDataT (i * job.dim + j)), blockDataT, ?_, ?_⟩
  · intro p hp d hd
    have hlt : p * job.dim + d < cur * job.dim := by
      have hrow := Nat.mul_le_mul_right job.dim hp
      rw [Nat.succ_mul] at hrow
      omega
    have hcopy : blockDataT (p * job.dim + d) = values.getD (p * job.dim + d - 0) default :=
      Buffer.copy_of_mem ⟨Nat.zero_le _, by omega⟩
    have hvalue : values.getD (p * job.dim + d) default
        = job.dataFile.values.getD ((start + p) * job.dim + d) default := by
      show (codec.decodeAll _ _).getD _ _ = _
      rw [hrest, codec.getD_decodeAll_drop _ hlt hpoints, Nat.add_mul, Nat.add_assoc]
      rfl
    rw [Buffer.mapRows_all hp hd, hcopy, Nat.sub_zero, hvalue]
    rfl
  · rw [scanBlock, hcur, ← hstart, Nat.add_sub_cancel_left, readBytes_of_le hbytes, ok_bind]
    dsimp only
    rw [hdrop]

variable {trainData : Buffer K} {start : ℕ}
  (htrain : ∀ p < cur, ∀ d < job.dim, trainData (p * job.dim + d) = job.coord (start + p) d)
include htrain

omit [LinearOrder K] in
/-- The distances of a block are those of its points. -/
lemma dist_blockCall {p : ℕ} (hp : p < cur) :
    (blockCall job trainData cur job.dim).dist p = job.dist (start + p) := by
  funext j
  rw [CentersCall.dist, sqDist, dist]
  refine Finset.sum_congr rfl fun d hd => ?_
  have hcoord := htrain p hp d (Finset.mem_range.mp hd)
  show (trainData (p * job.dim + d) - _) ^ 2 = _
  rw [hcoord]
  rfl

lemma scanId_blockCall {p : ℕ} (hp : p < cur) (before : UInt32) :
    (blockCall job trainData cur job.dim).scanId before p = job.foundId before (start + p) := by
  rw [CentersCall.scanId, dist_blockCall htrain hp]
  rfl

/-- **The loop over the points of a block** keeps the invariant. -/
lemma foldlM_updateMedoid {init distance : Buffer K} {centers : Buffer UInt32} {m : Medoids K}
    (hm : job.Scanned init start m)
    (hint : ∀ p < cur, job.pivotOf (start + p) < 2 ^ 31)
    (hlt : ∀ p < cur, job.pivotOf (start + p) < job.epNumParts)
    (hcenters : ∀ p < cur, (centers p).toNat = job.pivotOf (start + p))
    (hdist : ∀ p < cur, distance p = job.dist (start + p) (job.pivotOf (start + p))) :
    ∃ m', (List.range cur).foldlM (updateMedoid job.dim start trainData centers distance) m
      = .ok m' ∧ job.Scanned init (start + cur) m' := by
  refine foldlM_range (I := fun k m => job.Scanned init (start + k) m) (fun k hk m hm => ?_) hm
  exact hm.update (hint k hk) (hlt k hk) (hcenters k hk) (hdist k hk) (htrain k hk)

omit htrain

/-- **A block keeps the invariant**, if every point has a pivot whose id is an `int`. -/
lemma scanBlock_ok (env : MathEnv K) (heap : ℕ → Heap K) {init : Buffer K}
    (hbelow : ∀ q < job.npts, ∃ j < job.epNumParts, job.dist q j < (floatMax : K))
    (hint : ∀ q < job.npts, job.pivotOf q < 2 ^ 31) (hblock : b * blockSize < job.npts)
    (hsize : 0 < blockSize)
    (hrest : s.rest = job.dataFile.body.drop (b * blockSize * job.dim * codec.size))
    (hm : job.Scanned init (b * blockSize) s.medoids) :
    ∃ s', scanBlock job env heap job.npts job.dim blockSize s b = .ok s' ∧
      s'.rest = job.dataFile.body.drop
        (min ((b + 1) * blockSize) job.npts * job.dim * codec.size) ∧
      job.Scanned init (min ((b + 1) * blockSize) job.npts) s'.medoids := by
  have hnext : b * blockSize < (b + 1) * blockSize := by
    rw [Nat.succ_mul]
    omega
  obtain ⟨cur, hcur⟩ : ∃ cur, min ((b + 1) * blockSize) job.npts = b * blockSize + cur :=
    Nat.exists_eq_add_of_le (by omega)
  obtain ⟨trainData, blockDataT, htrain, hscan⟩ := scanBlock_eq env heap hcur hrest
  set call := blockCall job trainData cur job.dim with hcall
  have hin : ∀ p < cur, b * blockSize + p < job.npts := fun p hp => by omega
  have hmax : call.SomeBelowMax := fun p hp => by
    obtain ⟨j, hj, hlt⟩ := hbelow _ (hin p hp)
    refine ⟨j, hj, ?_⟩
    rwa [hcall, dist_blockCall htrain hp]
  have hcenter : ∀ p < cur, (call.centerId p).toNat = job.pivotOf (b * blockSize + p) := by
    intro p hp
    rw [pivotOf, ← scanId_blockCall htrain hp 0, ← hcall, CentersCall.scanId_eq hmax 0 hp]
    rfl
  have hlt : ∀ p < cur, job.pivotOf (b * blockSize + p) < job.epNumParts := by
    intro p hp
    rw [← hcenter p hp]
    exact (Nat.mod_le _ _).trans_lt (CentersCall.nearest_spec hmax hp).lt
  have hwritten : ∀ order p, p < cur →
      ((call.written order ⟨s.blockClosestCenters, none⟩).ivf p).toNat
        = job.pivotOf (b * blockSize + p) := fun order p hp =>
    (congrArg UInt32.toNat (if_pos hp)).trans (hcenter p hp)
  have hdist : ∀ p < cur, call.writtenDist s.blockClosestDistance p
      = job.dist (b * blockSize + p) (job.pivotOf (b * blockSize + p)) := by
    intro p hp
    rw [← hcenter p hp, ← dist_blockCall htrain hp]
    exact if_pos hp
  rw [CentersCall.computeClosestCentersWithDistances_one _ rfl (show 0 < cur by omega)
    job.epNumParts_pos hmax] at hscan
  obtain ⟨m', hloop, hm'⟩ := foldlM_updateMedoid htrain hm (fun p hp => hint _ (hin p hp)) hlt
    (hwritten _) hdist
  set found := call.written (env.threads cur 1).order ⟨s.blockClosestCenters, none⟩ with hfound
  have hrun : scanBlock job env heap job.npts job.dim blockSize s b = .ok
      { rest := job.dataFile.body.drop ((b * blockSize + cur) * job.dim * codec.size)
        blockDataT
        blockTrainDataFloat := trainData
        blockClosestCenters := found.ivf
        blockClosestDistance := call.writtenDist s.blockClosestDistance
        medoids := m' } := by
    rw [hscan]
    refine (ok_bind _ _).trans ?_
    exact (congrArg (· >>= _) hloop).trans rfl
  refine ⟨_, hrun, ?_, ?_⟩
  · rw [hcur]
  · rw [hcur]
    exact hm'

/-- A block that does not fail has found ids that are `int`s, and the reader stands behind it. -/
lemma int_of_scanBlock (env : MathEnv K) {heap : ℕ → Heap K} {before : UInt32} {s' : EntryState α K}
    (hheap : ∀ a, (heap b).ids a = before) (hblock : b * blockSize < job.npts)
    (hsize : 0 < blockSize)
    (hrest : s.rest = job.dataFile.body.drop (b * blockSize * job.dim * codec.size))
    (h : scanBlock job env heap job.npts job.dim blockSize s b = .ok s') :
    s'.rest = job.dataFile.body.drop (min ((b + 1) * blockSize) job.npts * job.dim * codec.size) ∧
      ∀ q, b * blockSize ≤ q → q < min ((b + 1) * blockSize) job.npts →
        (job.foundId before q).toNat < 2 ^ 31 := by
  have hnext : b * blockSize < (b + 1) * blockSize := by
    rw [Nat.succ_mul]
    omega
  obtain ⟨cur, hcur⟩ : ∃ cur, min ((b + 1) * blockSize) job.npts = b * blockSize + cur :=
    Nat.exists_eq_add_of_le (by omega)
  obtain ⟨trainData, blockDataT, htrain, hscan⟩ := scanBlock_eq env heap hcur hrest
  rw [hscan] at h
  obtain ⟨found, hsearch, h⟩ := bind_eq_ok.mp h
  have hfound := ok_of_mapError hsearch
  obtain ⟨medoids, hloop, h⟩ := bind_eq_ok.mp h
  refine ⟨?_, fun q hlow hhigh => ?_⟩
  · rw [← Except.ok.inj h, hcur]
  · obtain ⟨p, rfl⟩ := Nat.exists_eq_add_of_le hlow
    have hp : p < cur := by omega
    obtain ⟨m, m', hround⟩ := exists_of_foldlM hloop (List.mem_range.mpr hp)
    have hid := CentersCall.ivf_of_computeClosestCentersWithDistances _ _ rfl
      (show 0 < cur by omega) job.epNumParts_pos hfound hp
    rw [hheap, scanId_blockCall htrain hp] at hid
    by_contra hlarge
    rw [updateMedoid, intIndex, hid, if_neg hlarge] at hround
    exact absurd hround (by rintro ⟨⟩)

end EntryJob

/-! ### The whole scan -/

namespace EntryJob

variable {α K : Type} [Inhabited α] [Field K] [LinearOrder K] {codec : Codec α}
  (job : EntryJob codec K) (env : MathEnv K) (memory : EntryMemory K) {maxBlockSize : ℕ}

/-- `block_size`. -/
def blockSize (job : EntryJob codec K) (maxBlockSize : ℕ) : ℕ :=
  if job.npts ≤ maxBlockSize then job.npts else maxBlockSize

omit [Inhabited α] [Field K] [LinearOrder K] in
lemma blockSize_pos (hmax : 0 < maxBlockSize) : 0 < job.blockSize maxBlockSize := by
  rw [blockSize]
  split_ifs
  · exact job.dataFile.npts_pos
  · exact hmax

/-- The loop over the first `n` blocks. -/
def scanBlocks (maxBlockSize n : ℕ) : Except Stop (EntryState α K) :=
  (List.range n).foldlM (scanBlock job env memory.heap job.npts job.dim
      (job.blockSize maxBlockSize))
    (startScan job memory job.dim job.dataFile.body)

lemma generateMoreEntryPoints_eq (hmax : 0 < maxBlockSize) :
    generateMoreEntryPoints job env memory maxBlockSize = (do
      let s ← scanBlocks job env memory maxBlockSize
        (RedAnns.divRoundUp job.npts (job.blockSize maxBlockSize))
      return ⟨saveBin s.medoids.storeDiskData job.epNumParts job.dim,
        saveBin s.medoids.closestId.entry job.epNumParts 1⟩) := by
  obtain ⟨hnpts, hdims⟩ := readBytes_header job.dataFile
  have hblocks : Checked.divRoundUp job.npts (job.blockSize maxBlockSize)
      = .ok (RedAnns.divRoundUp job.npts (job.blockSize maxBlockSize)) :=
    divRoundUp_eq (job.blockSize_pos hmax)
  rw [generateMoreEntryPoints, hnpts, ok_bind, hdims, ok_bind]
  dsimp only
  rw [decodeNat_encodeWord', decodeNat_encodeWord']
  exact (congrArg (· >>= _) hblocks).trans (ok_bind _ _)

variable {job env memory}

/-- The minima of no points. -/
lemma scanned_start : job.Scanned (clearBytes memory.storeDiskData (job.epNumParts * job.dim)) 0
    (startScan job memory job.dim job.dataFile.body).medoids where
  sizeId := rfl
  sizeDis := rfl
  id_eq _ _ := rfl
  dis_eq _ _ := rfl
  row_eq _ _ _ _ := (if_neg (lt_irrefl _)).symm

/-- **The scan finds the minima of all points**, if every point has a pivot whose id is an `int`. -/
lemma exists_scanned (job : EntryJob codec K) (env : MathEnv K) (memory : EntryMemory K)
    (hmax : 0 < maxBlockSize)
    (hbelow : ∀ q < job.npts, ∃ j < job.epNumParts, job.dist q j < (floatMax : K))
    (hint : ∀ q < job.npts, job.pivotOf q < 2 ^ 31) :
    ∃ m, job.Scanned (clearBytes memory.storeDiskData (job.epNumParts * job.dim)) job.npts m ∧
      generateMoreEntryPoints job env memory maxBlockSize
        = .ok ⟨saveBin m.storeDiskData job.epNumParts job.dim,
          saveBin m.closestId.entry job.epNumParts 1⟩ := by
  have hsize := job.blockSize_pos hmax
  set size := job.blockSize maxBlockSize with hdef
  obtain ⟨s, hs, -, hm⟩ : ∃ s, scanBlocks job env memory maxBlockSize
      (RedAnns.divRoundUp job.npts size) = .ok s ∧ _ ∧ _ :=
    foldlM_range (I := fun n (s : EntryState α K) =>
        s.rest = job.dataFile.body.drop (min (n * size) job.npts * job.dim * codec.size) ∧
        job.Scanned (clearBytes memory.storeDiskData (job.epNumParts * job.dim))
          (min (n * size) job.npts) s.medoids)
      (fun n hn s hs => by
        have hlt := Compression.mul_lt_of_lt_divRoundUp hsize hn
        rw [min_eq_left hlt.le] at hs
        exact scanBlock_ok env memory.heap hbelow hint hlt hsize hs.1 hs.2)
      (by
        rw [Nat.zero_mul, Nat.zero_min, Nat.zero_mul, Nat.zero_mul, List.drop_zero]
        exact ⟨rfl, scanned_start⟩)
  rw [min_eq_right (Compression.le_divRoundUp_mul hsize)] at hm
  refine ⟨s.medoids, hm, ?_⟩
  rw [generateMoreEntryPoints_eq job env memory hmax, ← hdef, hs]
  rfl

/-- A run that does not fail has found ids that are `int`s. -/
lemma int_of_run {before : UInt32} {files : EntryFiles K}
    (hheap : ∀ b a, (memory.heap b).ids a = before) (hmax : 0 < maxBlockSize)
    (h : generateMoreEntryPoints job env memory maxBlockSize = .ok files) {q : ℕ}
    (hq : q < job.npts) : (job.foundId before q).toNat < 2 ^ 31 := by
  have hsize := job.blockSize_pos hmax
  set size := job.blockSize maxBlockSize with hdef
  rw [generateMoreEntryPoints_eq job env memory hmax, ← hdef] at h
  obtain ⟨s, hs, -⟩ := bind_eq_ok.mp h
  have hids := of_foldlM_range (I := fun n (s : EntryState α K) =>
      s.rest = job.dataFile.body.drop (min (n * size) job.npts * job.dim * codec.size) ∧
      ∀ q < min (n * size) job.npts, (job.foundId before q).toNat < 2 ^ 31)
    (fun n hn s s' hs hround => by
      have hlt := Compression.mul_lt_of_lt_divRoundUp hsize hn
      rw [min_eq_left hlt.le] at hs
      obtain ⟨hrest, hnew⟩ := int_of_scanBlock env (hheap n) hlt hsize hs.1 hround
      refine ⟨hrest, fun q hq => ?_⟩
      rcases Nat.lt_or_ge q (n * size) with hold | hin
      · exact hs.2 q hold
      · exact hnew q hin hq)
    (by
      rw [Nat.zero_mul, Nat.zero_min, Nat.zero_mul, Nat.zero_mul, List.drop_zero]
      exact ⟨rfl, fun q hq => absurd hq (Nat.not_lt_zero q)⟩) hs
  refine hids.2 q ?_
  rw [min_eq_right (Compression.le_divRoundUp_mul hsize)]
  exact hq

end EntryJob

/-! ### When the files are right -/

namespace EntryJob

variable {α K : Type} [Inhabited α] [Field K] [LinearOrder K] {codec : Codec α}
  {job : EntryJob codec K} {env : MathEnv K} {maxBlockSize : ℕ}

lemma getD_take {β : Type} (m : Buffer β) {n a : ℕ} (ha : a < n) (x : β) :
    (m.take n).getD a x = m a := by
  rw [Buffer.take, List.getD_eq_getElem?_getD, List.getElem?_map, List.getElem?_range ha]
  rfl

omit [LinearOrder K] in
/-- `memset` counts bytes: it clears a quarter of the rows. -/
lemma clearBytes_row (m : Buffer K) {n dim i d : ℕ} (hfour : 4 * (i + 1) ≤ n) (hd : d < dim) :
    clearBytes m (n * dim) (i * dim + d) = 0 := by
  have hentry : i * dim + d + 1 ≤ (i + 1) * dim := by
    rw [Nat.succ_mul]
    omega
  have hall := Nat.mul_le_mul_right dim hfour
  rw [Nat.mul_assoc] at hall
  exact if_pos (by omega)

omit [Inhabited α] [Field K] [LinearOrder K] in
/-- Entry `i` of the ids. -/
lemma getD_ids (m : Medoids K) {i : ℕ} (hi : i < job.epNumParts) :
    (saveBin m.closestId.entry job.epNumParts 1).data.getD i 0 = m.closestId.entry i :=
  getD_take _ (by rwa [Nat.mul_one]) _

omit [Inhabited α] [LinearOrder K] in
/-- Row `i` of the vectors. -/
lemma getD_vectors (m : Medoids K) {i d : ℕ} (hi : i < job.epNumParts) (hd : d < job.dim) :
    (saveBin m.storeDiskData job.epNumParts job.dim).data.getD (i * job.dim + d) 0
      = m.storeDiskData (i * job.dim + d) := by
  have hrow := Nat.mul_le_mul_right job.dim hi
  rw [Nat.succ_mul] at hrow
  exact getD_take _ (by omega) _

/-- The pivot that the scan finds is the first nearest one modulo the 32 bits of an id. -/
lemma exists_assigned {q : ℕ} (hbelow : ∃ j < job.epNumParts, job.dist q j < (floatMax : K)) :
    ∃ i, job.Assigned q i ∧ job.pivotOf q = i % 2 ^ 32 := by
  obtain ⟨i, hi, hscan⟩ :=
    scanLeast_spec_of_exists UInt32.ofNat ((0 : UInt32), (floatMax : K)) hbelow
  refine ⟨i, hi, ?_⟩
  rw [pivotOf, foundId, hscan]
  exact UInt32.toNat_ofNat'

lemma assigned_pivotOf {q : ℕ} (hbelow : ∃ j < job.epNumParts, job.dist q j < (floatMax : K))
    (hfits : ∀ i, job.Assigned q i → i < 2 ^ 31) :
    job.Assigned q (job.pivotOf q) ∧ job.pivotOf q < 2 ^ 31 := by
  obtain ⟨i, hi, heq⟩ := exists_assigned hbelow
  have hlt := hfits i hi
  rw [heq, Nat.mod_eq_of_lt (by omega)]
  exact ⟨hi, hlt⟩

/-- A pivot that is not reached keeps its initial minimum. -/
lemma le_key_of_not_reached {i : ℕ} (hassigned : ∀ q < job.npts, job.Assigned q (job.pivotOf q))
    (hnot : ¬ job.Reached i) : ∀ q < job.npts, largeDistance ≤ job.key i q := by
  intro q hq
  rw [key]
  split_ifs with hpivot
  · exact not_lt.mp fun hlt => hnot ⟨q, hq, hpivot ▸ hassigned q hq, hlt⟩
  · exact le_rfl

/-- **A pivot that is reached**: its minimum is that of the first of its nearest points. -/
lemma best_of_reached {i : ℕ} (hassigned : ∀ q < job.npts, job.Assigned q (job.pivotOf q))
    (h : job.Reached i) : (job.best i job.npts).2 < largeDistance ∧
      job.FirstAssigned i (job.best i job.npts).1 := by
  obtain ⟨q, hq, hassign, hnear⟩ := h
  have hkey : ∀ p < job.npts, job.Assigned p i → job.key i p = job.dist p i := fun p hp hpi =>
    if_pos ((hassigned p hp).unique hpi)
  obtain ⟨m, hm, hscan⟩ := scanLeast_spec_of_exists id (f := job.key i) (n := job.npts)
    ((0 : ℕ), (largeDistance : K)) ⟨q, hq, by rwa [hkey q hq hassign]⟩
  have hless : job.key i m < largeDistance :=
    (hm.le q hq).trans_lt (by rwa [hkey q hq hassign])
  have hpivot : job.pivotOf m = i := by
    by_contra hne
    rw [key, if_neg hne] at hless
    exact lt_irrefl _ hless
  have hbest : job.best i job.npts = (m, job.key i m) := hscan
  have hmi : job.Assigned m i := hpivot ▸ hassigned m hm.lt
  rw [hbest]
  refine ⟨hless, hm.lt, hmi, fun p hp hpi => ?_, fun p hp hpi => ?_⟩
  · rw [← hkey p hp hpi, ← hkey m hm.lt hmi]
    exact hm.le p hp
  · rw [← hkey p (hp.trans hm.lt) hpi, ← hkey m hm.lt hmi]
    exact hm.first p hp

/-- **If the call can be used, the files are right.** -/
theorem Usable.consistent (h : job.Usable) (env : MathEnv K) (hmax : 0 < maxBlockSize) :
    job.Consistent env maxBlockSize := by
  intro memory
  have hassigned : ∀ q < job.npts, job.Assigned q (job.pivotOf q) := fun q hq =>
    (assigned_pivotOf (h.below q hq) (h.fits q hq)).1
  obtain ⟨m, hm, hrun⟩ := exists_scanned job env memory hmax h.below fun q hq =>
    (assigned_pivotOf (h.below q hq) (h.fits q hq)).2
  refine ⟨_, hrun, fun i hi => ?_⟩
  dsimp only
  rw [getD_ids m hi, hm.id_eq i hi]
  by_cases hreached : job.Reached i
  · obtain ⟨hless, hfirst⟩ := best_of_reached hassigned hreached
    have hnum : (UInt32.ofNat (job.best i job.npts).1).toNat = (job.best i job.npts).1 :=
      UInt32.toNat_ofNat_of_lt' (hfirst.lt.trans job.dataFile.npts.toNat_lt)
    rw [hnum]
    refine ⟨hfirst.lt, fun d hd => ?_, fun _ => hfirst⟩
    rw [getD_vectors m hi hd, hm.row_eq i hi d hd, if_pos hless]
  · -- the default id and the cleared row
    have hbest : job.best i job.npts = (0, largeDistance) :=
      scanLeast_of_le _ _ (le_key_of_not_reached hassigned hreached)
    obtain ⟨hblank, hzero⟩ := (h.covered i hi).resolve_left hreached
    rw [hbest]
    refine ⟨job.dataFile.npts_pos, fun d hd => ?_, hzero⟩
    rw [getD_vectors m hi hd, hm.row_eq i hi d hd, hbest, if_neg (lt_irrefl _)]
    rcases hblank with hdim | ⟨hfour, hcoord⟩
    · omega
    · rw [clearBytes_row _ hfour hd]
      exact (hcoord d hd).symm

/-- A pivot that keeps its initial minimum has the default id and what the memory held. -/
lemma Consistent.blank (h : job.Consistent env maxBlockSize) (hmax : 0 < maxBlockSize)
    (hbelow : ∀ q < job.npts, ∃ j < job.epNumParts, job.dist q j < (floatMax : K))
    (hint : ∀ q < job.npts, job.pivotOf q < 2 ^ 31) {i : ℕ} (hi : i < job.epNumParts)
    (hnone : ∀ q < job.npts, largeDistance ≤ job.key i q) :
    job.Blank i ∧ ((∃ q < job.npts, job.Assigned q i) → job.FirstAssigned i 0) := by
  have hbest : job.best i job.npts = (0, largeDistance) := scanLeast_of_le _ _ hnone
  -- a number that is not the last coordinate of point `0`
  obtain ⟨files, hfiles, hright⟩ := h ⟨fun _ => ⟨fun _ => 0, fun _ => 0⟩,
    fun _ => job.coord 0 (job.dim - 1) + 1⟩
  obtain ⟨m, hm, hrun⟩ := exists_scanned job env ⟨fun _ => ⟨fun _ => 0, fun _ => 0⟩,
    fun _ => job.coord 0 (job.dim - 1) + 1⟩ hmax hbelow hint
  obtain rfl := Except.ok.inj (hfiles.symm.trans hrun)
  obtain ⟨-, hrows, hfirst⟩ := hright i hi
  dsimp only at hrows hfirst
  rw [getD_ids m hi, hm.id_eq i hi, hbest] at hrows hfirst
  refine ⟨?_, hfirst⟩
  have hrow : ∀ d < job.dim, clearBytes (fun _ => job.coord 0 (job.dim - 1) + 1)
      (job.epNumParts * job.dim) (i * job.dim + d) = job.coord 0 d := by
    intro d hd
    have hentry := hrows d hd
    rw [getD_vectors m hi hd, hm.row_eq i hi d hd, hbest, if_neg (lt_irrefl _)] at hentry
    exact hentry
  rcases Nat.eq_zero_or_pos job.dim with hdim | hdim
  · exact Or.inl hdim
  · by_cases hfour : 4 * (i + 1) ≤ job.epNumParts
    · exact Or.inr ⟨hfour, fun d hd => by rw [← hrow d hd, clearBytes_row _ hfour hd]⟩
    · have hlast := hrow (job.dim - 1) (by omega)
      have hend : i * job.dim + (job.dim - 1) + 1 = (i + 1) * job.dim := by
        rw [Nat.succ_mul]
        omega
      have hmore : job.epNumParts * job.dim < 4 * (i + 1) * job.dim :=
        Nat.mul_lt_mul_of_pos_right (by omega) hdim
      rw [Nat.mul_assoc] at hmore
      rw [clearBytes, hend, if_neg (by omega)] at hlast
      exact absurd (left_eq_add.mp hlast.symm) one_ne_zero

omit [Inhabited α] in
/-- Without coordinates the first pivot is nearest. -/
lemma eq_zero_of_assigned [Inhabited α] (hdim : job.dim = 0) {q i : ℕ} (h : job.Assigned q i) :
    i = 0 := by
  have hzero : ∀ j, job.dist q j = 0 := fun j => by
    rw [dist, hdim, Finset.range_zero, Finset.sum_empty]
  rcases Nat.eq_zero_or_pos i with heq | hpos
  · exact heq
  · have hfirst := h.first 0 hpos
    rw [hzero, hzero] at hfirst
    exact absurd hfirst (lt_irrefl 0)

/-- **If the files are right, the call can be used.** -/
theorem Consistent.usable (h : job.Consistent env maxBlockSize) (hmax : 0 < maxBlockSize) :
    job.Usable := by
  have hids : ∀ (before : UInt32), ∀ q < job.npts, (job.foundId before q).toNat < 2 ^ 31 := by
    intro before q hq
    obtain ⟨files, hfiles, -⟩ := h ⟨fun _ => ⟨fun _ => 0, fun _ => before⟩, fun _ => 0⟩
    exact int_of_run (fun _ _ => rfl) hmax hfiles hq
  have hbelow : ∀ q < job.npts, ∃ j < job.epNumParts, job.dist q j < (floatMax : K) := by
    intro q hq
    by_contra hnone
    have hle : ∀ j < job.epNumParts, (floatMax : K) ≤ job.dist q j := fun j hj =>
      not_lt.mp fun hlt => hnone ⟨j, hj, hlt⟩
    have hfound : job.foundId 0xffffffff q = 0xffffffff :=
      congrArg Prod.fst (scanLeast_of_le UInt32.ofNat ((0xffffffff : UInt32), (floatMax : K)) hle)
    have hlarge := hids 0xffffffff q hq
    rw [hfound] at hlarge
    exact absurd hlarge (by decide)
  have hint : ∀ q < job.npts, job.pivotOf q < 2 ^ 31 := hids 0
  have hfits : ∀ q < job.npts, ∀ i, job.Assigned q i → i < 2 ^ 31 := by
    intro q hq i hi
    rcases Nat.eq_zero_or_pos job.dim with hdim | hdim
    · rw [eq_zero_of_assigned hdim hi]
      exact Nat.two_pow_pos 31
    · refine hi.lt.trans_le ?_
      by_contra hmany
      -- the last pivot is beyond all `int`s
      have hnone : ∀ q < job.npts, largeDistance ≤ job.key (job.epNumParts - 1) q := by
        intro q hq
        have := hint q hq
        rw [key, if_neg (by omega)]
      obtain ⟨hblank, -⟩ := h.blank hmax hbelow hint
        (Nat.sub_lt job.epNumParts_pos Nat.one_pos) hnone
      have hpos := job.epNumParts_pos
      rcases hblank with hzero | ⟨hfour, -⟩
      · omega
      · omega
  have hassigned : ∀ q < job.npts, job.Assigned q (job.pivotOf q) := fun q hq =>
    (assigned_pivotOf (hbelow q hq) (hfits q hq)).1
  refine ⟨hbelow, hfits, fun i hi => ?_⟩
  by_cases hreached : job.Reached i
  · exact Or.inl hreached
  · exact Or.inr (h.blank hmax hbelow hint hi (le_key_of_not_reached hassigned hreached))

/-- **When the ids and the vectors describe the same points**, for every size of the blocks. -/
theorem consistent_iff (job : EntryJob codec K) (env : MathEnv K) (hmax : 0 < maxBlockSize) :
    job.Consistent env maxBlockSize ↔ job.Usable :=
  ⟨fun h => h.usable hmax, fun h => h.consistent env hmax⟩

/-! ### Three points, and one point with two pivots -/

/-- Three points and two pivots, near the first point and the last. -/
noncomputable def threePointsJob : EntryJob Codec.uint8 ℝ where
  dataFile := threePointsFile
  toFloat := fun x => x.toNat
  epNumParts := 2
  pivotData := fun a => ([10, 190, 20, 200, 5, 110].getD a 0 : ℕ)
  epNumParts_pos := Nat.two_pos

/-- The distance of point `q` and pivot `j`, as a whole number. -/
def threePointsDist (q j : ℕ) : ℤ :=
  ∑ d ∈ Finset.range 3, (((threePointsFile.values.getD (q * 3 + d) default).toNat : ℤ)
    - ([10, 190, 20, 200, 5, 110].getD (j * 3 + d) 0 : ℕ)) ^ 2

lemma dist_threePointsJob (q j : ℕ) : threePointsJob.dist q j = (threePointsDist q j : ℝ) := by
  rw [threePointsDist, Int.cast_sum]
  refine Finset.sum_congr rfl fun d _ => ?_
  push_cast
  rfl

/-- A pivot that is nearer than the other one is the pivot of a point. -/
lemma assigned_threePointsJob {q i : ℕ} (hi : i < 2)
    (hlt : ∀ j < 2, j ≠ i → threePointsDist q i < threePointsDist q j) :
    threePointsJob.Assigned q i := by
  have hcast : ∀ j < 2, j ≠ i → threePointsJob.dist q i < threePointsJob.dist q j := by
    intro j hj hne
    rw [dist_threePointsJob, dist_threePointsJob]
    exact_mod_cast hlt j hj hne
  refine ⟨hi, fun j hj => ?_, fun j hj => hcast j (hj.trans hi) hj.ne⟩
  rcases eq_or_ne j i with rfl | hne
  · exact le_rfl
  · exact (hcast j hj hne).le

/-- The first pivot has the first point, and the second one the two others, which two blocks of at
most two points divide. -/
theorem consistent_iff_threePoints : threePointsJob.Consistent MathUtils.exactEnv 2 := by
  refine (consistent_iff _ _ two_pos).mpr ⟨fun q hq => ?_, fun q hq i hi => ?_, fun i hi => ?_⟩
  · have hsmall : ∀ q < 3, threePointsDist q 0 < 2 ^ 30 := by decide +kernel
    refine ⟨0, two_pos, ?_⟩
    have hlt : threePointsJob.dist q 0 < 2 ^ 30 := by
      rw [dist_threePointsJob]
      exact_mod_cast hsmall q hq
    refine hlt.trans ?_
    norm_num [floatMax]
  · exact hi.lt.trans (show 2 < 2 ^ 31 by norm_num)
  · have hnear : ∀ i < 2, (∀ j < 2, j ≠ i → threePointsDist i i < threePointsDist i j) ∧
        threePointsDist i i < 2 ^ 30 := by
      decide +kernel
    have hlt : threePointsJob.dist i i < (2 ^ 30 : ℕ) := by
      rw [dist_threePointsJob]
      exact_mod_cast (hnear i hi).2
    exact Or.inl ⟨i, Nat.lt_succ_of_lt hi, assigned_threePointsJob hi (hnear i hi).1, hlt⟩

/-- The point seven, and the pivots seven, eight and so on. -/
noncomputable def sevenJob (n : ℕ) (hn : 0 < n) : EntryJob Codec.uint8 ℝ where
  dataFile := Checked.Quantization.onePointFile
  toFloat := fun x => x.toNat
  epNumParts := n
  pivotData := fun j => 7 + j
  epNumParts_pos := hn

lemma dist_sevenJob {n : ℕ} (hn : 0 < n) (j : ℕ) : (sevenJob n hn).dist 0 j = (j : ℝ) ^ 2 := by
  have hdim : (sevenJob n hn).dim = 1 := rfl
  have hcoord : (sevenJob n hn).coord 0 0 = ((7 : UInt8).toNat : ℝ) := rfl
  have hseven : ((7 : UInt8).toNat : ℝ) = 7 := rfl
  rw [dist, hdim, Finset.sum_range_one, hcoord, hseven]
  simp [sevenJob]

lemma assigned_sevenJob {n : ℕ} (hn : 0 < n) : (sevenJob n hn).Assigned 0 0 := by
  refine ⟨hn, fun j _ => ?_, fun j hj => absurd hj (Nat.not_lt_zero j)⟩
  rw [dist_sevenJob, dist_sevenJob, Nat.cast_zero, zero_pow two_ne_zero]
  exact sq_nonneg _

lemma eq_zero_of_lt_npts {n : ℕ} (hn : 0 < n) {q : ℕ} (hq : q < (sevenJob n hn).npts) : q = 0 :=
  Nat.lt_one_iff.mp hq

/-- Pivot `1` has no point: its id is `0`, but its row is what the memory held. -/
theorem not_consistent_twoPivots :
    ¬ (sevenJob 2 two_pos).Consistent MathUtils.exactEnv 500000 := by
  intro h
  have husable : (sevenJob 2 two_pos).Usable := h.usable (by norm_num)
  rcases husable.covered 1 one_lt_two with ⟨q, hq, hassigned, -⟩ | ⟨hblank, -⟩
  · obtain rfl := eq_zero_of_lt_npts _ hq
    exact absurd (hassigned.unique (assigned_sevenJob two_pos)) one_ne_zero
  · rcases hblank with hdim | ⟨hfour, -⟩
    · exact absurd (show (1 : ℕ) = 0 from hdim) one_ne_zero
    · exact absurd (show 4 * (1 + 1) ≤ 2 from hfour) (by norm_num)

end EntryJob

end RedAnns.EntryPoints
