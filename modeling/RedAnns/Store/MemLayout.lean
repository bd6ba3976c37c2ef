import RedAnns.Lib.Cells
import RedAnns.Store.Mem

/-!
The registered memory is partitioned.

* `BroadcastMem.cells`, `Mem.cells`: the regions as the cells of a layout, so that an offset
  accessor is the begin of a cell (`BroadcastRegion.offset_init`, `Region.offset_new`).
* `Mem.Placed`, `Mem.initAll_placed`: the loop of the constructor gives every broadcast object a
  block of its own.
* `Mem.partitioned`: if all regions together fit 64 bits, they lie inside the allocation and do not
  overlap, and each pointer is the base address plus the offset.
-/

namespace RedAnns.Registered

/-! ### The regions of a broadcast object as cells -/

/-- The arrays that `init` lays out. -/
def BroadcastMem.cells (b : BroadcastMem) : List Cells :=
  [⟨numThreads, b.bufSz.toNat⟩, ⟨b.numServers, b.rbfSz.toNat⟩, ⟨1, b.rbfSz.toNat⟩,
    ⟨b.numServers, headSz.toNat⟩, ⟨1, headSz.toNat⟩, ⟨1, headSz.toNat⟩,
    ⟨b.numServers, headSz.toNat⟩]

lemma ofInt_natCast (k : ℕ) : UInt64.ofInt (k : ℤ) = UInt64.ofNat k := by
  have hmod : ((k : ℤ) % 2 ^ 64).toNat = k % 2 ^ 64 := by omega
  rw [UInt64.ofInt, hmod]
  exact UInt64.ofNat_mod_size

namespace BroadcastRegion

variable {b : BroadcastMem} {r r' : BroadcastRegion}

/-- Which cell a region is. -/
def place (b : BroadcastMem) : BroadcastRegion → Fin b.cells.length × ℕ
  | .buffer tid => ((0 : Fin 7), (tid - b.startTid).toNat)
  | .masterRing sid => ((1 : Fin 7), sid)
  | .slaveRing => ((2 : Fin 7), 0)
  | .localMasterRingHead sid => ((3 : Fin 7), sid)
  | .localSlaveRingHead => ((4 : Fin 7), 0)
  | .remoteMasterRingHead => ((5 : Fin 7), 0)
  | .remoteSlaveRingHead sid => ((6 : Fin 7), sid)

/-- Where a region begins, within the memory of its object. -/
def start (b : BroadcastMem) (r : BroadcastRegion) : ℕ :=
  cellOffset b.cells (r.place b).1 (r.place b).2

/-- The offset accessors after `init`. -/
lemma offset_init (mem memOff : UInt64) (h : r.Valid b) :
    r.offset (b.init mem memOff) = memOff + UInt64.ofNat (r.start b) := by
  cases r with
  | buffer tid =>
      have hnat : tid - b.startTid = ((tid - b.startTid).toNat : ℤ) :=
        (Int.toNat_of_nonneg (sub_nonneg.mpr h.1)).symm
      have hint : UInt64.ofInt (tid - b.startTid) = UInt64.ofNat (tid - b.startTid).toNat := by
        rw [← ofInt_natCast, ← hnat]
      simp [start, cellOffset, totalBytes, BroadcastMem.cells, place, offset, BroadcastMem.init,
        BroadcastMem.bufferOffset, UInt64.ofNat_mul, hint]
  | masterRing sid =>
      simp [start, cellOffset, totalBytes, BroadcastMem.cells, place, Cells.bytes, offset,
        BroadcastMem.init, BroadcastMem.masterRingOffset, UInt64.ofNat_mul, UInt64.add_assoc]
  | slaveRing =>
      simp [start, cellOffset, totalBytes, BroadcastMem.cells, place, Cells.bytes, offset,
        BroadcastMem.init, BroadcastMem.slaveRingOffset, UInt64.ofNat_mul]
  | localMasterRingHead sid =>
      simp [start, cellOffset, totalBytes, BroadcastMem.cells, place, Cells.bytes, offset,
        BroadcastMem.init, BroadcastMem.localMasterRingHeadOffset, UInt64.ofNat_mul,
        UInt64.add_assoc]
  | localSlaveRingHead =>
      simp [start, cellOffset, totalBytes, BroadcastMem.cells, place, Cells.bytes, offset,
        BroadcastMem.init, BroadcastMem.localSlaveRingHeadOffset, UInt64.ofNat_mul,
        UInt64.add_assoc]
  | remoteMasterRingHead =>
      simp [start, cellOffset, totalBytes, BroadcastMem.cells, place, Cells.bytes, offset,
        BroadcastMem.init, BroadcastMem.remoteMasterRingHeadOffset, UInt64.ofNat_mul,
        UInt64.add_assoc]
  | remoteSlaveRingHead sid =>
      simp [start, cellOffset, totalBytes, BroadcastMem.cells, place, Cells.bytes, offset,
        BroadcastMem.init, BroadcastMem.remoteSlaveRingHeadOffset, UInt64.ofNat_mul,
        UInt64.add_assoc]

/-- **A pointer is the base address plus the offset**, if the object was initialized so. -/
lemma pointer_init (mem off : UInt64) :
    r.pointer (b.init (mem + off) off) = mem + r.offset (b.init (mem + off) off) := by
  cases r with
  | buffer tid =>
      simp [pointer, offset, BroadcastMem.init, BroadcastMem.buffer, BroadcastMem.bufferOffset,
        UInt64.add_assoc]
  | masterRing sid =>
      simp [pointer, offset, BroadcastMem.init, BroadcastMem.masterRing,
        BroadcastMem.masterRingOffset, UInt64.add_assoc]
  | slaveRing => exact UInt64.add_assoc ..
  | localMasterRingHead sid =>
      simp [pointer, offset, BroadcastMem.init, BroadcastMem.localMasterRingHead,
        BroadcastMem.localMasterRingHeadOffset, UInt64.add_assoc]
  | localSlaveRingHead => exact UInt64.add_assoc ..
  | remoteMasterRingHead => exact UInt64.add_assoc ..
  | remoteSlaveRingHead sid =>
      simp [pointer, offset, BroadcastMem.init, BroadcastMem.remoteSlaveRingHead,
        BroadcastMem.remoteSlaveRingHeadOffset, UInt64.add_assoc]

/-- A region is a cell of its array, of the right size. -/
lemma place_lt (h : r.Valid b) : (r.place b).2 < (b.cells.get (r.place b).1).count := by
  cases r with
  | buffer tid =>
      have hlt : tid < b.startTid + BroadcastMem.numThreads := h.2
      have hle : b.startTid ≤ tid := h.1
      change (tid - b.startTid).toNat < BroadcastMem.numThreads
      omega
  | masterRing sid => exact h
  | localMasterRingHead sid => exact h
  | remoteSlaveRingHead sid => exact h
  | slaveRing => exact Nat.one_pos
  | localSlaveRingHead => exact Nat.one_pos
  | remoteMasterRingHead => exact Nat.one_pos

lemma size_place (r : BroadcastRegion) :
    (b.cells.get (r.place b).1).size = (r.size b).toNat := by
  cases r <;> rfl

lemma place_injective (h : r.Valid b) (h' : r'.Valid b) (heq : r.place b = r'.place b) :
    r = r' := by
  have harr : (r.place b).1.val = (r'.place b).1.val := by rw [heq]
  have hcell : (r.place b).2 = (r'.place b).2 := by rw [heq]
  cases r with
  | buffer tid =>
      cases r' with
      | buffer tid' =>
          have hle : b.startTid ≤ tid := h.1
          have hle' : b.startTid ≤ tid' := h'.1
          have htid : (tid - b.startTid).toNat = (tid' - b.startTid).toNat := hcell
          rw [show tid = tid' by omega]
      | _ => exact absurd harr (by simp [place])
  | masterRing sid =>
      cases r' with
      | masterRing sid' => exact congrArg _ hcell
      | _ => exact absurd harr (by simp [place])
  | slaveRing =>
      cases r' with
      | slaveRing => rfl
      | _ => exact absurd harr (by simp [place])
  | localMasterRingHead sid =>
      cases r' with
      | localMasterRingHead sid' => exact congrArg _ hcell
      | _ => exact absurd harr (by simp [place])
  | localSlaveRingHead =>
      cases r' with
      | localSlaveRingHead => rfl
      | _ => exact absurd harr (by simp [place])
  | remoteMasterRingHead =>
      cases r' with
      | remoteMasterRingHead => rfl
      | _ => exact absurd harr (by simp [place])
  | remoteSlaveRingHead sid =>
      cases r' with
      | remoteSlaveRingHead sid' => exact congrArg _ hcell
      | _ => exact absurd harr (by simp [place])

/-- `start` and the size of a region stay within the memory of its object. -/
lemma start_add_le (h : r.Valid b) : r.start b + (r.size b).toNat ≤ totalBytes b.cells := by
  rw [← size_place, start]
  exact cellOffset_add_le (place_lt h)

lemma start_separate (h : r.Valid b) (h' : r'.Valid b) (hne : r ≠ r') :
    Separate (r.start b) (r.size b).toNat (r'.start b) (r'.size b).toNat := by
  rw [← size_place, ← size_place]
  exact cells_apart (place_lt h) (place_lt h') fun heq => hne (place_injective h h' heq)

end BroadcastRegion

/-- `mem_size` counts the bytes of all cells, modulo the word. -/
lemma BroadcastMem.memSize_eq (b : BroadcastMem) :
    b.memSize = UInt64.ofNat (totalBytes b.cells) := by
  have hone : UInt64.ofNat 1 = 1 := rfl
  simp only [memSize, cells, totalBytes, Cells.bytes, List.map_cons, List.map_nil, List.sum_cons,
    List.sum_nil, Nat.add_zero, UInt64.ofNat_add, UInt64.ofNat_mul, UInt64.ofNat_toNat, hone]
  grind

/-- `init` only sets the addresses, so an earlier one leaves no trace. -/
@[simp]
lemma BroadcastMem.init_init (b : BroadcastMem) (mem mem' off off' : UInt64) :
    (b.init mem off).init mem' off' = b.init mem' off' := rfl

@[simp]
lemma BroadcastMem.cells_init (b : BroadcastMem) (mem off : UInt64) :
    (b.init mem off).cells = b.cells := rfl

/-! ### The loop over the broadcast objects -/

section Blocks

variable {ι : Type}

/-- The bytes that a list of objects takes. -/
def blockBytes (objs : ι → BroadcastMem) (bcMems : List ι) : ℕ :=
  (bcMems.map fun p => totalBytes (objs p).cells).sum

lemma blockBytes_append (objs : ι → BroadcastMem) (ps : List ι) (p : ι) :
    blockBytes objs (ps ++ [p]) = blockBytes objs ps + totalBytes (objs p).cells := by
  simp [blockBytes]

/-- The objects `objs` of the list became `objs'`, each initialized at its own block from `first`
on; `base` is where the blocks begin. -/
structure Mem.Placed (mem : UInt64) (first : ℕ) (bcMems : List ι) (objs objs' : ι → BroadcastMem)
    (base : ι → ℕ) : Prop where
  init : ∀ p ∈ bcMems,
    objs' p = (objs p).init (mem + UInt64.ofNat (base p)) (UInt64.ofNat (base p))
  other : ∀ p, p ∉ bcMems → objs' p = objs p
  first_le : ∀ p ∈ bcMems, first ≤ base p
  le_last : ∀ p ∈ bcMems,
    base p + totalBytes (objs p).cells ≤ first + blockBytes objs bcMems
  apart : ∀ p ∈ bcMems, ∀ q ∈ bcMems, p ≠ q →
    Separate (base p) (totalBytes (objs p).cells) (base q) (totalBytes (objs q).cells)

variable {mem : UInt64} {first : ℕ} {ps : List ι} {objs objs' : ι → BroadcastMem}
  {base : ι → ℕ}

/-- One iteration: the object goes behind all blocks so far, also if it had one among them. -/
lemma Mem.Placed.snoc [DecidableEq ι] (h : Mem.Placed mem first ps objs objs' base) (p : ι) :
    Mem.Placed mem first (ps ++ [p]) objs
      (Function.update objs' p ((objs' p).init
        (mem + UInt64.ofNat (first + blockBytes objs ps))
        (UInt64.ofNat (first + blockBytes objs ps))))
      (Function.update base p (first + blockBytes objs ps)) := by
  have hinit : ∀ mem off, (objs' p).init mem off = (objs p).init mem off := by
    intro mem off
    by_cases hp : p ∈ ps
    · rw [h.init p hp, BroadcastMem.init_init]
    · rw [h.other p hp]
  have hold : ∀ q ∈ ps ++ [p], q ≠ p → q ∈ ps := by
    intro q hq hne
    rcases List.mem_append.mp hq with hq | hq
    · exact hq
    · exact absurd (List.mem_singleton.mp hq) hne
  constructor
  · intro q hq
    by_cases hqp : q = p
    · subst hqp
      rw [Function.update_self, Function.update_self, hinit]
    · rw [Function.update_of_ne hqp, Function.update_of_ne hqp, h.init q (hold q hq hqp)]
  · intro q hq
    have hqp : q ≠ p := fun heq => hq (List.mem_append_right _ (List.mem_singleton.mpr heq))
    rw [Function.update_of_ne hqp, h.other q fun hq' => hq (List.mem_append_left _ hq')]
  · intro q hq
    by_cases hqp : q = p
    · subst hqp
      rw [Function.update_self]
      exact Nat.le_add_right _ _
    · rw [Function.update_of_ne hqp]
      exact h.first_le q (hold q hq hqp)
  · intro q hq
    rw [blockBytes_append]
    by_cases hqp : q = p
    · subst hqp
      rw [Function.update_self, Nat.add_assoc]
    · rw [Function.update_of_ne hqp]
      have := h.le_last q (hold q hq hqp)
      omega
  · intro q hq q' hq' hne
    by_cases hqp : q = p
    · subst hqp
      have hle := h.le_last q' (hold q' hq' hne.symm)
      rw [Function.update_self, Function.update_of_ne hne.symm]
      exact Or.inr hle
    · by_cases hqp' : q' = p
      · subst hqp'
        have hle := h.le_last q (hold q hq hne)
        rw [Function.update_self, Function.update_of_ne hne]
        exact Or.inl hle
      · rw [Function.update_of_ne hqp, Function.update_of_ne hqp']
        exact h.apart q (hold q hq hqp) q' (hold q' hq' hqp') hne

/-- The loop adds the sizes of the objects. -/
lemma Mem.addSizes_eq (objs : ι → BroadcastMem) (ps : List ι) (n : ℕ) :
    Mem.addSizes objs ps (UInt64.ofNat n) = UInt64.ofNat (n + blockBytes objs ps) := by
  induction ps generalizing n with
  | nil => rfl
  | cons p ps ih =>
      have h := ih (n + totalBytes (objs p).cells)
      rw [UInt64.ofNat_add, ← BroadcastMem.memSize_eq] at h
      rw [blockBytes, List.map_cons, List.sum_cons, ← Nat.add_assoc]
      exact h

/-- **The loop gives every object a block of its own.** -/
lemma Mem.initAll_placed [DecidableEq ι] (mem : UInt64) (first : ℕ) (objs : ι → BroadcastMem)
    (ps : List ι) : (∃ base,
      Mem.Placed mem first ps objs (Mem.initAll mem ps (objs, UInt64.ofNat first)).1 base) ∧
      (Mem.initAll mem ps (objs, UInt64.ofNat first)).2 =
        UInt64.ofNat (first + blockBytes objs ps) := by
  induction ps using List.reverseRecOn with
  | nil =>
      refine ⟨⟨fun _ => 0, ?_⟩, rfl⟩
      constructor <;> simp [Mem.initAll]
  | append_singleton ps p ih =>
      obtain ⟨⟨base, hbase⟩, hoff⟩ := ih
      have hsize : ((Mem.initAll mem ps (objs, UInt64.ofNat first)).1 p).memSize =
          UInt64.ofNat (totalBytes (objs p).cells) := by
        by_cases hp : p ∈ ps
        · rw [hbase.init p hp, BroadcastMem.memSize_eq, BroadcastMem.cells_init]
        · rw [hbase.other p hp, BroadcastMem.memSize_eq]
      rw [Mem.initAll, List.foldl_concat]
      change (∃ base, Mem.Placed mem first (ps ++ [p]) objs (Function.update
        (Mem.initAll mem ps (objs, UInt64.ofNat first)).1 p _) base) ∧
        (Mem.initAll mem ps (objs, UInt64.ofNat first)).2 + _ = _
      constructor
      · refine ⟨Function.update base p (first + blockBytes objs ps), ?_⟩
        rw [← Mem.initAll, hoff]
        exact hbase.snoc p
      · rw [← Mem.initAll, hsize, hoff, blockBytes_append, ← UInt64.ofNat_add, Nat.add_assoc]

end Blocks

/-! ### The regions of the whole memory as cells -/

/-- The arrays that the constructor of `Mem` lays out before the broadcast objects. -/
def Mem.cells (sz : RegionSizes) (numServers numThreads : ℕ) : List Cells :=
  [⟨1, sz.kvsSz.toNat⟩, ⟨numThreads, sz.bufSz.toNat⟩, ⟨numServers * numThreads, sz.rbfSz.toNat⟩,
    ⟨numServers * numThreads, headSz.toNat⟩, ⟨numServers * numThreads, headSz.toNat⟩]

/-- The bytes of all regions. -/
def Mem.regionBytes {ι : Type} (sz : RegionSizes) (numServers numThreads : ℕ) (bcMems : List ι)
    (objs : ι → BroadcastMem) : ℕ :=
  totalBytes (Mem.cells sz numServers numThreads) + blockBytes objs bcMems

namespace Region

variable {ι : Type} {sz : RegionSizes} {numServers numThreads : ℕ} {r r' : Region ι}

/-- Which cell a region is, or which region of which object. -/
def place (numServers : ℕ) : Region ι → (Fin 5 × ℕ) ⊕ (ι × BroadcastRegion)
  | .kvstore => .inl (0, 0)
  | .buffer tid => .inl (1, tid)
  | .ring tid sid => .inl (2, numServers * tid + sid)
  | .localRingHead tid sid => .inl (3, numServers * tid + sid)
  | .remoteRingHead tid sid => .inl (4, numServers * tid + sid)
  | .broadcast p r => .inr (p, r)

/-- Where a region begins, if the blocks of the broadcast objects begin at `base`. -/
def start (sz : RegionSizes) (numServers numThreads : ℕ) (objs : ι → BroadcastMem) (base : ι → ℕ)
    (r : Region ι) : ℕ :=
  match r.place numServers with
  | .inl (a, k) => cellOffset (Mem.cells sz numServers numThreads) a k
  | .inr (p, r) => base p + r.start (objs p)

/-- A thread and a server are determined by the index of their cell. -/
lemma index_inj {tid tid' sid sid' : ℕ} (h : sid < numServers) (h' : sid' < numServers)
    (heq : numServers * tid + sid = numServers * tid' + sid') : tid = tid' ∧ sid = sid' := by
  have hpos : 0 < numServers := by omega
  have htid : tid = tid' := by
    have hdiv := congrArg (· / numServers) heq
    simpa [Nat.mul_add_div hpos, Nat.div_eq_of_lt h, Nat.div_eq_of_lt h'] using hdiv
  subst htid
  exact ⟨rfl, Nat.add_left_cancel heq⟩

lemma index_lt {tid sid : ℕ} (ht : tid < numThreads) (hs : sid < numServers) :
    numServers * tid + sid < numServers * numThreads := by
  calc numServers * tid + sid < numServers * tid + numServers := by omega
    _ = numServers * (tid + 1) := (Nat.mul_succ _ _).symm
    _ ≤ numServers * numThreads := Nat.mul_le_mul_left _ ht

variable {m : Mem} {objs : ι → BroadcastMem} {bcMems : List ι}

lemma place_injective (h : r.Valid m objs bcMems) (h' : r'.Valid m objs bcMems)
    (heq : r.place m.numServers = r'.place m.numServers) : r = r' := by
  cases r <;> cases r' <;> simp only [place, Sum.inl.injEq, Sum.inr.injEq, Prod.mk.injEq,
    reduceCtorEq, Fin.isValue, Fin.reduceEq, false_and, true_and] at heq
  case kvstore.kvstore => rfl
  case buffer.buffer => rw [heq]
  case ring.ring =>
      obtain ⟨rfl, rfl⟩ := index_inj h.2 h'.2 heq
      rfl
  case localRingHead.localRingHead =>
      obtain ⟨rfl, rfl⟩ := index_inj h.2 h'.2 heq
      rfl
  case remoteRingHead.remoteRingHead =>
      obtain ⟨rfl, rfl⟩ := index_inj h.2 h'.2 heq
      rfl
  case broadcast.broadcast => rw [heq.1, heq.2]

/-- A region of the memory itself is a cell of its array, of the right size. -/
lemma place_inl {a : Fin 5} {k : ℕ} (h : r.Valid m objs bcMems)
    (hp : r.place m.numServers = .inl (a, k)) :
    k < ((Mem.cells m.toRegionSizes m.numServers m.numThreads).get a).count ∧
      ((Mem.cells m.toRegionSizes m.numServers m.numThreads).get a).size =
        (r.size m objs).toNat := by
  cases r <;> simp only [place, Sum.inl.injEq, Prod.mk.injEq, reduceCtorEq] at hp <;>
    obtain ⟨rfl, rfl⟩ := hp
  case kvstore => exact ⟨Nat.one_pos, rfl⟩
  case buffer => exact ⟨h, rfl⟩
  case ring => exact ⟨index_lt h.1 h.2, rfl⟩
  case localRingHead => exact ⟨index_lt h.1 h.2, rfl⟩
  case remoteRingHead => exact ⟨index_lt h.1 h.2, rfl⟩

/-- The memory after its constructor. -/
lemma offset_new {objs' : ι → BroadcastMem} {base : ι → ℕ} {malloc : UInt64 → UInt64}
    {bcMems : BroadcastMems ι} [DecidableEq ι]
    (hm : m = (Mem.new sz numServers numThreads bcMems objs malloc).1)
    (hbase : ∀ p ∈ bcMems.list,
      objs' p = (objs p).init (m.mem + UInt64.ofNat (base p)) (UInt64.ofNat (base p)))
    (h : r.Valid m objs' bcMems.list) :
    r.offset m objs' = UInt64.ofNat (r.start sz numServers numThreads objs base) := by
  subst hm
  cases r with
  | kvstore => rfl
  | buffer tid =>
      simp [offset, start, place, cellOffset, totalBytes, Cells.bytes, Mem.cells, Mem.new,
        Mem.bufferOffset, UInt64.ofNat_mul]
  | ring tid sid =>
      simp [offset, start, place, cellOffset, totalBytes, Cells.bytes, Mem.cells, Mem.new,
        Mem.ringOffset, Mem.perThread, UInt64.ofNat_mul]
      grind
  | localRingHead tid sid =>
      simp [offset, start, place, cellOffset, totalBytes, Cells.bytes, Mem.cells, Mem.new,
        Mem.localRingHeadOffset, Mem.perThread, UInt64.ofNat_mul]
      grind
  | remoteRingHead tid sid =>
      simp [offset, start, place, cellOffset, totalBytes, Cells.bytes, Mem.cells, Mem.new,
        Mem.remoteRingHeadOffset, Mem.perThread, UInt64.ofNat_mul]
      grind
  | broadcast p r =>
      have hp := hbase p h.1
      have hr : r.Valid (objs' p) := h.2
      rw [hp] at hr
      rw [offset, hp, BroadcastRegion.offset_init _ _ (b := objs p) hr, ← UInt64.ofNat_add]
      rfl

/-- **A pointer is the base address plus the offset.** -/
lemma pointer_new {objs' : ι → BroadcastMem} {base : ι → ℕ} {malloc : UInt64 → UInt64}
    {bcMems : BroadcastMems ι} [DecidableEq ι]
    (hm : m = (Mem.new sz numServers numThreads bcMems objs malloc).1)
    (hbase : ∀ p ∈ bcMems.list,
      objs' p = (objs p).init (m.mem + UInt64.ofNat (base p)) (UInt64.ofNat (base p)))
    (h : r.Valid m objs' bcMems.list) : r.pointer m objs' = m.mem + r.offset m objs' := by
  cases r with
  | kvstore => subst hm; rfl
  | buffer tid =>
      subst hm
      simp [pointer, offset, Mem.new, Mem.buffer, Mem.bufferOffset, UInt64.add_assoc]
  | ring tid sid =>
      subst hm
      simp [pointer, offset, Mem.new, Mem.ring, Mem.ringOffset, Mem.perThread, UInt64.add_assoc]
  | localRingHead tid sid =>
      subst hm
      simp [pointer, offset, Mem.new, Mem.localRingHead, Mem.localRingHeadOffset, Mem.perThread,
        UInt64.add_assoc]
  | remoteRingHead tid sid =>
      subst hm
      simp [pointer, offset, Mem.new, Mem.remoteRingHead, Mem.remoteRingHeadOffset, Mem.perThread,
        UInt64.add_assoc]
  | broadcast p r =>
      rw [pointer, offset, hbase p h.1]
      exact BroadcastRegion.pointer_init ..

end Region

/-- The regions are handed out well: they lie inside the allocation, two different ones do not
overlap, and each pointer is the base address plus the offset. -/
structure Mem.Partitioned {ι : Type} (m : Mem) (objs : ι → BroadcastMem) (bcMems : List ι) :
    Prop where
  inside : ∀ r : Region ι, r.Valid m objs bcMems →
    (r.offset m objs).toNat + (r.size m objs).toNat ≤ m.memSz.toNat
  apart : ∀ r r' : Region ι, r.Valid m objs bcMems → r'.Valid m objs bcMems → r ≠ r' →
    Separate (r.offset m objs).toNat (r.size m objs).toNat
      (r'.offset m objs).toNat (r'.size m objs).toNat
  pointer_eq : ∀ r : Region ι, r.Valid m objs bcMems →
    r.pointer m objs = m.mem + r.offset m objs

section Partition

variable {ι : Type} {sz : RegionSizes} {numServers numThreads : ℕ} {bcMems : List ι}
  {m : Mem} {objs objs' : ι → BroadcastMem} {base : ι → ℕ} {r r' : Region ι}

/-- The allocation is as large as all regions together. -/
lemma Mem.memSz_new [DecidableEq ι] {bcMems : BroadcastMems ι} (malloc : UInt64 → UInt64)
    (hfit : Mem.regionBytes sz numServers numThreads bcMems.list objs < 2 ^ 64) :
    (Mem.new sz numServers numThreads bcMems objs malloc).1.memSz.toNat =
      Mem.regionBytes sz numServers numThreads bcMems.list objs := by
  have hown : sz.kvsSz + sz.bufSz * UInt64.ofNat numThreads
      + sz.rbfSz * UInt64.ofNat numServers * UInt64.ofNat numThreads
      + headSz * UInt64.ofNat numServers * UInt64.ofNat numThreads
      + headSz * UInt64.ofNat numServers * UInt64.ofNat numThreads =
        UInt64.ofNat (totalBytes (Mem.cells sz numServers numThreads)) := by
    simp [totalBytes, Cells.bytes, Mem.cells, UInt64.ofNat_mul]
    grind
  rw [Mem.new, hown, Mem.addSizes_eq, ← Mem.regionBytes]
  exact UInt64.toNat_ofNat_of_lt' hfit

/-- The constructor places the broadcast objects behind the regions of the memory itself. -/
lemma Mem.placed_new [DecidableEq ι] (sz : RegionSizes) (numServers numThreads : ℕ)
    (bcMems : BroadcastMems ι) (objs : ι → BroadcastMem) (malloc : UInt64 → UInt64) :
    ∃ base, Mem.Placed (Mem.new sz numServers numThreads bcMems objs malloc).1.mem
      (totalBytes (Mem.cells sz numServers numThreads)) bcMems.list objs
      (Mem.new sz numServers numThreads bcMems objs malloc).2 base := by
  have hoff : 0 + sz.kvsSz + sz.bufSz * UInt64.ofNat numThreads
      + sz.rbfSz * UInt64.ofNat numServers * UInt64.ofNat numThreads
      + headSz * UInt64.ofNat numServers * UInt64.ofNat numThreads
      + headSz * UInt64.ofNat numServers * UInt64.ofNat numThreads =
        UInt64.ofNat (totalBytes (Mem.cells sz numServers numThreads)) := by
    simp [totalBytes, Cells.bytes, Mem.cells, UInt64.ofNat_mul]
    grind
  have hplaced := (Mem.initAll_placed (Mem.new sz numServers numThreads bcMems objs malloc).1.mem
    (totalBytes (Mem.cells sz numServers numThreads)) objs bcMems.list).1
  rw [← hoff] at hplaced
  exact hplaced

variable {mem : UInt64}

/-- A region of the memory itself ends before the blocks of the broadcast objects. -/
lemma Region.start_add_le_cells (objs : ι → BroadcastMem) (base : ι → ℕ) {c : Fin 5 × ℕ}
    (h : r.Valid m objs' bcMems) (hc : r.place m.numServers = .inl c) :
    r.start m.toRegionSizes m.numServers m.numThreads objs base + (r.size m objs').toNat ≤
      totalBytes (Mem.cells m.toRegionSizes m.numServers m.numThreads) := by
  obtain ⟨hk, hsize⟩ := Region.place_inl h hc
  rw [Region.start, hc, ← hsize]
  exact cellOffset_add_le hk

/-- A region of a broadcast object lies within the block of the object. -/
lemma Mem.Placed.within_block {first : ℕ} {p : ι} {q : BroadcastRegion}
    (hbase : Mem.Placed mem first bcMems objs objs' base)
    (h : (Region.broadcast p q).Valid m objs' bcMems) :
    q.Valid (objs p) ∧ q.size (objs' p) = q.size (objs p) ∧
      q.start (objs p) + (q.size (objs p)).toNat ≤ totalBytes (objs p).cells := by
  have hq : q.Valid (objs' p) := h.2
  rw [hbase.init p h.1] at hq ⊢
  exact ⟨hq, rfl, BroadcastRegion.start_add_le (b := objs p) hq⟩

/-- A region ends within the bytes of all regions. -/
lemma Mem.Placed.start_add_le
    (hbase : Mem.Placed mem (totalBytes (Mem.cells m.toRegionSizes m.numServers m.numThreads))
      bcMems objs objs' base) (h : r.Valid m objs' bcMems) :
    r.start m.toRegionSizes m.numServers m.numThreads objs base + (r.size m objs').toNat ≤
      Mem.regionBytes m.toRegionSizes m.numServers m.numThreads bcMems objs := by
  cases hc : r.place m.numServers with
  | inl c => exact (Region.start_add_le_cells objs base h hc).trans (Nat.le_add_right _ _)
  | inr c =>
      cases r with
      | broadcast p q =>
          obtain ⟨-, hsize, hin⟩ := hbase.within_block h
          have hle := hbase.le_last p h.1
          rw [Region.start, Region.size, hsize]
          change base p + q.start (objs p) + (q.size (objs p)).toNat ≤ _
          exact le_trans (by omega) hle
      | _ => exact absurd hc (by simp [Region.place])

/-- Two different regions of broadcast objects do not overlap. -/
lemma Mem.Placed.broadcast_separate {first : ℕ} {p p' : ι} {q q' : BroadcastRegion}
    (hbase : Mem.Placed mem first bcMems objs objs' base)
    (h : (Region.broadcast p q).Valid m objs' bcMems)
    (h' : (Region.broadcast p' q').Valid m objs' bcMems) (hne : (p, q) ≠ (p', q')) :
    Separate (base p + q.start (objs p)) (q.size (objs' p)).toNat
      (base p' + q'.start (objs p')) (q'.size (objs' p')).toNat := by
  obtain ⟨hq, hsize, hin⟩ := hbase.within_block h
  obtain ⟨hq', hsize', hin'⟩ := hbase.within_block h'
  rw [hsize, hsize']
  by_cases hp : p = p'
  · subst hp
    have hqq : q ≠ q' := fun heq => hne (by rw [heq])
    exact (BroadcastRegion.start_separate hq hq' hqq).add_left _
  · exact (hbase.apart p h.1 p' h'.1 hp).sub (by omega) (by omega) (by omega) (by omega)

/-- Two different regions do not overlap. -/
lemma Mem.Placed.start_separate
    (hbase : Mem.Placed mem (totalBytes (Mem.cells m.toRegionSizes m.numServers m.numThreads))
      bcMems objs objs' base) (h : r.Valid m objs' bcMems) (h' : r'.Valid m objs' bcMems)
    (hne : r ≠ r') :
    Separate (r.start m.toRegionSizes m.numServers m.numThreads objs base) (r.size m objs').toNat
      (r'.start m.toRegionSizes m.numServers m.numThreads objs base) (r'.size m objs').toNat := by
  -- a region of the memory itself and one of a broadcast object
  have hmixed : ∀ {r r' : Region ι} {c : Fin 5 × ℕ} {c' : ι × BroadcastRegion},
      r.Valid m objs' bcMems → r'.Valid m objs' bcMems →
      r.place m.numServers = .inl c → r'.place m.numServers = .inr c' →
      Separate (r.start m.toRegionSizes m.numServers m.numThreads objs base) (r.size m objs').toNat
        (r'.start m.toRegionSizes m.numServers m.numThreads objs base) (r'.size m objs').toNat := by
    intro r r' c c' h h' hc hc'
    have hle := Region.start_add_le_cells objs base h hc
    cases r' with
    | broadcast p q =>
        have hfirst := hbase.first_le p h'.1
        exact Or.inl (hle.trans (hfirst.trans (Nat.le_add_right _ _)))
    | _ => exact absurd hc' (by simp [Region.place])
  cases hc : r.place m.numServers with
  | inl c =>
      cases hc' : r'.place m.numServers with
      | inl c' =>
          obtain ⟨hk, hsize⟩ := Region.place_inl h hc
          obtain ⟨hk', hsize'⟩ := Region.place_inl h' hc'
          have hcc : c ≠ c' := fun heq => hne (Region.place_injective h h' (by rw [hc, hc', heq]))
          rw [Region.start, Region.start, hc, hc', ← hsize, ← hsize']
          exact cells_apart hk hk' hcc
      | inr c' => exact hmixed h h' hc hc'
  | inr c =>
      cases hc' : r'.place m.numServers with
      | inl c' => exact (hmixed h' h hc' hc).symm
      | inr c' =>
          cases r with
          | broadcast p q =>
              cases r' with
              | broadcast p' q' =>
                  refine hbase.broadcast_separate h h' fun heq => hne ?_
                  rw [(Prod.mk.inj heq).1, (Prod.mk.inj heq).2]
              | _ => exact absurd hc' (by simp [Region.place])
          | _ => exact absurd hc (by simp [Region.place])

end Partition

/-- **The registered memory is partitioned**: if all regions together fit 64 bits, whatever the
sizes, the threads, the servers and the broadcast objects are. -/
theorem Mem.partitioned {ι : Type} [DecidableEq ι] (sz : RegionSizes) (numServers numThreads : ℕ)
    (bcMems : BroadcastMems ι) (objs : ι → BroadcastMem) (malloc : UInt64 → UInt64)
    (hfit : Mem.regionBytes sz numServers numThreads bcMems.list objs < 2 ^ 64) :
    (Mem.new sz numServers numThreads bcMems objs malloc).1.Partitioned
      (Mem.new sz numServers numThreads bcMems objs malloc).2 bcMems.list := by
  obtain ⟨base, hbase⟩ := Mem.placed_new sz numServers numThreads bcMems objs malloc
  set m := (Mem.new sz numServers numThreads bcMems objs malloc).1 with hm
  set objs' := (Mem.new sz numServers numThreads bcMems objs malloc).2
  have hin : ∀ r : Region ι, r.Valid m objs' bcMems.list →
      r.start sz numServers numThreads objs base + (r.size m objs').toNat ≤
        Mem.regionBytes sz numServers numThreads bcMems.list objs :=
    fun r h => Mem.Placed.start_add_le (m := m) hbase h
  have hoff : ∀ r : Region ι, r.Valid m objs' bcMems.list →
      (r.offset m objs').toNat = r.start sz numServers numThreads objs base := by
    intro r h
    have hle := hin r h
    rw [Region.offset_new hm hbase.init h]
    exact UInt64.toNat_ofNat_of_lt' ((Nat.le_of_add_right_le hle).trans_lt hfit)
  constructor
  · intro r h
    rw [hoff r h, Mem.memSz_new malloc hfit]
    exact hin r h
  · intro r r' h h' hne
    rw [hoff r h, hoff r' h']
    exact Mem.Placed.start_separate (m := m) hbase h h' hne
  · intro r h
    exact Region.pointer_new hm hbase.init h

/-- The defaults of the configuration. -/
def defaultGlobals : MemGlobals where
  hasRdma := true
  memstoreSizeGb := 20
  rdmaBufSizeMb := 64
  rdmaRbfSizeMb := 16

/-- Two broadcast objects. -/
def twoObjects : BroadcastMems Bool := ⟨[false, true], by decide⟩

theorem Mem.partitioned_twoServers :
    (Mem.new (.ofGlobals defaultGlobals) 2 4 twoObjects
        (fun p => BroadcastMem.new defaultGlobals 2 (if p then 6 else 4) 0 (by decide))
        (fun _ => 4096)).1.Partitioned
      (Mem.new (.ofGlobals defaultGlobals) 2 4 twoObjects
        (fun p => BroadcastMem.new defaultGlobals 2 (if p then 6 else 4) 0 (by decide))
        (fun _ => 4096)).2 twoObjects.list :=
  Mem.partitioned _ _ _ _ _ _ (by decide)

end RedAnns.Registered
