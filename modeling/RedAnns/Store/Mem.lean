import Mathlib.Tactic

/-!
The registered memory, `core/mem.hpp`: one allocation that holds the kvstore, the buffers and rings
of the threads, and the regions of the broadcast objects.

* `BroadcastMem`, `BroadcastMem.init`, `Mem`, `Mem.new`: the two constructors, which lay out the
  regions with 64-bit offsets and pointers.
* `BroadcastMems`: the broadcast objects of a memory.
* `BroadcastRegion`, `Region`: the regions that are handed out, with their accessors.
-/

namespace RedAnns.Registered

/-- What the configuration says of the memory. -/
structure MemGlobals where
  hasRdma : Bool
  memstoreSizeGb : ℕ
  rdmaBufSizeMb : ℕ
  rdmaRbfSizeMb : ℕ

/-- `MiB2B`. -/
def mib2b (x : ℕ) : UInt64 := UInt64.ofNat x * 1024 * 1024

/-- `GiB2B`. -/
def gib2b (x : ℕ) : UInt64 := mib2b x * 1024

/-- `sizeof(uint64_t)`, the size of the head of a ring. -/
def headSz : UInt64 := 8

/-! ### The memory of a broadcast object -/

/-- `Broadcast_Mem`. Its constructor adds one to the number of servers, an `int`. -/
structure BroadcastMem where
  numServers : ℕ
  startTid : ℤ
  bufSz : UInt64
  rbfSz : UInt64
  buf : UInt64
  bufOff : UInt64
  mRbf : UInt64
  mRbfOff : UInt64
  sRbf : UInt64
  sRbfOff : UInt64
  mLrbfHd : UInt64
  mLrbfHdOff : UInt64
  sLrbfHd : UInt64
  sLrbfHdOff : UInt64
  mRrbfHd : UInt64
  mRrbfHdOff : UInt64
  sRrbfHd : UInt64
  sRrbfHdOff : UInt64
  lt : numServers + 1 < 2 ^ 31

namespace BroadcastMem

/-- The constructor; `heap` is what the memory of the object holds before it is initialized. -/
def new (g : MemGlobals) (numServers : ℕ) (startTid : ℤ) (heap : UInt64)
    (lt : numServers + 1 < 2 ^ 31) : BroadcastMem where
  numServers := numServers
  startTid := startTid
  bufSz := if g.hasRdma then mib2b g.rdmaRbfSizeMb else 0
  rbfSz := if g.hasRdma then mib2b g.rdmaRbfSizeMb else 0
  buf := heap
  bufOff := heap
  mRbf := heap
  mRbfOff := heap
  sRbf := heap
  sRbfOff := heap
  mLrbfHd := heap
  mLrbfHdOff := heap
  sLrbfHd := heap
  sLrbfHdOff := heap
  mRrbfHd := heap
  mRrbfHdOff := heap
  sRrbfHd := heap
  sRrbfHdOff := heap
  lt := lt

variable (b : BroadcastMem)

/-- `num_threads`. -/
def numThreads : ℕ := 2

/-- `mem_size`. -/
def memSize : UInt64 :=
  b.bufSz * UInt64.ofNat numThreads + b.rbfSz * UInt64.ofNat (b.numServers + 1)
    + headSz * UInt64.ofNat (b.numServers + 1) + headSz * UInt64.ofNat (b.numServers + 1)

/-- `init`. -/
def init (mem memOff : UInt64) : BroadcastMem :=
  let ns := UInt64.ofNat b.numServers
  let bufAt := 0
  let mRbfAt := bufAt + b.bufSz * UInt64.ofNat numThreads
  let sRbfAt := mRbfAt + b.rbfSz * ns
  let mLrbfHdAt := sRbfAt + b.rbfSz
  let sLrbfHdAt := mLrbfHdAt + headSz * ns
  let mRrbfHdAt := sLrbfHdAt + headSz
  let sRrbfHdAt := mRrbfHdAt + headSz
  { b with
    buf := mem + bufAt
    bufOff := memOff + bufAt
    mRbf := mem + mRbfAt
    mRbfOff := memOff + mRbfAt
    sRbf := mem + sRbfAt
    sRbfOff := memOff + sRbfAt
    mLrbfHd := mem + mLrbfHdAt
    mLrbfHdOff := memOff + mLrbfHdAt
    sLrbfHd := mem + sLrbfHdAt
    sLrbfHdOff := memOff + sLrbfHdAt
    mRrbfHd := mem + mRrbfHdAt
    mRrbfHdOff := memOff + mRrbfHdAt
    sRrbfHd := mem + sRrbfHdAt
    sRrbfHdOff := memOff + sRrbfHdAt }

def buffer (tid : ℤ) : UInt64 := b.buf + b.bufSz * UInt64.ofInt (tid - b.startTid)
def bufferOffset (tid : ℤ) : UInt64 := b.bufOff + b.bufSz * UInt64.ofInt (tid - b.startTid)
def masterRing (sid : ℕ) : UInt64 := b.mRbf + b.rbfSz * UInt64.ofNat sid
def slaveRing : UInt64 := b.sRbf
def masterRingOffset (sid : ℕ) : UInt64 := b.mRbfOff + b.rbfSz * UInt64.ofNat sid
def slaveRingOffset : UInt64 := b.sRbfOff
def localMasterRingHead (sid : ℕ) : UInt64 := b.mLrbfHd + headSz * UInt64.ofNat sid
def localSlaveRingHead : UInt64 := b.sLrbfHd
def localMasterRingHeadOffset (sid : ℕ) : UInt64 := b.mLrbfHdOff + headSz * UInt64.ofNat sid
def localSlaveRingHeadOffset : UInt64 := b.sLrbfHdOff
def remoteMasterRingHead : UInt64 := b.mRrbfHd
def remoteSlaveRingHead (sid : ℕ) : UInt64 := b.sRrbfHd + headSz * UInt64.ofNat sid
def remoteMasterRingHeadOffset : UInt64 := b.mRrbfHdOff
def remoteSlaveRingHeadOffset (sid : ℕ) : UInt64 := b.sRrbfHdOff + headSz * UInt64.ofNat sid

end BroadcastMem

/-- The regions of a broadcast object. -/
inductive BroadcastRegion
  | buffer (tid : ℤ)
  | masterRing (sid : ℕ)
  | slaveRing
  | localMasterRingHead (sid : ℕ)
  | localSlaveRingHead
  | remoteMasterRingHead
  | remoteSlaveRingHead (sid : ℕ)
  deriving DecidableEq

namespace BroadcastRegion

variable (b : BroadcastMem)

/-- The threads and servers that there are: two threads, from `start_tid` on. -/
def Valid : BroadcastRegion → Prop
  | .buffer tid => b.startTid ≤ tid ∧ tid < b.startTid + BroadcastMem.numThreads
  | .masterRing sid => sid < b.numServers
  | .localMasterRingHead sid => sid < b.numServers
  | .remoteSlaveRingHead sid => sid < b.numServers
  | _ => True

/-- The pointer accessors. -/
def pointer : BroadcastRegion → UInt64
  | .buffer tid => b.buffer tid
  | .masterRing sid => b.masterRing sid
  | .slaveRing => b.slaveRing
  | .localMasterRingHead sid => b.localMasterRingHead sid
  | .localSlaveRingHead => b.localSlaveRingHead
  | .remoteMasterRingHead => b.remoteMasterRingHead
  | .remoteSlaveRingHead sid => b.remoteSlaveRingHead sid

/-- The offset accessors. -/
def offset : BroadcastRegion → UInt64
  | .buffer tid => b.bufferOffset tid
  | .masterRing sid => b.masterRingOffset sid
  | .slaveRing => b.slaveRingOffset
  | .localMasterRingHead sid => b.localMasterRingHeadOffset sid
  | .localSlaveRingHead => b.localSlaveRingHeadOffset
  | .remoteMasterRingHead => b.remoteMasterRingHeadOffset
  | .remoteSlaveRingHead sid => b.remoteSlaveRingHeadOffset sid

/-- The size accessors. -/
def size : BroadcastRegion → UInt64
  | .buffer _ => b.bufSz
  | .masterRing _ | .slaveRing => b.rbfSz
  | _ => headSz

end BroadcastRegion

/-! ### The whole memory -/

/-- The region sizes of `Mem`. -/
structure RegionSizes where
  kvsSz : UInt64
  bufSz : UInt64
  rbfSz : UInt64

/-- The sizes that the constructor of `Mem` takes from the configuration. -/
def RegionSizes.ofGlobals (g : MemGlobals) : RegionSizes where
  kvsSz := gib2b g.memstoreSizeGb
  bufSz := if g.hasRdma then mib2b g.rdmaBufSizeMb else 0
  rbfSz := if g.hasRdma then mib2b g.rdmaRbfSizeMb else 0

/-- The broadcast objects of a `Mem`, by their pointers; an `int` counts them. -/
structure BroadcastMems (ι : Type) where
  list : List ι
  length_lt : list.length < 2 ^ 31

/-- `Mem`. -/
structure Mem extends RegionSizes where
  numServers : ℕ
  numThreads : ℕ
  mem : UInt64
  memSz : UInt64
  kvs : UInt64
  kvsOff : UInt64
  buf : UInt64
  bufOff : UInt64
  rbf : UInt64
  rbfOff : UInt64
  lrbfHd : UInt64
  lrbfHdOff : UInt64
  rrbfHd : UInt64
  rrbfHdOff : UInt64

namespace Mem

variable {ι : Type} [DecidableEq ι]

/-- The loop that adds the sizes of the broadcast objects, which are reached by pointers. -/
def addSizes (objs : ι → BroadcastMem) (bcMems : List ι) (memSz : UInt64) : UInt64 :=
  bcMems.foldl (fun memSz p => memSz + (objs p).memSize) memSz

/-- The loop that initializes the broadcast objects. -/
def initAll (mem : UInt64) (bcMems : List ι) (acc : (ι → BroadcastMem) × UInt64) :
    (ι → BroadcastMem) × UInt64 :=
  bcMems.foldl (fun acc p =>
    (Function.update acc.1 p ((acc.1 p).init (mem + acc.2) acc.2),
      acc.2 + (acc.1 p).memSize)) acc

/-- The constructor of `Mem`, with the broadcast objects as it leaves them; `malloc` is the address
that the allocation returns for a size. -/
def new (sz : RegionSizes) (numServers numThreads : ℕ) (bcMems : BroadcastMems ι)
    (objs : ι → BroadcastMem) (malloc : UInt64 → UInt64) : Mem × (ι → BroadcastMem) :=
  let ns := UInt64.ofNat numServers
  let nt := UInt64.ofNat numThreads
  let memSz := addSizes objs bcMems.list (sz.kvsSz + sz.bufSz * nt + sz.rbfSz * ns * nt
    + headSz * ns * nt + headSz * ns * nt)
  let mem := malloc memSz
  let kvsOff := 0
  let bufOff := kvsOff + sz.kvsSz
  let rbfOff := bufOff + sz.bufSz * nt
  let lrbfHdOff := rbfOff + sz.rbfSz * ns * nt
  let rrbfHdOff := lrbfHdOff + headSz * ns * nt
  let off := rrbfHdOff + headSz * ns * nt
  ({ sz with
      numServers, numThreads, mem, memSz
      kvs := mem + kvsOff, kvsOff
      buf := mem + bufOff, bufOff
      rbf := mem + rbfOff, rbfOff
      lrbfHd := mem + lrbfHdOff, lrbfHdOff
      rrbfHd := mem + rrbfHdOff, rrbfHdOff },
    (initAll mem bcMems.list (objs, off)).1)

variable (m : Mem)

def kvstore : UInt64 := m.kvs
def kvstoreOffset : UInt64 := m.kvsOff
def buffer (tid : ℕ) : UInt64 := m.buf + m.bufSz * UInt64.ofNat tid
def bufferOffset (tid : ℕ) : UInt64 := m.bufOff + m.bufSz * UInt64.ofNat tid

/-- An address or an offset for each thread and server. -/
def perThread (base sz : UInt64) (tid sid : ℕ) : UInt64 :=
  base + sz * UInt64.ofNat m.numServers * UInt64.ofNat tid + sz * UInt64.ofNat sid

def ring (tid sid : ℕ) : UInt64 := m.perThread m.rbf m.rbfSz tid sid
def ringOffset (tid sid : ℕ) : UInt64 := m.perThread m.rbfOff m.rbfSz tid sid
def localRingHead (tid sid : ℕ) : UInt64 := m.perThread m.lrbfHd headSz tid sid
def localRingHeadOffset (tid sid : ℕ) : UInt64 := m.perThread m.lrbfHdOff headSz tid sid
def remoteRingHead (tid sid : ℕ) : UInt64 := m.perThread m.rrbfHd headSz tid sid
def remoteRingHeadOffset (tid sid : ℕ) : UInt64 := m.perThread m.rrbfHdOff headSz tid sid

end Mem

/-- All regions that are handed out; those of a broadcast object by its pointer. -/
inductive Region (ι : Type)
  | kvstore
  | buffer (tid : ℕ)
  | ring (tid sid : ℕ)
  | localRingHead (tid sid : ℕ)
  | remoteRingHead (tid sid : ℕ)
  | broadcast (p : ι) (r : BroadcastRegion)
  deriving DecidableEq

namespace Region

variable {ι : Type} (m : Mem) (objs : ι → BroadcastMem)

/-- The threads, servers and objects that there are. -/
def Valid (bcMems : List ι) : Region ι → Prop
  | .kvstore => True
  | .buffer tid => tid < m.numThreads
  | .ring tid sid | .localRingHead tid sid | .remoteRingHead tid sid =>
      tid < m.numThreads ∧ sid < m.numServers
  | .broadcast p r => p ∈ bcMems ∧ r.Valid (objs p)

/-- The pointer accessors. -/
def pointer : Region ι → UInt64
  | .kvstore => m.kvstore
  | .buffer tid => m.buffer tid
  | .ring tid sid => m.ring tid sid
  | .localRingHead tid sid => m.localRingHead tid sid
  | .remoteRingHead tid sid => m.remoteRingHead tid sid
  | .broadcast p r => r.pointer (objs p)

/-- The offset accessors. -/
def offset : Region ι → UInt64
  | .kvstore => m.kvstoreOffset
  | .buffer tid => m.bufferOffset tid
  | .ring tid sid => m.ringOffset tid sid
  | .localRingHead tid sid => m.localRingHeadOffset tid sid
  | .remoteRingHead tid sid => m.remoteRingHeadOffset tid sid
  | .broadcast p r => r.offset (objs p)

/-- The size accessors. -/
def size : Region ι → UInt64
  | .kvstore => m.kvsSz
  | .buffer _ => m.bufSz
  | .ring _ _ => m.rbfSz
  | .localRingHead _ _ | .remoteRingHead _ _ => headSz
  | .broadcast p r => r.size (objs p)

end Region

end RedAnns.Registered
