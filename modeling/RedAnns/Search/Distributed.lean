import RedAnns.Index.Placement
import RedAnns.Search.Greedy
import RedAnns.Store.Contract

/-!
The distributed search, `search_base_index_distributed` of `src/index.cpp`.

A server runs the search against its own part of the index and reads the records of the other
servers. The reads of an expansion are asynchronous: up to `relax` batches may be in flight
while the search goes on expanding, and what is in flight when the pool is exhausted is scored
in a second loop.

The function is a machine with one step from each loop head to the next (`Point`), so that
the hardware can make progress before every step and so that its reachable states are those
of the source at its loop heads:

* `start` is what happens up to the loop over the entry points;
* `step` is one step, with `issue` for the body of the main loop up to the loop over local
  vertices, `awaitFront` for the wait, `score` for one vertex, `popFront` for the end of a
  batch;
* `searchBaseIndexDistributed` is the run, cut off after `n` steps, and `writeLabels` the
  output loop.
-/

namespace RedAnns

open GStore

/-- `PQ`, with what it looks up for the query at hand. -/
structure Pq (δ : Type*) where
  loaded : Bool
  lookup : VertexId → δ

/-- `compute_dist`: zero when no PQ data is loaded. -/
def Pq.computeDist {δ : Type*} [Zero δ] (pq : Pq δ) (baseId : VertexId) : δ :=
  if !pq.loaded then 0 else pq.lookup baseId

/-- The test a remote neighbour has to pass: the pool is not full, or the PQ distance is less
than 1.1 times the distance of the last entry. -/
def Pq.passes {δ : Type*} [Field δ] [LinearOrder δ] [Inhabited δ] (pq : Pq δ)
    (bestLNodes : NeighborPriorityQueue Item δ) (vid : VertexId) : Bool :=
  decide (bestLNodes.size < bestLNodes.capacity) ||
    decide (pq.computeDist vid < (bestLNodes.slot (bestLNodes.size - 1)).distance * (11 / 10))

/-- The bound of the test, for the distance of the last entry. -/
def widened {δ : Type*} [Field δ] (distance : δ) : δ := distance * (11 / 10)

/-- `Index`, as a server has loaded it: its store, the layout, the entry point and what
`add_adaptive_ep` looks up. -/
structure ServerIndex where
  gstore : GStore
  layout : Layout
  membktEP : Item
  baseInBucket : List UInt32
  baseToLid : List LocalId
  learnProjectionInBase : List (List VertexId)

/-- The arguments of a call, with the test for remote neighbours as one of them; `relax` and
`relax + 1` are of type `int`. -/
structure SearchCall (δ : Type) where
  distance : Distance δ
  query : List UInt32
  learnIndexRes : ℕ
  adaptiveEpNum : ℕ
  relax : ℕ
  relax_lt : relax + 1 < 2 ^ 31
  passes : NeighborPriorityQueue Item δ → VertexId → Bool

/-- `QueryStats`, the counters of this search. -/
structure QueryStats where
  nHops : UInt32
  nCmps : UInt32
  nCmpsLocal : UInt32
  nCmpsRemote : UInt32
  deriving DecidableEq

/-- `update_stats`. -/
def QueryStats.update (stats : QueryStats) (sid : ServerId) (itemScratch : List Item) :
    QueryStats where
  nHops := stats.nHops + 1
  nCmps := stats.nCmps + UInt32.ofNat itemScratch.length
  nCmpsLocal := stats.nCmpsLocal + UInt32.ofNat (itemScratch.filter (·.first = sid)).length
  nCmpsRemote := stats.nCmpsRemote + UInt32.ofNat (itemScratch.filter (·.first ≠ sid)).length

/-- `push_back` of a circular buffer: a full one loses its front. -/
def pushBack {α : Type*} (capacity : ℕ) (q : List α) (a : α) : List α :=
  if q.length < capacity then q ++ [a] else q.tail ++ [a]

/-- Where the search stands: in the loop over the entry points, at the head of the main loop,
in the loop over the local vertices of a batch, in a loop over the remote ones of the front
batch (of the main loop or, `draining`, of the loop behind it), at the head of the loop over
the batches that are left, or at the output loop. -/
inductive Point
  | entry (rest : Batch)
  | head
  | scoreLocal (rest : Batch)
  | scoreRemote (draining : Bool) (rest : Batch)
  | drain
  | finished
  deriving DecidableEq

/-- The state of the search. The last five fields are not in the source: they record the
vertices in the order in which they were scored, the expanded ones, the remote neighbours that
failed the test, and the batches that were pushed and that were scored. -/
structure DistState (δ : Type) where
  point : Point
  bestLNodes : NeighborPriorityQueue Item δ
  insertedIntoPoolRs : Finset Item
  ctx : ThdCtx
  queueItemBatch : List (List Item)
  queueVertexBatch : List (List Ptr)
  relax : ℕ
  stats : Option QueryStats
  evaluated : List Item
  expanded : List Item
  pruned : List Item
  pushed : List Batch
  scored : List Batch

/-- What the loop over the neighbours of a node works on. -/
structure Traversal where
  inserted : Finset Item
  itemScratch : List Item
  pruned : List Item

namespace Distributed

section Model

variable {δ : Type} [LinearOrder δ] [Inhabited δ] (ix : ServerIndex) (c : SearchCall δ)

/-- One round of the loop over neighbours: one that is not visited yet is marked, and kept
if it is local or passes the test. -/
def visitNeighbor (q : NeighborPriorityQueue Item δ) (t : Traversal) (e : VertexId × Item) :
    Traversal :=
  if e.2 ∈ t.inserted then t
  else
    let inserted := insert e.2 t.inserted
    if e.2.first ≠ ix.gstore.sid then
      if c.passes q e.1 then
        { t with inserted := inserted, itemScratch := t.itemScratch ++ [e.2] }
      else { t with inserted := inserted, pruned := t.pruned ++ [e.2] }
    else { t with inserted := inserted, itemScratch := t.itemScratch ++ [e.2] }

/-- One vertex: its distance is computed, it is inserted, and if it was taken its record is
recorded. -/
def score (s : DistState δ) (x : Item × Ptr) : DistState δ :=
  let base := ix.layout.base (ix.gstore.view s.ctx x.2)
  let dist := c.distance.compare base c.query
  let (succ, bestLNodes) := s.bestLNodes.insert ⟨x.1, dist, false⟩
  { s with
    bestLNodes := bestLNodes
    ctx := if succ then ix.gstore.updateThdCache s.ctx x.1 x.2 else s.ctx
    evaluated := s.evaluated ++ [x.1] }

/-- The body of the main loop up to the loop over local vertices: the closest node is
expanded, its neighbours are visited and their records requested. -/
def issue (s : DistState δ) : Except Stop (DistState δ) := do
  let (n, bestLNodes) := s.bestLNodes.closestUnexpanded
  let ptr ← ix.gstore.getVertex s.ctx n.id
  let entries := ix.layout.neighborsDistributed (ix.gstore.view s.ctx ptr)
  let t := entries.foldl (visitNeighbor ix c bestLNodes) ⟨s.insertedIntoPoolRs, [], []⟩
  let (vertexScratch, ctx) ← ix.gstore.getVertexBatch s.ctx t.itemScratch true
  .ok { s with
    point := .scoreLocal (t.itemScratch.zip vertexScratch)
    bestLNodes := bestLNodes
    insertedIntoPoolRs := t.inserted
    ctx := ctx
    queueItemBatch := pushBack (c.relax + 1) s.queueItemBatch t.itemScratch
    queueVertexBatch := pushBack (c.relax + 1) s.queueVertexBatch vertexScratch
    stats := s.stats.map fun stats => stats.update ix.gstore.sid t.itemScratch
    expanded := s.expanded ++ [n.id]
    pruned := s.pruned ++ t.pruned
    pushed := s.pushed ++ [t.itemScratch.zip vertexScratch] }

/-- The front batch is waited for. -/
def awaitFront (draining : Bool) (s : DistState δ) : Except Stop (DistState δ) :=
  match s.queueItemBatch, s.queueVertexBatch with
  | itemScratchRef :: _, vertexScratchRef :: _ => do
      let ctx ← ix.gstore.getVertexBatchWait s.ctx
      .ok { s with
        ctx := ctx
        point := .scoreRemote draining (itemScratchRef.zip vertexScratchRef) }
  | _, _ => .error .emptyFront

omit [LinearOrder δ] [Inhabited δ] in
/-- The front batch is done with. -/
def popFront (s : DistState δ) : DistState δ :=
  { s with
    queueItemBatch := s.queueItemBatch.tail
    queueVertexBatch := s.queueVertexBatch.tail
    scored := s.scored ++ [(s.queueItemBatch.headD []).zip (s.queueVertexBatch.headD [])] }

/-- From one loop head to the next. -/
def advance (s : DistState δ) : Except Stop (DistState δ) :=
  match s.point with
  | .entry [] => .ok { s with point := .head }
  | .entry (x :: rest) => .ok { score ix c s x with point := .entry rest }
  | .head =>
      if s.bestLNodes.hasUnexpandedNode then issue ix c s else .ok { s with point := .drain }
  | .scoreLocal [] =>
      if s.relax > 0 then .ok { s with relax := s.relax - 1, point := .head }
      else awaitFront ix false s
  | .scoreLocal (x :: rest) =>
      if x.1.first ≠ ix.gstore.sid then .ok { s with point := .scoreLocal rest }
      else .ok { score ix c s x with point := .scoreLocal rest }
  | .scoreRemote draining [] =>
      .ok { popFront s with point := if draining then .drain else .head }
  | .scoreRemote draining (x :: rest) =>
      if x.1.first = ix.gstore.sid then .ok { s with point := .scoreRemote draining rest }
      else .ok { score ix c s x with point := .scoreRemote draining rest }
  | .drain =>
      if s.queueItemBatch.isEmpty then .ok { s with point := .finished }
      else awaitFront ix true s
  | .finished => .ok s

omit [LinearOrder δ] [Inhabited δ] in
/-- The hardware makes progress. -/
def tick (s : DistState δ) : DistState δ :=
  { s with ctx := { s.ctx with net := progress ix.gstore.hw s.ctx.net } }

/-- One step of the search, on hardware that makes progress of its own. -/
def step (s : DistState δ) : Except Stop (DistState δ) := advance ix c (tick ix s)

/-- The entry points: the one of the index and the adaptive ones. -/
def initIds : Except Stop (List Item) :=
  if c.adaptiveEpNum > 0 then
    (addAdaptiveEp ix.baseInBucket ix.baseToLid ix.learnProjectionInBase c.learnIndexRes
      c.adaptiveEpNum [ix.membktEP]).mapError .threw
  else .ok [ix.membktEP]

/-- Everything up to the loop over the entry points. -/
def start (ctx : ThdCtx) (scratch : InMemQueryScratch Item δ) (stats : Option QueryStats) :
    Except Stop (DistState δ) := do
  let ctx := resetThdCtx ctx
  let initIds ← initIds ix c
  if initIds.length < c.relax + 1 then .error .aborted
  else
    let (inserted, itemScratch) := visitAll ∅ initIds
    let (vertexScratch, ctx) ← ix.gstore.getVertexBatch ctx itemScratch false
    .ok
      { point := .entry (itemScratch.zip vertexScratch)
        bestLNodes := scratch.bestLNodes.clear
        insertedIntoPoolRs := inserted
        ctx := ctx
        queueItemBatch := []
        queueVertexBatch := []
        relax := c.relax
        stats := stats.map fun stats => stats.update ix.gstore.sid itemScratch
        evaluated := []
        expanded := []
        pruned := []
        pushed := []
        scored := [] }

/-- The steps from a state on, `n` at most. -/
def run (n : ℕ) (s : DistState δ) : Except Stop (DistState δ) :=
  whileLoopM (fun s => decide (s.point ≠ .finished)) (step ix c) n s

/-- `search_base_index_distributed` up to the output loop, cut off after `n` steps. -/
def searchBaseIndexDistributed (ctx : ThdCtx) (scratch : InMemQueryScratch Item δ)
    (stats : Option QueryStats) (n : ℕ) : Except Stop (DistState δ) :=
  start ix c ctx scratch stats >>= run ix c n

omit [LinearOrder δ] in
/-- The output loop: the labels that are written, and whether it stops in the middle. -/
def writeLabels (s : DistState δ) : ℕ → List VertexId × Option Stop
  | 0 => ([], none)
  | K + 1 =>
      match writeLabels s K with
      | (indices, some stop) => (indices, some stop)
      | (indices, none) =>
          match ix.gstore.getVertex s.ctx (s.bestLNodes.slot K).id with
          | .ok ptr => (indices ++ [ix.layout.label (ix.gstore.view s.ctx ptr)], none)
          | .error stop => (indices, some stop)

end Model

end Distributed

end RedAnns
