import Mathlib.Logic.Relation
import Mathlib.Tactic

/-!
How the queue pairs of a cluster are connected (`core/rdma.hpp`, `rdma_lib/rdmaio.hpp`).

The constructor of `RDMA_Device` starts a thread that answers the requests of other nodes, creates a
queue pair for every thread and every node, and then asks the other nodes for the attributes of
their queue pairs, round after round, until every one of its own is connected. Requests go over TCP;
any of them may get lost.

* `constructorStep`, `recvThreadStep`: the two programs of a node, one step at a time.
* `Step`, `Reachable`: any interleaving of them.
* `Inv`, `inv_of_reachable`: what holds in every state: a queue pair that is connected holds the
  attributes of one that its peer has created.
* `Inv.isUd_of_ready`: queue pairs with the ids of datagram queue pairs are never connected.
-/

namespace RedAnns

namespace Connect

/-! ### The source -/

def rcIdBase : ℕ := 0

def udIdBase : ℕ := 20000

/-- `num_rc_qps_`. -/
def numRcQps : ℕ := 100

/-- `_QP_ENCODE_ID`. -/
def qpEncodeId (mac index : ℕ) : ℕ := mac <<< 16 ||| index

/-- `_QP_DECODE_INDEX`. -/
def qpDecodeIndex (qid : ℕ) : ℕ := qid &&& 0xffff

/-- `IS_CONN`. -/
def isConn (qid : ℕ) : Bool := rcIdBase ≤ qpDecodeIndex qid ∧ qpDecodeIndex qid < udIdBase

/-- `IS_UD`. -/
def isUd (qid : ℕ) : Bool := udIdBase ≤ qpDecodeIndex qid

/-- The id of the queue pair of a thread with a node, which is the one of index 0. -/
def rcQid (tid nid : ℕ) : ℕ := qpEncodeId nid (rcIdBase + tid * numRcQps + 0)

/-- The memory that a node has registered. -/
structure MemoryRegion where
  buf : ℕ
  bufSize : ℕ
  rkey : ℕ

/-- `RdmaQpAttr`; the memory is only filled in for connected queue pairs. -/
structure RdmaQpAttr where
  region : Option MemoryRegion
  lid : ℕ
  qpn : ℕ
  gid : ℕ

/-- The device of a node: its port, its memory, and the numbers that it gives to queue pairs. -/
structure Device where
  region : MemoryRegion
  lid : ℕ
  gid : ℕ
  qpNum : ℕ → ℕ

/-- `get_local_qp_attr`. -/
def Device.getLocalQpAttr (d : Device) (qid : ℕ) : RdmaQpAttr where
  region := if isConn qid then some d.region else none
  lid := d.lid
  qpn := d.qpNum qid
  gid := d.gid

/-- `Qp`: the thread and the remote node that it is for, and what a connection sets. -/
structure Qp where
  tid : ℕ
  nid : ℕ
  inited : Bool
  remoteAttr : Option RdmaQpAttr

/-- A cluster; every node runs as many threads. The ids of the queue pairs and the number of the
connected ones are of type `int`. -/
structure Cluster where
  nnodes : ℕ
  nthds : ℕ
  device : Fin nnodes → Device
  nnodes_le : nnodes ≤ 2 ^ 15
  nthds_le : nthds ≤ 2 ^ 15

variable {c : Cluster}

/-- The two nested loops over threads and nodes. -/
def Cluster.pairs (c : Cluster) : List (ℕ × ℕ) :=
  (List.range c.nthds).flatMap fun j => (List.range c.nnodes).map fun i => (j, i)

/-- Where the constructor stands: before `start_server`, in the loop that creates queue pairs or in
the loop that connects them, with the pairs that are left, waiting for a reply to one of its
attempts, or at its end. -/
inductive Phase
  | starting
  | creating (rest : List (ℕ × ℕ))
  | connecting (connected : ℕ) (rest : List (ℕ × ℕ))
  | waiting (attempt connected : ℕ) (rest : List (ℕ × ℕ))
  | done

/-- `QPConnArg`, on the socket of an attempt of a node. -/
structure Request (c : Cluster) where
  client : Fin c.nnodes
  attempt : ℕ
  qid : ℕ

/-- What becomes of an attempt: a reply with its status, or the socket is closed without one. -/
inductive Reply
  | tcpSucc (attr : RdmaQpAttr)
  | tcpFail
  | closed

/-- A node: its constructor, its queue pairs, the requests that its thread has not accepted yet, how
many attempts it has made, and the replies to them. -/
structure Node (c : Cluster) where
  phase : Phase
  qps : ℕ → Option Qp
  backlog : List (Request c)
  attempts : ℕ
  replies : ℕ → Option Reply

/-- The cluster at a moment. -/
abbrev State (c : Cluster) : Type := Fin c.nnodes → Node c

/-- Nothing is started. -/
def State.init (c : Cluster) : State c := fun _ => ⟨.starting, fun _ => none, [], 0, fun _ => none⟩

namespace Node

variable (x : Node c)

def goTo (phase : Phase) : Node c := { x with phase }

def setQp (qid : ℕ) (qp : Qp) : Node c := { x with qps := Function.update x.qps qid (some qp) }

/-- A request arrives. -/
def enqueue (req : Request c) : Node c := { x with backlog := x.backlog ++ [req] }

def setBacklog (backlog : List (Request c)) : Node c := { x with backlog }

/-- A new socket. -/
def attempted : Node c := { x with attempts := x.attempts + 1 }

def setReply (attempt : ℕ) (reply : Reply) : Node c :=
  { x with replies := Function.update x.replies attempt (some reply) }

/-- `create_rc_qp`. -/
def createRcQp (tid remoteId : ℕ) : Node c :=
  if (x.qps (rcQid tid remoteId)).isSome then x
  else x.setQp (rcQid tid remoteId) ⟨tid, remoteId, false, none⟩

/-- Whether the thread that answers requests was started. -/
def listening : Bool :=
  match x.phase with
  | .starting => false
  | _ => true

end Node

/-- `connect_rc` succeeds: the state of the queue pair is changed. -/
def Qp.connected (qp : Qp) (attr : RdmaQpAttr) : Qp :=
  { qp with inited := true, remoteAttr := some attr }

namespace State

variable (s : State c)

def set (n : Fin c.nnodes) (x : Node c) : State c := Function.update s n x

/-- The first half of `connect_rc`: a socket is opened to the node of the queue pair, and the id of
its queue pair for this node is sent. -/
def sendRequest (n m : Fin c.nnodes) (qp : Qp) (connected : ℕ) (rest : List (ℕ × ℕ)) : State c :=
  let t := s.set n ((s n).attempted.goTo (.waiting (s n).attempts connected rest))
  t.set m ((t m).enqueue ⟨n, (s n).attempts, rcQid qp.tid n⟩)

end State

/-- The second half of `connect_rc` and the rest of the round: what the reply does to the node. -/
def receive (x : Node c) (qid : ℕ) (qp : Qp) (connected : ℕ) (rest : List (ℕ × ℕ)) :
    Reply → Node c
  | .tcpSucc attr => (x.setQp qid (qp.connected attr)).goTo (.connecting (connected + 1) rest)
  | .tcpFail => x.goTo (.connecting connected rest)
  | .closed => x.goTo (.connecting connected rest)

/-- One step of the constructor of `n`. A connection may fail, and then `net` is false; a node that
has not started its thread refuses it. -/
def constructorStep (n : Fin c.nnodes) (net : Bool) (s : State c) : Option (State c) :=
  let x := s n
  match x.phase with
  | .starting => some (s.set n (x.goTo (.creating c.pairs)))
  | .creating [] => some (s.set n (x.goTo (.connecting 0 c.pairs)))
  | .creating ((j, i) :: rest) => some (s.set n ((x.createRcQp j i).goTo (.creating rest)))
  | .connecting connected [] =>
      some (s.set n (x.goTo
        (if connected = c.nthds * c.nnodes then .done else .connecting 0 c.pairs)))
  | .connecting connected ((j, i) :: rest) =>
      (x.qps (rcQid j i)).bind fun qp =>
        if qp.inited then some (s.set n (x.goTo (.connecting (connected + 1) rest)))
        else if h : qp.nid < c.nnodes then
          if net && (s ⟨qp.nid, h⟩).listening then
            some (s.sendRequest n ⟨qp.nid, h⟩ qp connected ((j, i) :: rest))
          else some (s.set n (x.goTo (.connecting connected rest)))
        else none
  | .waiting _ _ [] => none
  | .waiting attempt connected ((j, i) :: rest) =>
      if net then
        (x.replies attempt).bind fun reply =>
          (x.qps (rcQid j i)).map fun qp =>
            s.set n (receive x (rcQid j i) qp connected rest reply)
      else some (s.set n (x.goTo (.connecting connected rest)))
  | .done => none

/-- The answer of `recv_thread` to a request for the queue pair `qid`. -/
def answer (d : Device) (qps : ℕ → Option Qp) (qid : ℕ) : Reply :=
  match qps qid with
  | none => .tcpFail
  | some qp =>
      if isUd qid then
        if qp.inited then .tcpSucc (d.getLocalQpAttr qid) else .tcpFail
      else .tcpSucc (d.getLocalQpAttr qid)

/-- One round of `recv_thread` on the node `m`. A request that does not arrive whole is dropped. -/
def recvThreadStep (m : Fin c.nnodes) (net : Bool) (s : State c) : Option (State c) :=
  match (s m).backlog with
  | [] => none
  | req :: backlog =>
      let t := s.set m ((s m).setBacklog backlog)
      let reply := if net then answer (c.device m) (s m).qps req.qid else .closed
      some (t.set req.client ((t req.client).setReply req.attempt reply))

/-- A step of any program of any node. -/
inductive Step (s s' : State c) : Prop
  | build (n : Fin c.nnodes) (net : Bool) : constructorStep n net s = some s' → Step s s'
  | serve (m : Fin c.nnodes) (net : Bool) : recvThreadStep m net s = some s' → Step s s'

/-- The states of all interleavings. -/
inductive Reachable (c : Cluster) : State c → Prop
  | init : Reachable c (State.init c)
  | step {s s' : State c} : Reachable c s → Step s s' → Reachable c s'

/-! ### What a step can do -/

/-- **What a step can do**: a step of the constructor (up to `receive`), or one of the other
thread. -/
inductive Moves (s : State c) : State c → Prop
  | start (n : Fin c.nnodes) (hphase : (s n).phase = .starting) :
      Moves s (s.set n ((s n).goTo (.creating c.pairs)))
  | create (n : Fin c.nnodes) (j i : ℕ) (rest : List (ℕ × ℕ))
      (hphase : (s n).phase = .creating ((j, i) :: rest)) :
      Moves s (s.set n (((s n).createRcQp j i).goTo (.creating rest)))
  | created (n : Fin c.nnodes) (hphase : (s n).phase = .creating []) :
      Moves s (s.set n ((s n).goTo (.connecting 0 c.pairs)))
  | again (n : Fin c.nnodes) (connected : ℕ) (hphase : (s n).phase = .connecting connected [])
      (hne : connected ≠ c.nthds * c.nnodes) :
      Moves s (s.set n ((s n).goTo (.connecting 0 c.pairs)))
  | finish (n : Fin c.nnodes) (connected : ℕ) (hphase : (s n).phase = .connecting connected [])
      (heq : connected = c.nthds * c.nnodes) : Moves s (s.set n ((s n).goTo .done))
  | skip (n : Fin c.nnodes) (connected j i : ℕ) (rest : List (ℕ × ℕ)) (qp : Qp)
      (hphase : (s n).phase = .connecting connected ((j, i) :: rest))
      (hqp : (s n).qps (rcQid j i) = some qp) (hinited : qp.inited = true) :
      Moves s (s.set n ((s n).goTo (.connecting (connected + 1) rest)))
  | send (n m : Fin c.nnodes) (connected j i : ℕ) (rest : List (ℕ × ℕ)) (qp : Qp)
      (hphase : (s n).phase = .connecting connected ((j, i) :: rest))
      (hqp : (s n).qps (rcQid j i) = some qp) (hnid : qp.nid = m) :
      Moves s (s.sendRequest n m qp connected ((j, i) :: rest))
  | fail (n : Fin c.nnodes) (connected j i : ℕ) (rest : List (ℕ × ℕ))
      (hphase : (s n).phase = .connecting connected ((j, i) :: rest) ∨
        ∃ attempt, (s n).phase = .waiting attempt connected ((j, i) :: rest)) :
      Moves s (s.set n ((s n).goTo (.connecting connected rest)))
  | receive (n : Fin c.nnodes) (attempt connected j i : ℕ) (rest : List (ℕ × ℕ)) (qp : Qp)
      (attr : RdmaQpAttr) (hphase : (s n).phase = .waiting attempt connected ((j, i) :: rest))
      (hqp : (s n).qps (rcQid j i) = some qp)
      (hreply : (s n).replies attempt = some (.tcpSucc attr)) :
      Moves s (s.set n (((s n).setQp (rcQid j i) (qp.connected attr)).goTo
        (.connecting (connected + 1) rest)))
  | serve (m : Fin c.nnodes) (req : Request c) (backlog : List (Request c)) (reply : Reply)
      (hbacklog : (s m).backlog = req :: backlog)
      (hreply : reply = .closed ∨ reply = answer (c.device m) (s m).qps req.qid) :
      Moves s ((s.set m ((s m).setBacklog backlog)).set req.client
        (((s.set m ((s m).setBacklog backlog)) req.client).setReply req.attempt reply))

variable {s s' : State c}

lemma moves_of_constructorStep {n : Fin c.nnodes} {net : Bool}
    (h : constructorStep n net s = some s') : Moves s s' := by
  rw [constructorStep] at h
  cases hphase : (s n).phase with
  | starting =>
      simp only [hphase, Option.some.injEq] at h
      exact h ▸ .start n hphase
  | creating rest =>
      cases rest with
      | nil =>
          simp only [hphase, Option.some.injEq] at h
          exact h ▸ .created n hphase
      | cons p rest =>
          simp only [hphase, Option.some.injEq] at h
          exact h ▸ .create n p.1 p.2 rest hphase
  | connecting connected rest =>
      cases rest with
      | nil =>
          simp only [hphase, Option.some.injEq] at h
          subst h
          by_cases heq : connected = c.nthds * c.nnodes
          · rw [if_pos heq]
            exact .finish n connected hphase heq
          · rw [if_neg heq]
            exact .again n connected hphase heq
      | cons p rest =>
          simp only [hphase] at h
          obtain ⟨qp, hqp, h⟩ := Option.bind_eq_some_iff.mp h
          split_ifs at h with hinited hnid hnet
          · exact Option.some.inj h ▸ .skip n connected p.1 p.2 rest qp hphase hqp hinited
          · exact Option.some.inj h ▸ .send n ⟨qp.nid, hnid⟩ connected p.1 p.2 rest qp
              hphase hqp rfl
          · exact Option.some.inj h ▸ .fail n connected p.1 p.2 rest (Or.inl hphase)
  | waiting attempt connected rest =>
      cases rest with
      | nil => simp [hphase] at h
      | cons p rest =>
          have hfail := Moves.fail n connected p.1 p.2 rest (Or.inr ⟨attempt, hphase⟩)
          simp only [hphase] at h
          split_ifs at h with hnet
          · obtain ⟨reply, hreply, h⟩ := Option.bind_eq_some_iff.mp h
            obtain ⟨qp, hqp, h⟩ := Option.map_eq_some_iff.mp h
            subst h
            cases reply with
            | tcpSucc attr =>
                exact .receive n attempt connected p.1 p.2 rest qp attr hphase hqp hreply
            | tcpFail => exact hfail
            | closed => exact hfail
          · exact Option.some.inj h ▸ hfail
  | done => simp [hphase] at h

lemma moves_of_recvThreadStep {m : Fin c.nnodes} {net : Bool}
    (h : recvThreadStep m net s = some s') : Moves s s' := by
  rw [recvThreadStep] at h
  cases hbacklog : (s m).backlog with
  | nil => simp [hbacklog] at h
  | cons req backlog =>
      simp only [hbacklog, Option.some.injEq] at h
      subst h
      refine .serve m req backlog _ hbacklog ?_
      cases net with
      | false => exact Or.inl rfl
      | true => exact Or.inr rfl

lemma moves_of_step (h : Step s s') : Moves s s' := by
  cases h with
  | build n net h => exact moves_of_constructorStep h
  | serve m net h => exact moves_of_recvThreadStep h

/-! ### The ids of queue pairs -/

lemma qpDecodeIndex_rcQid (tid nid : ℕ) : qpDecodeIndex (rcQid tid nid)
    = tid * numRcQps % 2 ^ 16 := by
  rw [qpDecodeIndex, show (0xffff : ℕ) = 2 ^ 16 - 1 from rfl, Nat.and_two_pow_sub_one_eq_mod, rcQid,
    qpEncodeId, Nat.or_mod_two_pow, Nat.shiftLeft_eq, Nat.mul_mod_left, Nat.zero_or, rcIdBase,
    Nat.zero_add, Nat.add_zero]

/-- The number of threads whose queue pairs have ids of connected queue pairs. -/
def maxThreads : ℕ := udIdBase / numRcQps

lemma isUd_rcQid (tid nid : ℕ) :
    isUd (rcQid tid nid) = decide (udIdBase ≤ tid * numRcQps % 2 ^ 16) := by
  rw [isUd, qpDecodeIndex_rcQid]

lemma rcQid_inj {tid tid' nid nid' : ℕ} (htid : tid < maxThreads) (htid' : tid' < maxThreads)
    (h : rcQid tid nid = rcQid tid' nid') : tid = tid' ∧ nid = nid' := by
  have hlt : ∀ t < maxThreads, rcIdBase + t * numRcQps + 0 < 2 ^ 16 := fun t ht => by
    rw [maxThreads, udIdBase, numRcQps] at ht
    rw [rcIdBase, numRcQps]
    omega
  have hsum : ∀ t < maxThreads, ∀ i, rcQid t i = 2 ^ 16 * i + t * numRcQps := fun t ht i => by
    rw [rcQid, qpEncodeId, ← Nat.shiftLeft_add_eq_or_of_lt (hlt t ht), Nat.shiftLeft_eq,
      Nat.mul_comm, rcIdBase, Nat.zero_add, Nat.add_zero]
  have hlt₁ := hlt tid htid
  have hlt₂ := hlt tid' htid'
  rw [hsum tid htid, hsum tid' htid'] at h
  rw [rcIdBase, numRcQps] at hlt₁ hlt₂
  rw [numRcQps] at h
  omega

/-! ### The invariant -/

/-- Every queue pair of a node was created. -/
def AllCreated (c : Cluster) (qps : ℕ → Option Qp) : Prop :=
  ∀ p ∈ c.pairs, (qps (rcQid p.1 p.2)).isSome = true

/-- A queue pair of a node is connected. -/
def Ready (qps : ℕ → Option Qp) (p : ℕ × ℕ) : Prop :=
  ∃ qp, qps (rcQid p.1 p.2) = some qp ∧ qp.inited = true

/-- A round that has only counted connected queue pairs has met no other. -/
structure Counts (c : Cluster) (qps : ℕ → Option Qp) (connected : ℕ) (rest : List (ℕ × ℕ)) :
    Prop where
  subset : rest ⊆ c.pairs
  le : connected + rest.length ≤ c.pairs.length
  ready : connected + rest.length = c.pairs.length → ∀ p ∈ c.pairs, p ∈ rest ∨ Ready qps p

/-- What the constructor of a node has achieved. -/
def Node.Progress (x : Node c) : Prop :=
  match x.phase with
  | .starting => True
  | .creating rest =>
      rest ⊆ c.pairs ∧ ∀ p ∈ c.pairs, p ∈ rest ∨ (x.qps (rcQid p.1 p.2)).isSome = true
  | .connecting connected rest => AllCreated c x.qps ∧ Counts c x.qps connected rest
  | .waiting attempt connected rest =>
      AllCreated c x.qps ∧ Counts c x.qps connected rest ∧ attempt < x.attempts ∧ rest ≠ []
  | .done => AllCreated c x.qps ∧ ∀ p ∈ c.pairs, Ready x.qps p

/-- The queue pair that an attempt of a node is for. -/
def Node.WaitsFor (x : Node c) (attempt : ℕ) (qp : Qp) : Prop :=
  ∃ connected j i rest, x.phase = .waiting attempt connected ((j, i) :: rest) ∧
    x.qps (rcQid j i) = some qp

/-- The attributes are those of the peer of a queue pair of the node `n`, which has been created. -/
def Known (s : State c) (n : Fin c.nnodes) (qp : Qp) (attr : RdmaQpAttr) : Prop :=
  ∃ m : Fin c.nnodes, qp.nid = m ∧ isUd (rcQid qp.tid n) = false ∧
    attr = (c.device m).getLocalQpAttr (rcQid qp.tid n) ∧
    ((s m).qps (rcQid qp.tid n)).isSome = true

/-- A request at the node `m` is for the queue pair that its sender waits for. -/
def FitsRequest (s : State c) (m : Fin c.nnodes) (req : Request c) : Prop :=
  req.attempt < (s req.client).attempts ∧
    ∀ qp, (s req.client).WaitsFor req.attempt qp → qp.nid = m ∧ req.qid = rcQid qp.tid req.client

/-- A reply to the node `n` is from the peer of the queue pair that it waits for. -/
def FitsReply (s : State c) (n : Fin c.nnodes) (attempt : ℕ) (reply : Reply) : Prop :=
  attempt < (s n).attempts ∧
    ∀ attr qp, reply = .tcpSucc attr → (s n).WaitsFor attempt qp → Known s n qp attr

/-- **The invariant.** -/
structure Inv (s : State c) : Prop where
  created : ∀ n qid qp, (s n).qps qid = some qp →
    (qp.tid, qp.nid) ∈ c.pairs ∧ qid = rcQid qp.tid qp.nid
  connected : ∀ n qid qp, (s n).qps qid = some qp → qp.inited = true →
    ∃ attr, qp.remoteAttr = some attr ∧ Known s n qp attr
  backlog : ∀ m, ∀ req ∈ (s m).backlog, FitsRequest s m req
  replies : ∀ n attempt reply, (s n).replies attempt = some reply → FitsReply s n attempt reply
  progress : ∀ n, (s n).Progress

lemma mem_pairs {p : ℕ × ℕ} : p ∈ c.pairs ↔ p.1 < c.nthds ∧ p.2 < c.nnodes := by
  obtain ⟨j, i⟩ := p
  simp only [Cluster.pairs, List.mem_flatMap, List.mem_map, List.mem_range, Prod.mk.injEq]
  constructor
  · rintro ⟨j', hj, i', hi, rfl, rfl⟩
    exact ⟨hj, hi⟩
  · exact fun ⟨hj, hi⟩ => ⟨j, hj, i, hi, rfl, rfl⟩

lemma length_pairs : c.pairs.length = c.nthds * c.nnodes := by
  simp [Cluster.pairs]

@[simp] lemma set_self (n : Fin c.nnodes) (x : Node c) : s.set n x n = x :=
  Function.update_self ..

lemma set_of_ne {n m : Fin c.nnodes} (h : m ≠ n) (x : Node c) : s.set n x m = s m :=
  Function.update_of_ne h ..

lemma qps_setQp (x : Node c) (qid qid' : ℕ) (qp : Qp) :
    (x.setQp qid qp).qps qid' = if qid' = qid then some qp else x.qps qid' :=
  Function.update_apply ..

/-- The queue pairs of the nodes stay. -/
def Grows (s s' : State c) : Prop :=
  ∀ n qid, ((s n).qps qid).isSome = true → ((s' n).qps qid).isSome = true

lemma Known.mono {n : Fin c.nnodes} {qp : Qp} {attr : RdmaQpAttr} (h : Known s n qp attr)
    (hgrows : Grows s s') : Known s' n qp attr := by
  obtain ⟨m, hnid, hud, hattr, hsome⟩ := h
  exact ⟨m, hnid, hud, hattr, hgrows m _ hsome⟩

lemma grows_set {n : Fin c.nnodes} {x : Node c}
    (h : ∀ qid, ((s n).qps qid).isSome = true → (x.qps qid).isSome = true) :
    Grows s (s.set n x) := by
  intro m qid hsome
  by_cases hm : m = n
  · subst hm
    rw [set_self]
    exact h qid hsome
  · rwa [set_of_ne hm]

/-- **A change of one node keeps the invariant** if its queue pairs stay and new connections are
known, if it does not go back to an earlier attempt, and if its new requests and replies are
right. -/
lemma Inv.set (h : Inv s) {n : Fin c.nnodes} {x : Node c}
    (hgrows : ∀ qid, ((s n).qps qid).isSome = true → (x.qps qid).isSome = true)
    (hcreated : ∀ qid qp, x.qps qid = some qp →
      (qp.tid, qp.nid) ∈ c.pairs ∧ qid = rcQid qp.tid qp.nid)
    (hconnected : ∀ qid qp, x.qps qid = some qp → qp.inited = true →
      ∃ attr, qp.remoteAttr = some attr ∧ Known s n qp attr)
    (hwaits : ∀ attempt qp, x.WaitsFor attempt qp →
      (s n).WaitsFor attempt qp ∨ (s n).attempts ≤ attempt)
    (hattempts : (s n).attempts ≤ x.attempts)
    (hbacklog : ∀ req ∈ x.backlog, req ∈ (s n).backlog ∨ FitsRequest s n req)
    (hreplies : ∀ attempt reply, x.replies attempt = some reply →
      (s n).replies attempt = some reply ∨ FitsReply s n attempt reply)
    (hprogress : x.Progress) : Inv (s.set n x) := by
  have hknown := grows_set hgrows
  have hwaits' : ∀ m attempt qp, attempt < (s m).attempts → (s.set n x m).WaitsFor attempt qp →
      (s m).WaitsFor attempt qp := by
    intro m attempt qp hlt hw
    by_cases hm : m = n
    · subst hm
      rw [set_self] at hw
      exact (hwaits attempt qp hw).resolve_right (Nat.not_le_of_lt hlt)
    · rwa [set_of_ne hm] at hw
  have hattempts' : ∀ m, (s m).attempts ≤ (s.set n x m).attempts := by
    intro m
    by_cases hm : m = n
    · subst hm
      rwa [set_self]
    · rw [set_of_ne hm]
  refine ⟨fun m qid qp hqp => ?_, fun m qid qp hqp hinited => ?_, fun m req hreq => ?_,
    fun m attempt reply hreply => ?_, fun m => ?_⟩
  · by_cases hm : m = n
    · subst hm
      rw [set_self] at hqp
      exact hcreated qid qp hqp
    · rw [set_of_ne hm] at hqp
      exact h.created m qid qp hqp
  · obtain ⟨attr, hattr, hk⟩ : ∃ attr, qp.remoteAttr = some attr ∧ Known s m qp attr := by
      by_cases hm : m = n
      · subst hm
        rw [set_self] at hqp
        exact hconnected qid qp hqp hinited
      · rw [set_of_ne hm] at hqp
        exact h.connected m qid qp hqp hinited
    exact ⟨attr, hattr, hk.mono hknown⟩
  · obtain ⟨hlt, hreq'⟩ : FitsRequest s m req := by
      by_cases hm : m = n
      · subst hm
        rw [set_self] at hreq
        exact (hbacklog req hreq).elim (h.backlog m req) id
      · rw [set_of_ne hm] at hreq
        exact h.backlog m req hreq
    exact ⟨hlt.trans_le (hattempts' _), fun qp hw => hreq' qp (hwaits' _ _ _ hlt hw)⟩
  · obtain ⟨hlt, hreply'⟩ : FitsReply s m attempt reply := by
      by_cases hm : m = n
      · subst hm
        rw [set_self] at hreply
        exact (hreplies attempt reply hreply).elim (h.replies m attempt reply) id
      · rw [set_of_ne hm] at hreply
        exact h.replies m attempt reply hreply
    exact ⟨hlt.trans_le (hattempts' _), fun attr qp hsucc hw =>
      (hreply' attr qp hsucc (hwaits' _ _ _ hlt hw)).mono hknown⟩
  · by_cases hm : m = n
    · subst hm
      rwa [set_self]
    · rw [set_of_ne hm]
      exact h.progress m

lemma not_waitsFor {x : Node c} {attempt : ℕ} {qp : Qp}
    (hphase : ∀ attempt connected rest, x.phase ≠ .waiting attempt connected rest) :
    ¬ x.WaitsFor attempt qp := fun ⟨_, _, _, _, hw, _⟩ => hphase _ _ _ hw

/-- A change of the phase only. -/
lemma Inv.goTo (h : Inv s) {n : Fin c.nnodes} {phase : Phase}
    (hphase : ∀ attempt connected rest, phase ≠ .waiting attempt connected rest)
    (hprogress : ((s n).goTo phase).Progress) : Inv (s.set n ((s n).goTo phase)) :=
  h.set (fun _ => id) (h.created n) (h.connected n)
    (fun _ _ hw => absurd hw (not_waitsFor hphase)) le_rfl (fun _ => Or.inl)
    (fun _ _ => Or.inl) hprogress

/-- A queue pair is created. -/
lemma Inv.create (h : Inv s) {n : Fin c.nnodes} {j i : ℕ} {rest : List (ℕ × ℕ)}
    (hphase : (s n).phase = .creating ((j, i) :: rest)) :
    Inv (s.set n (((s n).createRcQp j i).goTo (.creating rest))) := by
  obtain ⟨hsub, hcreated⟩ : (j, i) :: rest ⊆ c.pairs ∧
      ∀ p ∈ c.pairs, p ∈ (j, i) :: rest ∨ ((s n).qps (rcQid p.1 p.2)).isSome = true := by
    have hprogress := h.progress n
    rwa [Node.Progress, hphase] at hprogress
  have hqps : ∀ qid, ((s n).createRcQp j i).qps qid = (s n).qps qid ∨
      qid = rcQid j i ∧ ((s n).createRcQp j i).qps qid = some ⟨j, i, false, none⟩ := fun qid => by
    rw [Node.createRcQp]
    split_ifs with hsome
    · exact Or.inl rfl
    · rw [qps_setQp]
      split_ifs with hqid
      · exact Or.inr ⟨hqid, rfl⟩
      · exact Or.inl rfl
  have hgrows : ∀ qid, ((s n).qps qid).isSome = true →
      (((s n).createRcQp j i).qps qid).isSome = true := fun qid hsome => by
    rcases hqps qid with heq | ⟨-, heq⟩
    · rwa [heq]
    · rw [heq]
      rfl
  have hnew : (((s n).createRcQp j i).qps (rcQid j i)).isSome = true := by
    rw [Node.createRcQp]
    split_ifs with hsome
    · exact hsome
    · rw [qps_setQp, if_pos rfl]
      rfl
  have hrest : ((s n).createRcQp j i).backlog = (s n).backlog ∧
      ((s n).createRcQp j i).replies = (s n).replies ∧
      ((s n).createRcQp j i).attempts = (s n).attempts := by
    rw [Node.createRcQp]
    split_ifs <;> exact ⟨rfl, rfl, rfl⟩
  refine h.set hgrows (fun qid qp hqp => ?_) (fun qid qp hqp hinited => ?_)
    (fun _ _ hw => absurd hw (not_waitsFor (by simp [Node.goTo]))) hrest.2.2.ge
    (fun req hreq => Or.inl (hrest.1 ▸ hreq)) (fun _ _ hreply => Or.inl (hrest.2.1 ▸ hreply))
    ⟨fun p hp => hsub (List.mem_cons_of_mem _ hp), fun p hp => ?_⟩
  · rcases hqps qid with heq | ⟨hqid, heq⟩
    · exact h.created n qid qp (heq ▸ hqp)
    · obtain rfl : (⟨j, i, false, none⟩ : Qp) = qp := Option.some.inj (heq ▸ hqp)
      exact ⟨hsub List.mem_cons_self, hqid⟩
  · rcases hqps qid with heq | ⟨-, heq⟩
    · exact h.connected n qid qp (heq ▸ hqp) hinited
    · obtain rfl : (⟨j, i, false, none⟩ : Qp) = qp := Option.some.inj (heq ▸ hqp)
      exact absurd hinited Bool.false_ne_true
  · rcases hcreated p hp with hmem | hsome
    · rcases List.mem_cons.mp hmem with rfl | hmem
      · exact Or.inr hnew
      · exact Or.inl hmem
    · exact Or.inr (hgrows _ hsome)

section Counts

variable {qps : ℕ → Option Qp} {connected : ℕ} {p : ℕ × ℕ} {rest : List (ℕ × ℕ)}

/-- A pair is passed over. -/
lemma Counts.tail (h : Counts c qps connected (p :: rest)) : Counts c qps connected rest := by
  have hle := h.le
  rw [List.length_cons] at hle
  exact ⟨fun q hq => h.subset (List.mem_cons_of_mem _ hq), by omega, fun heq => by omega⟩

/-- A connected pair is counted. -/
lemma Counts.count (h : Counts c qps connected (p :: rest)) (hp : Ready qps p) :
    Counts c qps (connected + 1) rest := by
  have hle := h.le
  have hready := h.ready
  rw [List.length_cons] at hle hready
  refine ⟨fun q hq => h.subset (List.mem_cons_of_mem _ hq), by omega, fun heq q hq => ?_⟩
  rcases hready (by omega) q hq with hmem | hq
  · rcases List.mem_cons.mp hmem with rfl | hmem
    · exact Or.inr hp
    · exact Or.inl hmem
  · exact Or.inr hq

lemma counts_pairs (qps : ℕ → Option Qp) : Counts c qps 0 c.pairs :=
  ⟨List.Subset.refl _, by omega, fun _ p hp => Or.inl hp⟩

end Counts

/-- What the constructor has achieved while it connects. -/
lemma Inv.counts (h : Inv s) {n : Fin c.nnodes} {connected : ℕ} {rest : List (ℕ × ℕ)}
    (hphase : (s n).phase = .connecting connected rest ∨
      ∃ attempt, (s n).phase = .waiting attempt connected rest) :
    AllCreated c (s n).qps ∧ Counts c (s n).qps connected rest := by
  have hprogress := h.progress n
  rcases hphase with hphase | ⟨attempt, hphase⟩
  · rwa [Node.Progress, hphase] at hprogress
  · rw [Node.Progress, hphase] at hprogress
    exact ⟨hprogress.1, hprogress.2.1⟩

/-- A request is sent. -/
lemma Inv.send (h : Inv s) {n m : Fin c.nnodes} {connected j i : ℕ} {rest : List (ℕ × ℕ)} {qp : Qp}
    (hphase : (s n).phase = .connecting connected ((j, i) :: rest))
    (hqp : (s n).qps (rcQid j i) = some qp) (hnid : qp.nid = m) :
    Inv (s.sendRequest n m qp connected ((j, i) :: rest)) := by
  obtain ⟨hall, hcounts⟩ := h.counts (Or.inl hphase)
  set t := s.set n ((s n).attempted.goTo (.waiting (s n).attempts connected ((j, i) :: rest)))
    with ht
  have hself : t n = (s n).attempted.goTo (.waiting (s n).attempts connected ((j, i) :: rest)) :=
    set_self n _
  have hwaiting : Inv t := by
    refine h.set (fun _ => id) (h.created n) (h.connected n) (fun attempt qp' hw => ?_)
      (Nat.le_succ _) (fun _ => Or.inl) (fun _ _ => Or.inl)
      ⟨hall, hcounts, Nat.lt_succ_self _, List.cons_ne_nil _ _⟩
    obtain ⟨_, _, _, _, hw, -⟩ := hw
    have heq : (s n).attempts = attempt := by
      injection hw
    exact Or.inr heq.le
  have hfits : FitsRequest t m ⟨n, (s n).attempts, rcQid qp.tid n⟩ := by
    refine ⟨hself ▸ Nat.lt_succ_self (s n).attempts, fun qp' hw => ?_⟩
    obtain ⟨_, j', i', _, hw, hqp'⟩ := hself ▸ hw
    obtain ⟨rfl, rfl⟩ : j = j' ∧ i = i' := by
      injection hw with _ _ heq
      injection heq with heq
      exact Prod.mk.inj heq
    obtain rfl : qp = qp' := Option.some.inj (hqp.symm.trans hqp')
    exact ⟨hnid, rfl⟩
  refine hwaiting.set (fun _ => id) (hwaiting.created m) (hwaiting.connected m)
    (fun _ _ hw => Or.inl hw) le_rfl (fun req hreq => ?_) (fun _ _ => Or.inl) (hwaiting.progress m)
  rcases List.mem_append.mp hreq with hreq | hreq
  · exact Or.inl hreq
  · exact Or.inr (List.mem_singleton.mp hreq ▸ hfits)

/-- A reply is received. -/
lemma Inv.receive (h : Inv s) {n : Fin c.nnodes} {attempt connected j i : ℕ}
    {rest : List (ℕ × ℕ)} {qp : Qp} {attr : RdmaQpAttr}
    (hphase : (s n).phase = .waiting attempt connected ((j, i) :: rest))
    (hqp : (s n).qps (rcQid j i) = some qp)
    (hreply : (s n).replies attempt = some (.tcpSucc attr)) :
    Inv (s.set n (((s n).setQp (rcQid j i) (qp.connected attr)).goTo
      (.connecting (connected + 1) rest))) := by
  obtain ⟨hall, hcounts⟩ := h.counts (Or.inr ⟨attempt, hphase⟩)
  have hknown : Known s n qp attr :=
    (h.replies n attempt _ hreply).2 attr qp rfl ⟨_, _, _, _, hphase, hqp⟩
  have hqps := qps_setQp (s n) (rcQid j i)
  have hready : ∀ p, Ready (s n).qps p → Ready
      ((s n).setQp (rcQid j i) (qp.connected attr)).qps p := by
    rintro p ⟨qp', hqp', hinited⟩
    rw [Ready, hqps]
    split_ifs
    · exact ⟨_, rfl, rfl⟩
    · exact ⟨qp', hqp', hinited⟩
  have hgrows : ∀ qid, ((s n).qps qid).isSome = true →
      (((s n).setQp (rcQid j i) (qp.connected attr)).qps qid).isSome = true := by
    intro qid hsome
    rw [hqps]
    split_ifs
    · rfl
    · exact hsome
  have hcounts' : Counts c ((s n).setQp (rcQid j i) (qp.connected attr)).qps connected
      ((j, i) :: rest) :=
    ⟨hcounts.subset, hcounts.le, fun heq p hp => (hcounts.ready heq p hp).imp_right (hready p)⟩
  have hnew : Ready ((s n).setQp (rcQid j i) (qp.connected attr)).qps (j, i) :=
    ⟨qp.connected attr, by rw [hqps, if_pos rfl], rfl⟩
  have hall' : AllCreated c ((s n).setQp (rcQid j i) (qp.connected attr)).qps :=
    fun p hp => hgrows _ (hall p hp)
  refine h.set hgrows (fun qid qp' hqp' => ?_) (fun qid qp' hqp' hinited => ?_)
    (fun _ _ hw => absurd hw (not_waitsFor (by simp [Node.goTo]))) le_rfl (fun _ => Or.inl)
    (fun _ _ => Or.inl) ⟨hall', hcounts'.count hnew⟩
  · change ((s n).setQp (rcQid j i) (qp.connected attr)).qps qid = some qp' at hqp'
    rw [hqps] at hqp'
    split_ifs at hqp' with hqid
    · rw [← Option.some.inj hqp', hqid]
      exact h.created n _ qp hqp
    · exact h.created n qid qp' hqp'
  · change ((s n).setQp (rcQid j i) (qp.connected attr)).qps qid = some qp' at hqp'
    rw [hqps] at hqp'
    split_ifs at hqp' with hqid
    · rw [← Option.some.inj hqp']
      exact ⟨attr, rfl, hknown⟩
    · exact h.connected n qid qp' hqp' hinited

/-- The thread answers with what it knows of the queue pair. -/
lemma Inv.known_of_answer (h : Inv s) {m : Fin c.nnodes} {req : Request c}
    (hreq : FitsRequest s m req) {attr : RdmaQpAttr} {qp : Qp}
    (hreply : answer (c.device m) (s m).qps req.qid = .tcpSucc attr)
    (hw : (s req.client).WaitsFor req.attempt qp) : Known s req.client qp attr := by
  obtain ⟨hnid, hqid⟩ := hreq.2 qp hw
  rw [answer] at hreply
  cases hqp : (s m).qps req.qid with
  | none => simp [hqp] at hreply
  | some qp' =>
      rw [hqp] at hreply
      dsimp only at hreply
      -- a connected queue pair at the peer cannot have an id of a datagram queue pair
      have hud : isUd req.qid = false := by
        by_contra hud
        rw [Bool.not_eq_false] at hud
        rw [if_pos hud] at hreply
        split_ifs at hreply with hinited
        obtain ⟨-, -, -, -, hud', -⟩ := h.connected m req.qid qp' hqp hinited
        have hid := (h.created m req.qid qp' hqp).2
        rw [isUd_rcQid] at hud'
        rw [hid, isUd_rcQid, hud'] at hud
        exact Bool.false_ne_true hud
      rw [hud, if_neg Bool.false_ne_true] at hreply
      refine ⟨m, hnid, hqid ▸ hud, ?_, by rw [← hqid, hqp]; rfl⟩
      rw [← hqid]
      injection hreply with hreply
      exact hreply.symm

/-- A request is answered. -/
lemma Inv.serve (h : Inv s) {m : Fin c.nnodes} {req : Request c} {backlog : List (Request c)}
    {reply : Reply} (hbacklog : (s m).backlog = req :: backlog)
    (hreply : reply = .closed ∨ reply = answer (c.device m) (s m).qps req.qid) :
    Inv ((s.set m ((s m).setBacklog backlog)).set req.client
      (((s.set m ((s m).setBacklog backlog)) req.client).setReply req.attempt reply)) := by
  have hreq : FitsRequest s m req := h.backlog m req (hbacklog ▸ List.mem_cons_self)
  set t := s.set m ((s m).setBacklog backlog) with ht
  have hinv : Inv t :=
    h.set (fun _ => id) (h.created m) (h.connected m) (fun _ _ => Or.inl) le_rfl
      (fun r hr => Or.inl (hbacklog ▸ List.mem_cons_of_mem _ hr)) (fun _ _ => Or.inl) (h.progress m)
  have hfields : ∀ k, (t k).phase = (s k).phase ∧ (t k).qps = (s k).qps ∧
      (t k).attempts = (s k).attempts := fun k => by
    by_cases hk : k = m
    · subst hk
      rw [ht, set_self]
      exact ⟨rfl, rfl, rfl⟩
    · rw [ht, set_of_ne hk]
      exact ⟨rfl, rfl, rfl⟩
  have hwaits : ∀ attempt qp, (t req.client).WaitsFor attempt qp →
      (s req.client).WaitsFor attempt qp := fun attempt qp hw => by
    obtain ⟨hphase, hqps, -⟩ := hfields req.client
    rwa [Node.WaitsFor, hphase, hqps] at hw
  have hgrows : Grows s t := fun k qid hsome => by rwa [(hfields k).2.1]
  refine hinv.set (fun _ => id) (hinv.created _) (hinv.connected _) (fun _ _ => Or.inl) le_rfl
    (fun _ => Or.inl) (fun attempt reply' hreply' => ?_) (hinv.progress _)
  change Function.update _ _ _ _ = _ at hreply'
  rw [Function.update_apply] at hreply'
  split_ifs at hreply' with hattempt
  · right
    obtain rfl := Option.some.inj hreply'
    subst hattempt
    refine ⟨(hfields req.client).2.2 ▸ hreq.1, fun attr qp hsucc hw => ?_⟩
    rcases hreply with hclosed | hanswer
    · exact Reply.noConfusion (hclosed.symm.trans hsucc)
    · exact (h.known_of_answer hreq (hanswer ▸ hsucc) (hwaits _ _ hw)).mono hgrows
  · exact Or.inl hreply'

/-- **Every step keeps the invariant.** -/
theorem Inv.step (h : Inv s) (hstep : Step s s') : Inv s' := by
  cases moves_of_step hstep with
  | start n hphase =>
      exact h.goTo (by simp) ⟨List.Subset.refl _, fun _ => Or.inl⟩
  | create n j i rest hphase => exact h.create hphase
  | created n hphase =>
      refine h.goTo (by simp) ⟨fun p hp => ?_, counts_pairs _⟩
      have hprogress := h.progress n
      rw [Node.Progress, hphase] at hprogress
      exact (hprogress.2 p hp).resolve_left List.not_mem_nil
  | again n connected hphase hne =>
      exact h.goTo (by simp)
        ⟨(h.counts (Or.inl hphase)).1, counts_pairs _⟩
  | finish n connected hphase heq =>
      obtain ⟨hall, hcounts⟩ := h.counts (Or.inl hphase)
      refine h.goTo (by simp) ⟨hall, fun p hp => ?_⟩
      exact (hcounts.ready (by rw [heq, length_pairs]; rfl) p hp).resolve_left List.not_mem_nil
  | skip n connected j i rest qp hphase hqp hinited =>
      obtain ⟨hall, hcounts⟩ := h.counts (Or.inl hphase)
      exact h.goTo (by simp) ⟨hall, hcounts.count ⟨qp, hqp, hinited⟩⟩
  | send n m connected j i rest qp hphase hqp hnid => exact h.send hphase hqp hnid
  | fail n connected j i rest hphase =>
      obtain ⟨hall, hcounts⟩ := h.counts hphase
      exact h.goTo (by simp) ⟨hall, hcounts.tail⟩
  | receive n attempt connected j i rest qp attr hphase hqp hreply =>
      exact h.receive hphase hqp hreply
  | serve m req backlog reply hbacklog hreply => exact h.serve hbacklog hreply

lemma inv_init : Inv (State.init c) :=
  ⟨fun _ _ _ hqp => absurd hqp (Option.some_ne_none _).symm,
    fun _ _ _ hqp => absurd hqp (Option.some_ne_none _).symm,
    fun _ _ hreq => absurd hreq List.not_mem_nil,
    fun _ _ _ hreply => absurd hreply (Option.some_ne_none _).symm, fun _ => trivial⟩

theorem inv_of_reachable (h : Reachable c s) : Inv s := by
  induction h with
  | init => exact inv_init
  | step _ hstep ih => exact ih.step hstep

/-! ### Connected queue pairs -/

lemma isUd_congr {tid tid' nid nid' : ℕ} (h : rcQid tid nid = rcQid tid' nid') (k : ℕ) :
    isUd (rcQid tid k) = isUd (rcQid tid' k) := by
  have hud := congrArg isUd h
  rwa [isUd_rcQid, isUd_rcQid, ← isUd_rcQid tid k, ← isUd_rcQid tid' k] at hud

/-- A queue pair whose id is that of a datagram queue pair is never connected. -/
lemma Inv.isUd_of_ready (h : Inv s) {n : Fin c.nnodes} {p : ℕ × ℕ} (hp : Ready (s n).qps p) :
    isUd (rcQid p.1 n) = false := by
  obtain ⟨qp, hqp, hinited⟩ := hp
  obtain ⟨-, -, -, -, hud, -⟩ := h.connected n _ qp hqp hinited
  rwa [isUd_congr (h.created n _ qp hqp).2]

/-- A constructor gets through its rounds only with few threads. -/
lemma Inv.nthds_le (h : Inv s) {n : Fin c.nnodes} (hdone : (s n).phase = .done) :
    c.nthds ≤ maxThreads := by
  by_contra hlt
  have hprogress := h.progress n
  rw [Node.Progress, hdone] at hprogress
  have hud : isUd (rcQid maxThreads n) = false :=
    h.isUd_of_ready (hprogress.2 (maxThreads, n) (mem_pairs.mpr ⟨by omega, n.isLt⟩))
  rw [isUd_rcQid] at hud
  exact absurd hud (by decide)

end Connect

end RedAnns
