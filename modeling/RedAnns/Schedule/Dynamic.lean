import RedAnns.Lib.Tally

/-!
The dynamic scheduling of `tests/test_search_distributed.cpp`: the engine threads and the proxies of
`test_search_distributed_with_dynamic_scheduling`.

An engine thread draws query ids from a shared counter and sends each to the proxy of a server,
until the ids are used up; then it asks the proxies for queries until every one of them has said
that it has none. There is no barrier in between. Messages to a proxy are in order per sending
thread, and a reply of a proxy to a server goes to any thread of it that waits for that proxy.

* `engineStep`, `proxyStep`: the two programs, one step at a time.
* `Step`, `Reachable`: any interleaving of them.
* `Moves`: what a step can do, and `moves_of_step`.
-/

namespace RedAnns

namespace Schedule

/-- What an engine sends to a proxy. -/
inductive Request
  | enqueue (queryId : ℕ)
  | dequeueHighAffinity
  | dequeueLowAffinity
  deriving DecidableEq

/-- What a proxy sends to an engine. -/
inductive Reply
  | dequeueSucc (queryId : ℕ)
  | dequeueFail
  deriving DecidableEq

/-- The servers, the engine threads of each, the queries, and the server that the scheduling
strategy names for each query. -/
structure Cluster where
  numServers : ℕ
  numThreads : Fin numServers → ℕ
  queryNum : ℕ
  shouldRunOnNode : ℕ → Fin numServers

/-- The engine threads, each with the server that it runs on. -/
abbrev Cluster.Thread (c : Cluster) : Type := (sid : Fin c.numServers) × Fin (c.numThreads sid)

/-- Where an engine thread stands. -/
inductive Point
  | dispatch
  | send (qid : ℕ)
  | execute
  | recv
  | search (qid : ℕ)
  | left
  deriving DecidableEq

/-- The local variables of an engine thread. -/
structure Engine (c : Cluster) where
  point : Point
  nsvrHasQuery : ℕ
  hasQuery : Fin c.numServers → Bool
  dsid : Fin c.numServers

namespace Engine

variable {c : Cluster} (e : Engine c)

def goTo (point : Point) : Engine c := { e with point }

/-- The engine waits for a reply of `dsid`. -/
def waitFor (dsid : Fin c.numServers) : Engine c := { e with point := .recv, dsid }

def skipTo (dsid : Fin c.numServers) : Engine c := { e with dsid }

/-- The engine was told that `dsid` has no query. -/
def refused : Engine c :=
  { e with
    point := .execute
    hasQuery := Function.update e.hasQuery e.dsid false
    nsvrHasQuery := e.nsvrHasQuery - 1 }

@[simp] lemma point_goTo (point : Point) : (e.goTo point).point = point := rfl
@[simp] lemma hasQuery_goTo (point : Point) : (e.goTo point).hasQuery = e.hasQuery := rfl
@[simp] lemma point_waitFor (p : Fin c.numServers) : (e.waitFor p).point = .recv := rfl
@[simp] lemma dsid_waitFor (p : Fin c.numServers) : (e.waitFor p).dsid = p := rfl
@[simp] lemma hasQuery_waitFor (p : Fin c.numServers) : (e.waitFor p).hasQuery = e.hasQuery := rfl
@[simp] lemma point_skipTo (p : Fin c.numServers) : (e.skipTo p).point = e.point := rfl
@[simp] lemma hasQuery_skipTo (p : Fin c.numServers) : (e.skipTo p).hasQuery = e.hasQuery := rfl
@[simp] lemma point_refused : e.refused.point = .execute := rfl
@[simp] lemma hasQuery_refused :
    e.refused.hasQuery = Function.update e.hasQuery e.dsid false := rfl

end Engine

/-- The whole cluster: the shared counter, the engines, the messages of a thread to a proxy that are
on their way, the queue of each proxy, its replies to each server that are on their way, and the ids
of the queries that were handed to `search_base_index_distributed`. -/
structure State (c : Cluster) where
  counter : ℕ
  engines : c.Thread → Engine c
  requests : c.Thread × Fin c.numServers → List Request
  taskQueue : Fin c.numServers → List ℕ
  replies : Fin c.numServers × Fin c.numServers → List Reply
  handed : List ℕ

variable {c : Cluster}

/-- The start: nothing is drawn, sent or queued. -/
def State.init (c : Cluster) : State c where
  counter := 0
  engines := fun t => ⟨.dispatch, c.numServers, fun _ => true, ⟨0, t.1.pos⟩⟩
  requests := fun _ => []
  taskQueue := fun _ => []
  replies := fun _ => []
  handed := []

namespace State

variable (s : State c)

def setEngine (t : c.Thread) (e : Engine c) : State c :=
  { s with engines := Function.update s.engines t e }

/-- `rdma_fetch_add`: the counter after it. -/
def fetchAdd : State c := { s with counter := s.counter + 1 }

/-- `search_base_index_distributed` is called for `qid`. -/
def hand (qid : ℕ) : State c := { s with handed := s.handed ++ [qid] }

/-- `world.send` of an engine to a proxy. -/
def send (t : c.Thread) (p : Fin c.numServers) (m : Request) : State c :=
  { s with requests := Function.update s.requests (t, p) (s.requests (t, p) ++ [m]) }

/-- The messages of `t` to the proxy `p` that are left once the first was received. -/
def setRequests (t : c.Thread) (p : Fin c.numServers) (rest : List Request) : State c :=
  { s with requests := Function.update s.requests (t, p) rest }

def setQueue (p : Fin c.numServers) (queue : List ℕ) : State c :=
  { s with taskQueue := Function.update s.taskQueue p queue }

def setReplies (p sid : Fin c.numServers) (rest : List Reply) : State c :=
  { s with replies := Function.update s.replies (p, sid) rest }

end State

/-- `(dsid + 1) % Global::num_servers`. -/
def nextServer (dsid : Fin c.numServers) : Fin c.numServers :=
  ⟨(dsid.val + 1) % c.numServers, Nat.mod_lt _ dsid.pos⟩

/-- One step of an engine thread; it cannot step while it waits for a reply, or once it has left. -/
def engineStep (t : c.Thread) (s : State c) : Option (State c) :=
  let e := s.engines t
  match e.point with
  | .dispatch =>
      let qid := s.counter
      some (s.fetchAdd.setEngine t (e.goTo (if qid < c.queryNum then .send qid else .execute)))
  | .send qid =>
      some ((s.send t (c.shouldRunOnNode qid) (.enqueue qid)).setEngine t (e.goTo .dispatch))
  | .execute =>
      if e.nsvrHasQuery = 0 then some (s.setEngine t (e.goTo .left))
      else if e.hasQuery t.1 then
        some ((s.send t t.1 .dequeueHighAffinity).setEngine t (e.waitFor t.1))
      else
        let dsid := nextServer e.dsid
        if e.hasQuery dsid then
          some ((s.send t dsid .dequeueLowAffinity).setEngine t (e.waitFor dsid))
        else some (s.setEngine t (e.skipTo dsid))
  | .recv =>
      match s.replies (e.dsid, t.1) with
      | [] => none
      | .dequeueSucc qid :: rest =>
          some ((s.setReplies e.dsid t.1 rest).setEngine t (e.goTo (.search qid)))
      | .dequeueFail :: rest => some ((s.setReplies e.dsid t.1 rest).setEngine t e.refused)
  | .search qid => some ((s.hand qid).setEngine t (e.goTo .execute))
  | .left => none

/-- `push_back` of a circular buffer: a full one loses its first element. -/
def pushBack (capacity : ℕ) (queue : List ℕ) (qid : ℕ) : List ℕ :=
  if queue.length < capacity then queue ++ [qid]
  else if capacity = 0 then queue else queue.tail ++ [qid]

/-- The last element, and the buffer after `pop_back`. -/
def popBack (queue : List ℕ) : Option (ℕ × List ℕ) :=
  queue.getLast?.map fun qid => (qid, queue.dropLast)

/-- The first element, and the buffer after `pop_front`. -/
def popFront : List ℕ → Option (ℕ × List ℕ)
  | [] => none
  | qid :: queue => some (qid, queue)

/-- The reply of the proxy `p` to the server `sid`, with what it took from its queue. -/
def answer (p sid : Fin c.numServers) (popped : Option (ℕ × List ℕ)) (s : State c) : State c :=
  match popped with
  | none => s.setReplies p sid (s.replies (p, sid) ++ [.dequeueFail])
  | some (qid, queue) =>
      (s.setQueue p queue).setReplies p sid (s.replies (p, sid) ++ [.dequeueSucc qid])

/-- One step of the proxy `p`, which receives the first message of `t`. -/
def proxyStep (t : c.Thread) (p : Fin c.numServers) (s : State c) : Option (State c) :=
  match s.requests (t, p) with
  | [] => none
  | .enqueue qid :: rest =>
      some ((s.setRequests t p rest).setQueue p (pushBack c.queryNum (s.taskQueue p) qid))
  | .dequeueHighAffinity :: rest =>
      some (answer p t.1 (popBack (s.taskQueue p)) (s.setRequests t p rest))
  | .dequeueLowAffinity :: rest =>
      some (answer p t.1 (popFront (s.taskQueue p)) (s.setRequests t p rest))

/-- A step of any engine or proxy. -/
inductive Step (s s' : State c) : Prop
  | engine (t : c.Thread) : engineStep t s = some s' → Step s s'
  | proxy (t : c.Thread) (p : Fin c.numServers) : proxyStep t p s = some s' → Step s s'

/-- The states of all interleavings. -/
inductive Reachable (c : Cluster) : State c → Prop
  | init : Reachable c (State.init c)
  | step {s s' : State c} : Reachable c s → Step s s' → Reachable c s'

/-- **Every query is run once**: when all engine threads have left both loops, every query id was
handed to a search once, and the queues are empty. -/
def RunsOnce (c : Cluster) : Prop :=
  ∀ s, Reachable c s → (∀ t, (s.engines t).point = .left) →
    (∀ qid < c.queryNum, s.handed.count qid = 1) ∧ ∀ p, s.taskQueue p = []

/-! ### What a step can do -/

/-- A request for a query. -/
def Request.isDequeue : Request → Bool
  | .enqueue _ => false
  | .dequeueHighAffinity => true
  | .dequeueLowAffinity => true

/-- **What a step can do**, of an engine (up to `hand`) and of a proxy. -/
inductive Moves (s : State c) : State c → Prop
  | draw (t : c.Thread) (hpt : (s.engines t).point = .dispatch) (hlt : s.counter < c.queryNum) :
      Moves s (s.fetchAdd.setEngine t ((s.engines t).goTo (.send s.counter)))
  | usedUp (t : c.Thread) (hpt : (s.engines t).point = .dispatch) (hle : c.queryNum ≤ s.counter) :
      Moves s (s.fetchAdd.setEngine t ((s.engines t).goTo .execute))
  | enqueue (t : c.Thread) (p : Fin c.numServers) (qid : ℕ)
      (hpt : (s.engines t).point = .send qid) :
      Moves s ((s.send t p (.enqueue qid)).setEngine t ((s.engines t).goTo .dispatch))
  | leave (t : c.Thread) (hpt : (s.engines t).point = .execute)
      (hzero : (s.engines t).nsvrHasQuery = 0) :
      Moves s (s.setEngine t ((s.engines t).goTo .left))
  | ask (t : c.Thread) (p : Fin c.numServers) (m : Request) (hm : m.isDequeue = true)
      (hpt : (s.engines t).point = .execute) (hhas : (s.engines t).hasQuery p = true) :
      Moves s ((s.send t p m).setEngine t ((s.engines t).waitFor p))
  | skip (t : c.Thread) (p : Fin c.numServers) (hpt : (s.engines t).point = .execute) :
      Moves s (s.setEngine t ((s.engines t).skipTo p))
  | recvSucc (t : c.Thread) (qid : ℕ) (rest : List Reply) (hpt : (s.engines t).point = .recv)
      (hrep : s.replies ((s.engines t).dsid, t.1) = .dequeueSucc qid :: rest) :
      Moves s ((s.setReplies (s.engines t).dsid t.1 rest).setEngine t
        ((s.engines t).goTo (.search qid)))
  | recvFail (t : c.Thread) (rest : List Reply) (hpt : (s.engines t).point = .recv)
      (hrep : s.replies ((s.engines t).dsid, t.1) = .dequeueFail :: rest) :
      Moves s ((s.setReplies (s.engines t).dsid t.1 rest).setEngine t (s.engines t).refused)
  | hand (t : c.Thread) (qid : ℕ) (hpt : (s.engines t).point = .search qid) :
      Moves s ((s.hand qid).setEngine t ((s.engines t).goTo .execute))
  | push (t : c.Thread) (p : Fin c.numServers) (qid : ℕ) (rest : List Request)
      (hreq : s.requests (t, p) = .enqueue qid :: rest) :
      Moves s ((s.setRequests t p rest).setQueue p (pushBack c.queryNum (s.taskQueue p) qid))
  | refuse (t : c.Thread) (p : Fin c.numServers) (m : Request) (rest : List Request)
      (hm : m.isDequeue = true) (hreq : s.requests (t, p) = m :: rest) (hq : s.taskQueue p = []) :
      Moves s ((s.setRequests t p rest).setReplies p t.1 (s.replies (p, t.1) ++ [.dequeueFail]))
  | serve (t : c.Thread) (p : Fin c.numServers) (m : Request) (rest : List Request) (qid : ℕ)
      (queue : List ℕ) (hm : m.isDequeue = true) (hreq : s.requests (t, p) = m :: rest)
      (hq : (s.taskQueue p).Perm (qid :: queue)) :
      Moves s (((s.setRequests t p rest).setQueue p queue).setReplies p t.1
        (s.replies (p, t.1) ++ [.dequeueSucc qid]))

lemma popBack_eq_none {queue : List ℕ} (h : popBack queue = none) : queue = [] := by
  simpa [popBack] using h

lemma popBack_perm {queue rest : List ℕ} {qid : ℕ} (h : popBack queue = some (qid, rest)) :
    queue.Perm (qid :: rest) := by
  obtain ⟨last, hlast, heq⟩ := Option.map_eq_some_iff.mp h
  rw [Prod.mk.injEq] at heq
  obtain ⟨rfl, rfl⟩ := heq
  have hsplit : queue.dropLast ++ [last] = queue := by
    obtain ⟨ys, rfl⟩ := List.getLast?_eq_some_iff.mp hlast
    rw [List.dropLast_concat]
  have hperm := List.perm_append_singleton last queue.dropLast
  rwa [hsplit] at hperm

lemma popFront_eq_none {queue : List ℕ} (h : popFront queue = none) : queue = [] := by
  cases queue with
  | nil => rfl
  | cons qid rest => exact absurd h (by simp [popFront])

lemma popFront_perm {queue rest : List ℕ} {qid : ℕ} (h : popFront queue = some (qid, rest)) :
    queue.Perm (qid :: rest) := by
  cases queue with
  | nil => exact absurd h (by simp [popFront])
  | cons first queue =>
      rw [popFront, Option.some.injEq, Prod.mk.injEq] at h
      rw [h.1, h.2]

section

variable {s s' : State c}

/-- Where a proxy answers a request. -/
lemma moves_answer {t : c.Thread} {p : Fin c.numServers} {m : Request} {rest : List Request}
    {popped : Option (ℕ × List ℕ)} (hm : m.isDequeue = true)
    (hreq : s.requests (t, p) = m :: rest) (hnone : popped = none → s.taskQueue p = [])
    (hsome : ∀ qid queue, popped = some (qid, queue) → (s.taskQueue p).Perm (qid :: queue)) :
    Moves s (answer p t.1 popped (s.setRequests t p rest)) := by
  cases popped with
  | none => exact .refuse t p m rest hm hreq (hnone rfl)
  | some popped => exact .serve t p m rest popped.1 popped.2 hm hreq (hsome _ _ rfl)

lemma moves_of_engineStep {t : c.Thread} (h : engineStep t s = some s') : Moves s s' := by
  rw [engineStep] at h
  cases hpt : (s.engines t).point with
  | dispatch =>
      simp only [hpt, Option.some.injEq] at h
      subst h
      by_cases hlt : s.counter < c.queryNum
      · rw [if_pos hlt]
        exact .draw t hpt hlt
      · rw [if_neg hlt]
        exact .usedUp t hpt (Nat.le_of_not_lt hlt)
  | send qid =>
      simp only [hpt, Option.some.injEq] at h
      exact h ▸ .enqueue t _ qid hpt
  | execute =>
      simp only [hpt] at h
      split_ifs at h with hzero hown hnext
      · exact Option.some.inj h ▸ .leave t hpt hzero
      · exact Option.some.inj h ▸ .ask t t.1 .dequeueHighAffinity rfl hpt hown
      · exact Option.some.inj h ▸ .ask t _ .dequeueLowAffinity rfl hpt hnext
      · exact Option.some.inj h ▸ .skip t _ hpt
  | recv =>
      simp only [hpt] at h
      cases hrep : s.replies ((s.engines t).dsid, t.1) with
      | nil => simp [hrep] at h
      | cons reply rest =>
          cases reply with
          | dequeueSucc qid =>
              simp only [hrep, Option.some.injEq] at h
              exact h ▸ .recvSucc t qid rest hpt hrep
          | dequeueFail =>
              simp only [hrep, Option.some.injEq] at h
              exact h ▸ .recvFail t rest hpt hrep
  | search qid =>
      simp only [hpt, Option.some.injEq] at h
      exact h ▸ .hand t qid hpt
  | left => simp [hpt] at h

lemma moves_of_proxyStep {t : c.Thread} {p : Fin c.numServers} (h : proxyStep t p s = some s') :
    Moves s s' := by
  rw [proxyStep] at h
  cases hreq : s.requests (t, p) with
  | nil => simp [hreq] at h
  | cons m rest =>
      cases m with
      | enqueue qid =>
          simp only [hreq, Option.some.injEq] at h
          exact h ▸ .push t p qid rest hreq
      | dequeueHighAffinity =>
          simp only [hreq, Option.some.injEq] at h
          exact h ▸ moves_answer rfl hreq popBack_eq_none fun _ _ => popBack_perm
      | dequeueLowAffinity =>
          simp only [hreq, Option.some.injEq] at h
          exact h ▸ moves_answer rfl hreq popFront_eq_none fun _ _ => popFront_perm

/-- **Every step is one of the moves.** -/
theorem moves_of_step (h : Step s s') : Moves s s' := by
  cases h with
  | engine t h => exact moves_of_engineStep h
  | proxy t p h => exact moves_of_proxyStep h

end

end Schedule

end RedAnns
