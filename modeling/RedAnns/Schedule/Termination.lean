import RedAnns.Schedule.Once

/-!
The dynamic scheduling ends.

Nothing bounds the messages of a run beforehand: an engine asks a proxy as long as it gets queries,
and it goes round the servers in search of one that has not refused it. But every message is paid
for.

* `gap`, `Engine.skipsLeft`: how far an engine has to go round.
* `stepsLeft`: a number that every step of every program makes smaller (`stepsLeft_lt`).
* `Inv.exists_step`: as long as an engine has not left, some program can make a step.
* `schedule_ends`: so every run ends, and it ends with every query run once.
-/

namespace RedAnns

namespace Schedule

variable {c : Cluster} {s s' : State c}

/-! ### Going round the servers -/

/-- The servers between `dsid` and `p`, going round. -/
def gap (dsid p : Fin c.numServers) : ℕ :=
  if dsid < p then p - dsid - 1 else p + c.numServers - dsid - 1

lemma gap_lt (dsid p : Fin c.numServers) : gap dsid p < c.numServers := by
  have hd := dsid.isLt
  have hp := p.isLt
  rw [gap]
  split_ifs with hlt
  · omega
  · rw [Fin.lt_def] at hlt
    omega

/-- The next server is one nearer to every other one. -/
lemma gap_nextServer {dsid p : Fin c.numServers} (hne : p ≠ nextServer dsid) :
    gap (nextServer dsid) p + 1 = gap dsid p := by
  have hd := dsid.isLt
  have hp := p.isLt
  have hne' : p.val ≠ (dsid.val + 1) % c.numServers := fun h => hne (Fin.ext h)
  simp only [gap, Fin.lt_def, nextServer]
  rcases Nat.lt_or_ge (dsid.val + 1) c.numServers with hlt | hge
  · rw [Nat.mod_eq_of_lt hlt] at hne' ⊢
    split_ifs <;> omega
  · have heq : dsid.val + 1 = c.numServers := by omega
    rw [heq, Nat.mod_self] at hne' ⊢
    split_ifs <;> omega

/-- The servers that an engine may go past, counted for every one that has not refused it. -/
def Engine.skipsLeft (e : Engine c) : ℕ :=
  tally (fun p b => if b then gap e.dsid p else 0) e.hasQuery

/-- As many as it can be. -/
def Cluster.maxSkips (c : Cluster) : ℕ := c.numServers * c.numServers

namespace Engine

variable {e : Engine c}

lemma skipsLeft_le (e : Engine c) : e.skipsLeft ≤ c.maxSkips := by
  have hone : ∀ p ∈ Finset.univ, (if e.hasQuery p then gap e.dsid p else 0) ≤ c.numServers := by
    intro p _
    split_ifs
    · exact (gap_lt e.dsid p).le
    · exact Nat.zero_le _
  simpa [Cluster.maxSkips, skipsLeft, tally] using Finset.sum_le_sum hone

/-- Going past a server that has refused the engine, while some other has not. -/
lemma skipsLeft_skipTo (hno : e.hasQuery (nextServer e.dsid) = false)
    (hsome : ∃ p, e.hasQuery p = true) :
    (e.skipTo (nextServer e.dsid)).skipsLeft < e.skipsLeft := by
  have hgap : ∀ p, e.hasQuery p = true → gap (nextServer e.dsid) p + 1 = gap e.dsid p :=
    fun p hp => gap_nextServer fun heq => by simp [← heq, hp] at hno
  obtain ⟨p, hp⟩ := hsome
  refine Finset.sum_lt_sum (fun p' _ => ?_) ⟨p, Finset.mem_univ p, ?_⟩
  · show (if e.hasQuery p' then gap (nextServer e.dsid) p' else 0)
      ≤ if e.hasQuery p' then gap e.dsid p' else 0
    split_ifs with hp'
    · have := hgap p' hp'
      omega
    · exact le_rfl
  · show (if e.hasQuery p then gap (nextServer e.dsid) p else 0)
      < if e.hasQuery p then gap e.dsid p else 0
    have := hgap p hp
    rw [if_pos hp, if_pos hp]
    omega

end Engine

/-! ### What is left to do -/

/-- What an engine has to do before its next message, from its place on. -/
def Engine.toDo (e : Engine c) : ℕ :=
  match e.point with
  | .dispatch => c.maxSkips + 3
  | .send _ => 2 * c.maxSkips + 9
  | .execute => e.skipsLeft + 2
  | .recv => 0
  | .search _ => c.maxSkips + 3
  | .left => 0

/-- The servers that have not refused the engine. -/
def Engine.unrefused (e : Engine c) : ℕ := tally (fun _ b => if b then 1 else 0) e.hasQuery

/-- What a message to a proxy leads to. -/
def Request.toDo (maxSkips : ℕ) : Request → ℕ
  | .enqueue _ => maxSkips + 5
  | .dequeueHighAffinity => 1
  | .dequeueLowAffinity => 1

/-- What a message to an engine leads to. -/
def Reply.toDo (maxSkips : ℕ) : Reply → ℕ
  | .dequeueSucc _ => maxSkips + 4
  | .dequeueFail => 0

/-- What the engines have to do; each refusal is worth a way round all servers. -/
def enginesToDo (engines : c.Thread → Engine c) : ℕ :=
  tally (fun _ e => e.toDo + (c.maxSkips + 3) * e.unrefused) engines

def requestsToDo (requests : c.Thread × Fin c.numServers → List Request) : ℕ :=
  tally (fun _ l => (l.map (Request.toDo c.maxSkips)).sum) requests

def queuesToDo (taskQueue : Fin c.numServers → List ℕ) : ℕ :=
  tally (fun _ l => (c.maxSkips + 4) * l.length) taskQueue

def repliesToDo (replies : Fin c.numServers × Fin c.numServers → List Reply) : ℕ :=
  tally (fun _ l => (l.map (Reply.toDo c.maxSkips)).sum) replies

/-- **What is left to do** in the cluster, the queries that were not drawn included. -/
def stepsLeft (s : State c) : ℕ :=
  (c.maxSkips + 7) * (c.queryNum - s.counter) + enginesToDo s.engines + requestsToDo s.requests
    + queuesToDo s.taskQueue + repliesToDo s.replies

lemma Request.toDo_of_isDequeue {m : Request} (hm : m.isDequeue = true) (maxSkips : ℕ) :
    m.toDo maxSkips = 1 := by
  cases m with
  | enqueue qid => simp [Request.isDequeue] at hm
  | dequeueHighAffinity => rfl
  | dequeueLowAffinity => rfl

section Updates

lemma enginesToDo_update (engines : c.Thread → Engine c) (t : c.Thread) (e : Engine c) :
    enginesToDo (Function.update engines t e)
        + ((engines t).toDo + (c.maxSkips + 3) * (engines t).unrefused)
      = enginesToDo engines + (e.toDo + (c.maxSkips + 3) * e.unrefused) :=
  tally_update (fun _ e => e.toDo + (c.maxSkips + 3) * e.unrefused) engines t e

/-- An engine that was not refused. -/
lemma enginesToDo_of_eq (engines : c.Thread → Engine c) (t : c.Thread) {e : Engine c}
    (h : e.hasQuery = (engines t).hasQuery) :
    enginesToDo (Function.update engines t e) + (engines t).toDo
      = enginesToDo engines + e.toDo := by
  have hu := enginesToDo_update engines t e
  rw [Engine.unrefused, Engine.unrefused, h] at hu
  omega

/-- An engine that was refused. -/
lemma enginesToDo_refused (engines : c.Thread → Engine c) (t : c.Thread)
    (hpt : (engines t).point = .recv) (h : (engines t).hasQuery (engines t).dsid = true) :
    enginesToDo (Function.update engines t (engines t).refused) < enginesToDo engines := by
  have hu := enginesToDo_update engines t (engines t).refused
  have hrest : (engines t).refused.unrefused + 1 = (engines t).unrefused := by
    have hrest := tally_update (fun _ b => if b then 1 else 0) (engines t).hasQuery
      (engines t).dsid false
    rw [h] at hrest
    simpa [Engine.unrefused] using hrest
  have hskips := (engines t).refused.skipsLeft_le
  rw [← hrest, Nat.mul_succ] at hu
  simp only [Engine.toDo, hpt, Engine.point_refused] at hu
  omega

lemma requestsToDo_sent (requests : c.Thread × Fin c.numServers → List Request)
    (x : c.Thread × Fin c.numServers) (m : Request) :
    requestsToDo (Function.update requests x (requests x ++ [m]))
      = requestsToDo requests + m.toDo c.maxSkips := by
  have hu := tally_update
    (fun _ (l : List Request) => (l.map (Request.toDo c.maxSkips)).sum) requests x
    (requests x ++ [m])
  simp only [List.map_append, List.sum_append, List.map_cons, List.map_nil,
    List.sum_singleton] at hu
  rw [requestsToDo, requestsToDo]
  omega

lemma requestsToDo_received {requests : c.Thread × Fin c.numServers → List Request}
    {x : c.Thread × Fin c.numServers} {m : Request} {rest : List Request}
    (h : requests x = m :: rest) :
    requestsToDo (Function.update requests x rest) + m.toDo c.maxSkips = requestsToDo requests := by
  have hu := tally_update
    (fun _ (l : List Request) => (l.map (Request.toDo c.maxSkips)).sum) requests x rest
  simp only [h, List.map_cons, List.sum_cons] at hu
  rw [requestsToDo, requestsToDo]
  omega

lemma repliesToDo_sent (replies : Fin c.numServers × Fin c.numServers → List Reply)
    (x : Fin c.numServers × Fin c.numServers) (m : Reply) :
    repliesToDo (Function.update replies x (replies x ++ [m]))
      = repliesToDo replies + m.toDo c.maxSkips := by
  have hu := tally_update
    (fun _ (l : List Reply) => (l.map (Reply.toDo c.maxSkips)).sum) replies x (replies x ++ [m])
  simp only [List.map_append, List.sum_append, List.map_cons, List.map_nil,
    List.sum_singleton] at hu
  rw [repliesToDo, repliesToDo]
  omega

lemma repliesToDo_received {replies : Fin c.numServers × Fin c.numServers → List Reply}
    {x : Fin c.numServers × Fin c.numServers} {m : Reply} {rest : List Reply}
    (h : replies x = m :: rest) :
    repliesToDo (Function.update replies x rest) + m.toDo c.maxSkips = repliesToDo replies := by
  have hu := tally_update
    (fun _ (l : List Reply) => (l.map (Reply.toDo c.maxSkips)).sum) replies x rest
  simp only [h, List.map_cons, List.sum_cons] at hu
  rw [repliesToDo, repliesToDo]
  omega

lemma queuesToDo_update (taskQueue : Fin c.numServers → List ℕ) (p : Fin c.numServers)
    (queue : List ℕ) :
    queuesToDo (Function.update taskQueue p queue) + (c.maxSkips + 4) * (taskQueue p).length
      = queuesToDo taskQueue + (c.maxSkips + 4) * queue.length :=
  tally_update (fun _ (l : List ℕ) => (c.maxSkips + 4) * l.length) taskQueue p queue

end Updates

lemma length_pushBack_le (capacity : ℕ) (queue : List ℕ) (qid : ℕ) :
    (pushBack capacity queue qid).length ≤ queue.length + 1 := by
  rw [pushBack]
  split_ifs <;> simp

/-- A draw of a query uses up what it is worth. -/
lemma undrawn_fetchAdd (hlt : s.counter < c.queryNum) :
    (c.maxSkips + 7) * (c.queryNum - (s.counter + 1)) + (c.maxSkips + 7)
      = (c.maxSkips + 7) * (c.queryNum - s.counter) := by
  rw [← Nat.mul_succ]
  exact congrArg _ (by omega)

lemma undrawn_of_le (hle : c.queryNum ≤ s.counter) :
    c.queryNum - (s.counter + 1) = c.queryNum - s.counter := by omega

/-! ### Every step makes it less -/

/-- A step of an engine that keeps its messages to itself. -/
lemma stepsLeft_setEngine {t : c.Thread} {e : Engine c}
    (h : e.hasQuery = (s.engines t).hasQuery) (hlt : e.toDo < (s.engines t).toDo) :
    stepsLeft (s.setEngine t e) < stepsLeft s := by
  have he := enginesToDo_of_eq s.engines t h
  simp only [stepsLeft, State.setEngine]
  omega

/-- A step of an engine that sends a message. -/
lemma stepsLeft_send {t : c.Thread} {p : Fin c.numServers} {m : Request} {e : Engine c}
    (h : e.hasQuery = (s.engines t).hasQuery)
    (hlt : e.toDo + m.toDo c.maxSkips < (s.engines t).toDo) :
    stepsLeft ((s.send t p m).setEngine t e) < stepsLeft s := by
  have he := enginesToDo_of_eq s.engines t h
  have hr := requestsToDo_sent s.requests (t, p) m
  simp only [stepsLeft, State.setEngine, State.send]
  omega

/-- The reply to a request, with what is taken from the queue for it. -/
lemma stepsLeft_answer {t : c.Thread} {p : Fin c.numServers} {m : Request} {rest : List Request}
    {popped : Option (ℕ × List ℕ)} (hm : m.isDequeue = true) (hreq : s.requests (t, p) = m :: rest)
    (hsome : ∀ qid queue, popped = some (qid, queue) → (s.taskQueue p).Perm (qid :: queue)) :
    stepsLeft (answer p t.1 popped (s.setRequests t p rest)) < stepsLeft s := by
  have hr := requestsToDo_received hreq
  rw [Request.toDo_of_isDequeue hm] at hr
  cases popped with
  | none =>
      have ha := repliesToDo_sent s.replies (p, t.1) .dequeueFail
      simp only [Reply.toDo, Nat.add_zero] at ha
      simp only [answer, stepsLeft, State.setRequests, State.setReplies]
      omega
  | some popped =>
      have ha := repliesToDo_sent s.replies (p, t.1) (.dequeueSucc popped.1)
      have hq := queuesToDo_update s.taskQueue p popped.2
      rw [(hsome popped.1 popped.2 rfl).length_eq, List.length_cons, Nat.mul_succ] at hq
      simp only [Reply.toDo] at ha
      simp only [answer, stepsLeft, State.setRequests, State.setQueue, State.setReplies]
      omega

/-- **A step of a proxy.** -/
lemma stepsLeft_proxyStep {t : c.Thread} {p : Fin c.numServers} (h : proxyStep t p s = some s') :
    stepsLeft s' < stepsLeft s := by
  rw [proxyStep] at h
  cases hreq : s.requests (t, p) with
  | nil => simp [hreq] at h
  | cons m rest =>
      cases m with
      | enqueue qid =>
          simp only [hreq, Option.some.injEq] at h
          subst h
          have hr := requestsToDo_received hreq
          have hq := queuesToDo_update s.taskQueue p (pushBack c.queryNum (s.taskQueue p) qid)
          have hlen := Nat.mul_le_mul_left (c.maxSkips + 4)
            (length_pushBack_le c.queryNum (s.taskQueue p) qid)
          rw [Nat.mul_succ] at hlen
          simp only [Request.toDo] at hr
          simp only [stepsLeft, State.setRequests, State.setQueue]
          omega
      | dequeueHighAffinity =>
          simp only [hreq, Option.some.injEq] at h
          exact h ▸ stepsLeft_answer rfl hreq fun _ _ => popBack_perm
      | dequeueLowAffinity =>
          simp only [hreq, Option.some.injEq] at h
          exact h ▸ stepsLeft_answer rfl hreq fun _ _ => popFront_perm

/-- An engine that knows of a proxy with queries has not lost count of them. -/
lemma Engine.Sound.exists_hasQuery {e : Engine c} {counter : ℕ} (h : e.Sound counter)
    (hne : e.nsvrHasQuery ≠ 0) : ∃ p, e.hasQuery p = true := by
  by_contra hno
  refine hne (h.nsvr.trans (tally_eq_zero.mpr fun p => ?_))
  rw [if_neg fun hp => hno ⟨p, hp⟩]

/-- **A step of an engine.** -/
lemma stepsLeft_engineStep (he : EnginesSound s) {t : c.Thread} (h : engineStep t s = some s') :
    stepsLeft s' < stepsLeft s := by
  have hskips := (s.engines t).skipsLeft_le
  rw [engineStep] at h
  cases hpt : (s.engines t).point with
  | dispatch =>
      simp only [hpt, Option.some.injEq] at h
      subst h
      by_cases hlt : s.counter < c.queryNum
      · rw [if_pos hlt]
        have hu := enginesToDo_of_eq s.engines t (e := (s.engines t).goTo (.send s.counter)) rfl
        have hdraw := undrawn_fetchAdd hlt
        simp only [Engine.toDo, hpt, Engine.point_goTo] at hu
        simp only [stepsLeft, State.setEngine, State.fetchAdd]
        omega
      · rw [if_neg hlt]
        have hu := enginesToDo_of_eq s.engines t (e := (s.engines t).goTo .execute) rfl
        have hsame : ((s.engines t).goTo .execute).skipsLeft = (s.engines t).skipsLeft := rfl
        simp only [Engine.toDo, hpt, Engine.point_goTo] at hu
        simp only [stepsLeft, State.setEngine, State.fetchAdd, undrawn_of_le (Nat.le_of_not_lt hlt)]
        omega
  | send qid =>
      simp only [hpt, Option.some.injEq] at h
      refine h ▸ stepsLeft_send rfl ?_
      simp only [Engine.toDo, hpt, Engine.point_goTo, Request.toDo]
      omega
  | execute =>
      simp only [hpt] at h
      split_ifs at h with hzero hown hnext
      · refine Option.some.inj h ▸ stepsLeft_setEngine rfl ?_
        simp [Engine.toDo, hpt]
      · refine Option.some.inj h ▸ stepsLeft_send rfl ?_
        simp [Engine.toDo, hpt, Request.toDo]
      · refine Option.some.inj h ▸ stepsLeft_send rfl ?_
        simp [Engine.toDo, hpt, Request.toDo]
      · refine Option.some.inj h ▸ stepsLeft_setEngine rfl ?_
        have hskip := Engine.skipsLeft_skipTo (by simpa using hnext)
          ((he.sound t).exists_hasQuery hzero)
        simpa [Engine.toDo, hpt] using hskip
  | recv =>
      simp only [hpt] at h
      cases hrep : s.replies ((s.engines t).dsid, t.1) with
      | nil => simp [hrep] at h
      | cons reply rest =>
          have ha := repliesToDo_received hrep
          cases reply with
          | dequeueSucc qid =>
              simp only [hrep, Option.some.injEq] at h
              subst h
              have hu := enginesToDo_of_eq s.engines t (e := (s.engines t).goTo (.search qid)) rfl
              simp only [Engine.toDo, hpt, Engine.point_goTo] at hu
              simp only [Reply.toDo] at ha
              simp only [stepsLeft, State.setEngine, State.setReplies]
              omega
          | dequeueFail =>
              simp only [hrep, Option.some.injEq] at h
              subst h
              have hu := enginesToDo_refused s.engines t hpt ((he.sound t).waits hpt)
              simp only [Reply.toDo] at ha
              simp only [stepsLeft, State.setEngine, State.setReplies]
              omega
  | search qid =>
      simp only [hpt, Option.some.injEq] at h
      have hlt : ((s.engines t).goTo .execute).toDo < (s.engines t).toDo := by
        have hsame : ((s.engines t).goTo .execute).skipsLeft = (s.engines t).skipsLeft := rfl
        simp only [Engine.toDo, hpt, Engine.point_goTo]
        omega
      exact h ▸ stepsLeft_setEngine (s := s.hand qid) rfl hlt
  | left => simp [hpt] at h

/-- **Every step makes what is left to do less.** -/
theorem stepsLeft_lt (h : Inv s) (hs : Step s s') : stepsLeft s' < stepsLeft s := by
  cases hs with
  | engine t hstep => exact stepsLeft_engineStep h.engines hstep
  | proxy t p hstep => exact stepsLeft_proxyStep hstep

/-! ### No state is stuck -/

lemma exists_proxyStep {t : c.Thread} {p : Fin c.numServers} (h : s.requests (t, p) ≠ []) :
    ∃ s', proxyStep t p s = some s' := by
  rw [proxyStep]
  cases hreq : s.requests (t, p) with
  | nil => exact absurd hreq h
  | cons m rest => cases m <;> exact ⟨_, rfl⟩

/-- An engine can make a step, unless it waits for a reply or has left. -/
lemma exists_engineStep {t : c.Thread} (hleft : (s.engines t).point ≠ .left)
    (hrecv : (s.engines t).point = .recv → s.replies ((s.engines t).dsid, t.1) ≠ []) :
    ∃ s', engineStep t s = some s' := by
  rw [engineStep]
  cases hpt : (s.engines t).point with
  | dispatch => exact ⟨_, rfl⟩
  | send qid => exact ⟨_, rfl⟩
  | execute =>
      simp only
      split_ifs
      · exact ⟨_, rfl⟩
      · exact ⟨_, rfl⟩
      · exact ⟨_, rfl⟩
      · exact ⟨_, rfl⟩
  | recv =>
      cases hrep : s.replies ((s.engines t).dsid, t.1) with
      | nil => exact absurd hrep (hrecv hpt)
      | cons reply rest =>
          cases reply with
          | dequeueSucc qid => exact ⟨_, rfl⟩
          | dequeueFail => exact ⟨_, rfl⟩
  | search qid => exact ⟨_, rfl⟩
  | left => exact absurd hpt hleft

/-- **An engine that has not left** can make a step, or it waits for a proxy that can. -/
theorem Inv.exists_step (h : Inv s) {t : c.Thread} (hleft : (s.engines t).point ≠ .left) :
    ∃ s', Step s s' := by
  by_cases hwait : (s.engines t).point = .recv → s.replies ((s.engines t).dsid, t.1) ≠ []
  · obtain ⟨s', hstep⟩ := exists_engineStep hleft hwait
    exact ⟨s', .engine t hstep⟩
  · -- no reply is on its way, so a request of some engine of the server is
    rw [Classical.not_imp, not_not] at hwait
    obtain ⟨hrecv, hnone⟩ := hwait
    have hbal := h.balanced t.1 (s.engines t).dsid
    have hpos : 0 < waiting t.1 (s.engines t).dsid s.engines := by
      refine Nat.lt_of_lt_of_le ?_ (le_tally _ s.engines t)
      rw [if_pos ⟨rfl, hrecv, rfl⟩]
      exact Nat.one_pos
    rw [hnone, List.length_nil, Nat.add_zero] at hbal
    have hasked : asked t.1 (s.engines t).dsid s.requests ≠ 0 := by omega
    rw [asked, Ne, tally_eq_zero, not_forall] at hasked
    obtain ⟨t', ht'⟩ := hasked
    have hne : s.requests (t', (s.engines t).dsid) ≠ [] := fun hnil => ht' (by simp [hnil])
    obtain ⟨s', hstep⟩ := exists_proxyStep hne
    exact ⟨s', .proxy t' _ hstep⟩

/-! ### Whole runs -/

/-- The states that runs of `n` steps reach. -/
inductive Run (c : Cluster) : ℕ → State c → Prop
  | init : Run c 0 (State.init c)
  | step {n : ℕ} {s s' : State c} : Run c n s → Step s s' → Run c (n + 1) s'

/-- As many steps as a run can make: some for every query, and for every engine some more and a way
round the servers for every server that refuses it. -/
def Cluster.maxSteps (c : Cluster) : ℕ :=
  (c.maxSkips + 7) * c.queryNum + Fintype.card c.Thread * ((c.maxSkips + 3) * (c.numServers + 1))

lemma stepsLeft_init (c : Cluster) : stepsLeft (State.init c) = c.maxSteps := by
  have hengine : ∀ t : c.Thread, ((State.init c).engines t).toDo
      + (c.maxSkips + 3) * ((State.init c).engines t).unrefused
        = (c.maxSkips + 3) * (c.numServers + 1) := fun t => by
    simp [State.init, Engine.toDo, Engine.unrefused, tally, Nat.mul_succ, Nat.add_comm]
  have hengines : enginesToDo (State.init c).engines
      = Fintype.card c.Thread * ((c.maxSkips + 3) * (c.numServers + 1)) := by
    rw [enginesToDo, tally, Finset.sum_congr rfl fun t _ => hengine t, Finset.sum_const,
      Finset.card_univ, smul_eq_mul]
  rw [stepsLeft, hengines]
  simp [State.init, requestsToDo, queuesToDo, repliesToDo, tally, Cluster.maxSteps]

/-- The work is done: all engines have left, with nothing on its way or in a queue, and every query
was handed to one search. -/
structure Finished (s : State c) : Prop where
  left : ∀ t, (s.engines t).point = .left
  requests : ∀ x, s.requests x = []
  replies : ∀ x, s.replies x = []
  taskQueue : ∀ p, s.taskQueue p = []
  once : Nonempty c.Thread → ∀ qid < c.queryNum, s.handed.count qid = 1

variable {n : ℕ}

lemma Run.reachable (h : Run c n s) : Reachable c s := by
  induction h with
  | init => exact .init
  | step _ hs ih => exact ih.step hs

lemma Run.add_stepsLeft_le (h : Run c n s) : n + stepsLeft s ≤ c.maxSteps := by
  induction h with
  | init => rw [stepsLeft_init, Nat.zero_add]
  | step hrun hs ih =>
      have := stepsLeft_lt hrun.reachable.inv hs
      omega

/-- **No state is stuck** before the work is done. -/
lemma Inv.exists_step_or_finished (h : Inv s) : (∃ s', Step s s') ∨ Finished s := by
  by_cases hleft : ∀ t, (s.engines t).point = .left
  · obtain ⟨hreq, hrep, hqueue⟩ := h.settled hleft
    exact Or.inr ⟨hleft, hreq, hrep, hqueue, fun ⟨t⟩ qid hqid => h.runsOnce hleft t hqid⟩
  · rw [not_forall] at hleft
    obtain ⟨t, ht⟩ := hleft
    exact Or.inl (h.exists_step ht)

/-- **The dynamic scheduling ends, and with the work done.** No run is longer than `maxSteps`, and
as long as the work is not done some program can make a step. -/
theorem schedule_ends (h : Run c n s) : n ≤ c.maxSteps ∧ ((∃ s', Step s s') ∨ Finished s) :=
  ⟨(Nat.le_add_right n _).trans h.add_stepsLeft_le, h.reachable.inv.exists_step_or_finished⟩

/-- One query on a server of one engine. -/
def oneEngine : Cluster where
  numServers := 1
  numThreads := fun _ => 1
  queryNum := 1
  shouldRunOnNode := fun _ => 0

/-- The engine draws the query, sends it, and finds the counter used up; the proxy queues it, hands
it out, and then refuses. -/
lemma run_oneEngine : ∃ s, Run oneEngine 12 s ∧ ¬ ∃ s', Step s s' := by
  let p : Fin oneEngine.numServers := (0 : Fin 1)
  let t : oneEngine.Thread := ⟨p, (0 : Fin 1)⟩
  have hrun : ∃ s, Run oneEngine 12 s ∧ (∀ t, (engineStep t s).isNone = true) ∧
      ∀ t p, (proxyStep t p s).isNone = true :=
    ⟨_, .step (.step (.step (.step (.step (.step (.step (.step (.step (.step (.step (.step .init
      (.engine t rfl)) (.engine t rfl)) (.engine t rfl)) (.proxy t p rfl)) (.engine t rfl))
      (.proxy t p rfl)) (.engine t rfl)) (.engine t rfl)) (.engine t rfl)) (.proxy t p rfl))
      (.engine t rfl)) (.engine t rfl), by decide, by decide⟩
  obtain ⟨s, hrun, hengine, hproxy⟩ := hrun
  refine ⟨s, hrun, ?_⟩
  rintro ⟨s', hs⟩
  cases hs with
  | engine t hstep => simpa [hstep] using hengine t
  | proxy t p hstep => simpa [hstep] using hproxy t p

/-- The work is done after twelve steps. -/
theorem schedule_ends_oneEngine : ∃ s, Run oneEngine 12 s ∧
    (12 ≤ oneEngine.maxSteps ∧ Finished s) := by
  obtain ⟨s, hrun, hstuck⟩ := run_oneEngine
  obtain ⟨hle, hend⟩ := schedule_ends hrun
  exact ⟨s, hrun, hle, hend.resolve_left hstuck⟩

end Schedule

end RedAnns
