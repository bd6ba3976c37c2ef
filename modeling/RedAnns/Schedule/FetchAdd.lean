import RedAnns.Schedule.Termination

/-!
The shared counter of the dynamic scheduling, as it is implemented.

`rdma_fetch_add` (`tests/test_search_distributed.cpp`) posts a fetch-and-add on the eight bytes at
`ring_offset(0, 0)` of server 0 and polls for its completion; the network card of server 0 executes
it at some moment in between, and the old value goes to the buffer of the thread. Other threads,
their own requests and the proxies may make any steps meanwhile.

* `postFetchAndAdd`, `execute`, `pollCompletion`: the three parts of a call.
* `Machine.abs`: the state of the scheduling that a state of this machine stands for. There a call
  is one step, at the moment of its execution.
* `fetchAdd_refines`: this machine refines the scheduling, so that it ends as well, and with every
  query run once.
-/

namespace RedAnns

namespace Schedule

variable {c : Cluster}

/-! ### Steps that do not draw -/

section Frame

variable {s s' : State c} {t : c.Thread} {p : Fin c.numServers}

/-- A step of an engine reads and writes no other engine. -/
lemma engineStep_engines (engines : c.Thread → Engine c) (h : engines t = s.engines t) :
    engineStep t { s with engines } = (engineStep t s).map fun s' =>
      { s' with engines := Function.update engines t (s'.engines t) } := by
  rw [engineStep, engineStep]
  simp only [h]
  cases hpt : (s.engines t).point with
  | dispatch => simp [State.setEngine, State.fetchAdd]
  | send qid => simp [State.setEngine, State.send]
  | execute =>
      simp only
      split_ifs <;> simp [State.setEngine, State.send]
  | recv =>
      cases hrep : s.replies ((s.engines t).dsid, t.1) with
      | nil => rfl
      | cons reply rest => cases reply <;> simp [State.setEngine, State.setReplies]
  | search qid => simp [State.setEngine, State.hand]
  | left => rfl

/-- A step of a proxy reads and writes no engine. -/
lemma proxyStep_engines (engines : c.Thread → Engine c) :
    proxyStep t p { s with engines } = (proxyStep t p s).map fun s' => { s' with engines } := by
  rw [proxyStep, proxyStep]
  cases hreq : s.requests (t, p) with
  | nil => rfl
  | cons m rest =>
      cases m with
      | enqueue qid => rfl
      | dequeueHighAffinity => cases hpop : popBack (s.taskQueue p) <;> rfl
      | dequeueLowAffinity => cases hpop : popFront (s.taskQueue p) <;> rfl

lemma engines_of_engineStep (h : engineStep t s = some s') :
    s'.engines = Function.update s.engines t (s'.engines t) := by
  have heq : engineStep t s = (engineStep t s).map fun s' =>
      { s' with engines := Function.update s.engines t (s'.engines t) } :=
    engineStep_engines s.engines rfl
  rw [h] at heq
  exact congrArg State.engines (Option.some.inj heq)

lemma engines_of_proxyStep (h : proxyStep t p s = some s') : s'.engines = s.engines := by
  have heq : proxyStep t p s = (proxyStep t p s).map fun s' =>
      { s' with engines := s.engines } := proxyStep_engines s.engines
  rw [h] at heq
  have hsame : s' = { s' with engines := s.engines } := Option.some.inj heq
  rw [hsame]

lemma counter_of_engineStep (hpt : (s.engines t).point ≠ .dispatch)
    (h : engineStep t s = some s') : s'.counter = s.counter := by
  rw [engineStep] at h
  cases hpt' : (s.engines t).point with
  | dispatch => exact absurd hpt' hpt
  | send qid =>
      simp only [hpt', Option.some.injEq] at h
      exact h ▸ rfl
  | execute =>
      simp only [hpt'] at h
      split_ifs at h <;> exact Option.some.inj h ▸ rfl
  | recv =>
      simp only [hpt'] at h
      cases hrep : s.replies ((s.engines t).dsid, t.1) with
      | nil => simp [hrep] at h
      | cons reply rest =>
          cases reply with
          | dequeueSucc qid => exact Option.some.inj (by simpa only [hrep] using h) ▸ rfl
          | dequeueFail => exact Option.some.inj (by simpa only [hrep] using h) ▸ rfl
  | search qid =>
      simp only [hpt', Option.some.injEq] at h
      exact h ▸ rfl
  | left => simp [hpt'] at h

lemma counter_of_proxyStep (h : proxyStep t p s = some s') : s'.counter = s.counter := by
  rw [proxyStep] at h
  cases hreq : s.requests (t, p) with
  | nil => simp [hreq] at h
  | cons m rest =>
      cases m with
      | enqueue qid =>
          simp only [hreq, Option.some.injEq] at h
          exact h ▸ rfl
      | dequeueHighAffinity =>
          simp only [hreq, Option.some.injEq] at h
          subst h
          cases popBack (s.taskQueue p) <;> rfl
      | dequeueLowAffinity =>
          simp only [hreq, Option.some.injEq] at h
          subst h
          cases popFront (s.taskQueue p) <;> rfl

/-- The engines that still draw queries. -/
def dispatching (engines : c.Thread → Engine c) : ℕ :=
  tally (fun _ e => if e.point.dispatches then 1 else 0) engines

lemma dispatching_le (engines : c.Thread → Engine c) :
    dispatching engines ≤ Fintype.card c.Thread := by
  have hone : ∀ t ∈ Finset.univ, (if (engines t).point.dispatches then 1 else 0) ≤ 1 := by
    intro t _
    split_ifs <;> simp
  simpa [dispatching, tally] using Finset.sum_le_sum hone

lemma dispatching_pos {engines : c.Thread → Engine c} (h : (engines t).point = .dispatch) :
    0 < dispatching engines := by
  refine Nat.lt_of_lt_of_le ?_ (le_tally _ engines t)
  simp [h, Point.dispatches]

/-- A move of an engine within one of its two loops. -/
lemma dispatching_of_eq {engines : c.Thread → Engine c} {e : Engine c}
    (h : e.point.dispatches = (engines t).point.dispatches) :
    dispatching (Function.update engines t e) = dispatching engines :=
  tally_update_of_eq (by rw [h])

/-- **The counter stays small**: after the last query every engine draws once. -/
lemma Reachable.counter_le (h : Reachable c s) :
    s.counter + dispatching s.engines ≤ c.queryNum + Fintype.card c.Thread := by
  induction h with
  | init => simpa [State.init] using (dispatching_le _).trans (Nat.le_add_left _ _)
  | @step s s' _ hs ih =>
      have hsame : ∀ {t : c.Thread} {e : Engine c},
          e.point.dispatches = (s.engines t).point.dispatches →
          s.counter + dispatching (Function.update s.engines t e)
            ≤ c.queryNum + Fintype.card c.Thread := fun heq =>
        (congrArg (s.counter + ·) (dispatching_of_eq heq)).trans_le ih
      cases moves_of_step hs with
      | draw t hpt hlt =>
          have hle := dispatching_le
            (Function.update s.engines t ((s.engines t).goTo (.send s.counter)))
          simp only [State.setEngine, State.fetchAdd]
          omega
      | usedUp t hpt hle =>
          have hu := tally_update
            (fun _ (e : Engine c) => if e.point.dispatches then 1 else 0) s.engines t
            ((s.engines t).goTo .execute)
          have hdispatch : Point.dispatch.dispatches = true := rfl
          have hexecute : Point.execute.dispatches = false := rfl
          simp only [hpt, Engine.point_goTo, hdispatch, hexecute, if_true, Bool.false_eq_true,
            if_false] at hu
          simp only [State.setEngine, State.fetchAdd, dispatching] at ih ⊢
          omega
      | enqueue t p qid hpt => exact hsame (by simp [hpt, Point.dispatches])
      | leave t hpt hzero => exact hsame (by simp [hpt, Point.dispatches])
      | ask t p m hm hpt hhas => exact hsame (by simp [hpt, Point.dispatches])
      | skip t p hpt => exact hsame (by simp)
      | recvSucc t qid rest hpt hrep => exact hsame (by simp [hpt, Point.dispatches])
      | recvFail t rest hpt hrep => exact hsame (by simp [hpt, Point.dispatches])
      | hand t qid hpt => exact hsame (by simp [hpt, Point.dispatches])
      | push t p qid rest hreq => exact ih
      | refuse t p m rest hm hreq hq => exact ih
      | serve t p m rest qid queue hm hreq hq => exact ih

end Frame

namespace FetchAdd

/-! ### The machine -/

/-- Where the call of a thread stands: it has not posted, or it has, or there is a completion. -/
inductive Atomic
  | idle
  | posted
  | completed
  deriving DecidableEq

/-- The cluster, the eight bytes of the counter, and what the thread has of its call: the first
eight bytes of its buffer, and where the call stands. Of the counter of `state` the programs know
nothing; it says how many calls were executed. -/
structure Machine (c : Cluster) where
  state : State c
  ring : UInt64
  buffer : c.Thread → UInt64
  atomic : c.Thread → Atomic

/-- `Mem` fills its memory with zeros. -/
def Machine.init (c : Cluster) : Machine c := ⟨.init c, 0, fun _ => 0, fun _ => .idle⟩

/-- Where an engine goes with the id that it has drawn. -/
def drawn (c : Cluster) (qid : ℕ) : Point := if qid < c.queryNum then .send qid else .execute

/-- `rc_post_fetch_and_add`. -/
def postFetchAndAdd (t : c.Thread) (m : Machine c) : Option (Machine c) :=
  if (m.state.engines t).point = .dispatch ∧ m.atomic t = .idle then
    some { m with atomic := Function.update m.atomic t .posted }
  else none

/-- The network card executes a request. -/
def execute (t : c.Thread) (m : Machine c) : Option (Machine c) :=
  if m.atomic t = .posted then
    some
      { state := m.state.fetchAdd
        ring := m.ring + 1
        buffer := Function.update m.buffer t m.ring
        atomic := Function.update m.atomic t .completed }
  else none

/-- `poll_completion`, and what the engine makes of the old value. -/
def pollCompletion (t : c.Thread) (m : Machine c) : Option (Machine c) :=
  if m.atomic t = .completed then
    some { m with
      state := m.state.setEngine t ((m.state.engines t).goTo (drawn c (m.buffer t).toNat))
      atomic := Function.update m.atomic t .idle }
  else none

/-- A step of an engine that does not draw. -/
def otherStep (t : c.Thread) (m : Machine c) : Option (Machine c) :=
  if (m.state.engines t).point = .dispatch then none
  else (engineStep t m.state).map fun state => { m with state }

/-- A step of any program, or of a network card. -/
inductive Step (m m' : Machine c) : Prop
  | post (t : c.Thread) : postFetchAndAdd t m = some m' → Step m m'
  | execute (t : c.Thread) : execute t m = some m' → Step m m'
  | poll (t : c.Thread) : pollCompletion t m = some m' → Step m m'
  | engine (t : c.Thread) : otherStep t m = some m' → Step m m'
  | proxy (t : c.Thread) (p : Fin c.numServers) {state : State c} :
      proxyStep t p m.state = some state → m' = { m with state } → Step m m'

/-- The states that runs of `n` steps reach. -/
inductive Run (c : Cluster) : ℕ → Machine c → Prop
  | init : Run c 0 (Machine.init c)
  | step {n : ℕ} {m m' : Machine c} : Run c n m → Step m m' → Run c (n + 1) m'

/-! ### What it stands for -/

/-- An engine whose call is executed has drawn already. -/
def Machine.advanced (m : Machine c) (t : c.Thread) : Engine c :=
  if m.atomic t = .completed then (m.state.engines t).goTo (drawn c (m.buffer t).toNat)
  else m.state.engines t

/-- **The state of the scheduling** that a state of the machine stands for. -/
def Machine.abs (m : Machine c) : State c := { m.state with engines := m.advanced }

/-- **The invariant**: the counter is the number of executions, modulo 2^64, and only an engine that
draws has a call. -/
structure Inv (m : Machine c) : Prop where
  ring : m.ring.toNat = m.state.counter % 2 ^ 64
  calls : ∀ t, m.atomic t ≠ .idle → (m.state.engines t).point = .dispatch

/-- What a call has to do. -/
def toDo : Atomic × Point → ℕ
  | (.idle, .dispatch) => 2
  | (.idle, _) => 0
  | (.posted, _) => 1
  | (.completed, _) => 1

/-- The calls of the threads. -/
def Machine.calls (m : Machine c) (t : c.Thread) : Atomic × Point :=
  (m.atomic t, (m.state.engines t).point)

/-- **What is left to do**: three steps for each one of the scheduling, and the calls that are on
their way. -/
def stepsLeft (m : Machine c) : ℕ := 3 * Schedule.stepsLeft m.abs + tally (fun _ => toDo) m.calls

/-! ### Every step is one of the scheduling, or none -/

section Steps

variable {m m' : Machine c} {t : c.Thread} {p : Fin c.numServers}

lemma advanced_of_idle (h : m.atomic t = .idle) : m.advanced t = m.state.engines t := by
  rw [Machine.advanced, if_neg (by simp [h])]

lemma advanced_of_posted (h : m.atomic t = .posted) : m.advanced t = m.state.engines t := by
  rw [Machine.advanced, if_neg (by simp [h])]

lemma toDo_le (a : Atomic × Point) : toDo a ≤ 2 := by
  rcases a with ⟨_ | _ | _, pt⟩
  · cases pt <;> simp [toDo]
  · simp [toDo]
  · simp [toDo]

/-- **A call is posted.** This is no step of the scheduling. -/
lemma post_spec (h : Inv m) (hs : postFetchAndAdd t m = some m') :
    Inv m' ∧ m'.abs = m.abs ∧ stepsLeft m' < stepsLeft m := by
  rw [postFetchAndAdd] at hs
  split_ifs at hs with hcond
  obtain ⟨hpt, hidle⟩ := hcond
  obtain rfl := Option.some.inj hs
  have habs : Machine.abs { m with atomic := Function.update m.atomic t .posted } = m.abs := by
    refine congrArg (fun engines => ({ m.state with engines } : State c)) (funext fun u => ?_)
    by_cases hu : u = t
    · subst hu
      rw [advanced_of_posted (Function.update_self ..), advanced_of_idle hidle]
    · simp only [Machine.advanced, Function.update_of_ne hu]
  have hcalls : Machine.calls { m with atomic := Function.update m.atomic t .posted }
      = Function.update m.calls t (.posted, .dispatch) := by
    funext u
    by_cases hu : u = t
    · subst hu
      simp [Machine.calls, hpt]
    · simp [Machine.calls, Function.update_of_ne hu]
  refine ⟨⟨h.ring, fun u hne => ?_⟩, habs, ?_⟩
  · by_cases hu : u = t
    · exact hu ▸ hpt
    · exact h.calls u (by simpa [Function.update_of_ne hu] using hne)
  · have hu := tally_update (fun _ => toDo) m.calls t (.posted, .dispatch)
    have ht : m.calls t = (.idle, .dispatch) := by rw [Machine.calls, hidle, hpt]
    simp only [ht, toDo] at hu
    rw [stepsLeft, stepsLeft, habs, hcalls]
    omega

/-- **A call is executed.** This is the step of the scheduling that draws. -/
lemma execute_spec (hroom : c.queryNum + Fintype.card c.Thread ≤ 2 ^ 64) (h : Inv m)
    (habs : Reachable c m.abs) (hs : execute t m = some m') :
    Inv m' ∧ Schedule.Step m.abs m'.abs ∧ stepsLeft m' < stepsLeft m := by
  rw [execute] at hs
  split_ifs at hs with hposted
  have hpt : (m.state.engines t).point = .dispatch := h.calls t (by simp [hposted])
  have hsame : m.abs.engines t = m.state.engines t := advanced_of_posted hposted
  -- the counter has not wrapped around, since this engine has not drawn its last number
  have hlt : m.state.counter < 2 ^ 64 := by
    have hle : m.state.counter + dispatching m.abs.engines ≤ _ := habs.counter_le
    have hpos : 0 < dispatching m.abs.engines := dispatching_pos (by rw [hsame, hpt])
    omega
  have hring : m.ring.toNat = m.state.counter := h.ring.trans (Nat.mod_eq_of_lt hlt)
  obtain rfl := Option.some.inj hs
  set m' : Machine c :=
    { state := m.state.fetchAdd
      ring := m.ring + 1
      buffer := Function.update m.buffer t m.ring
      atomic := Function.update m.atomic t .completed }
  have hstep : Schedule.Step m.abs m'.abs := by
    refine .engine t ?_
    rw [engineStep]
    simp only [hsame, hpt]
    refine congrArg (fun engines => some ({ m.state.fetchAdd with engines } : State c))
      (funext fun u => ?_)
    show Function.update m.advanced t _ u = m'.advanced u
    by_cases hu : u = t
    · subst hu
      rw [Function.update_self, Machine.advanced, if_pos (Function.update_self ..)]
      show _ = (m.state.engines u).goTo (drawn c (Function.update m.buffer u m.ring u).toNat)
      rw [Function.update_self, hring]
      rfl
    · rw [Function.update_of_ne hu]
      simp only [Machine.advanced, m', Function.update_of_ne hu]
      rfl
  have hcalls : m'.calls = Function.update m.calls t (.completed, .dispatch) := by
    funext u
    by_cases hu : u = t
    · subst hu
      rw [Function.update_self]
      exact Prod.ext (Function.update_self ..) hpt
    · rw [Function.update_of_ne hu]
      exact Prod.ext (Function.update_of_ne hu ..) rfl
  refine ⟨⟨?_, fun u hne => ?_⟩, hstep, ?_⟩
  · show (m.ring + 1).toNat = (m.state.counter + 1) % 2 ^ 64
    rw [UInt64.toNat_add, hring]
    rfl
  · by_cases hu : u = t
    · exact hu ▸ hpt
    · exact h.calls u fun hidle => hne ((Function.update_of_ne hu ..).trans hidle)
  · have hu := tally_update (fun _ => toDo) m.calls t (.completed, .dispatch)
    have ht : m.calls t = (.posted, .dispatch) := by rw [Machine.calls, hposted, hpt]
    simp only [ht, toDo] at hu
    have hless := Schedule.stepsLeft_lt habs.inv hstep
    rw [stepsLeft, stepsLeft, hcalls]
    omega

/-- **A completion is polled.** The scheduling has made this step before. -/
lemma poll_spec (h : Inv m) (hs : pollCompletion t m = some m') :
    Inv m' ∧ m'.abs = m.abs ∧ stepsLeft m' < stepsLeft m := by
  rw [pollCompletion] at hs
  split_ifs at hs with hcompleted
  have hpt : (m.state.engines t).point = .dispatch := h.calls t (by simp [hcompleted])
  obtain rfl := Option.some.inj hs
  set e := (m.state.engines t).goTo (drawn c (m.buffer t).toNat) with he
  set m' : Machine c :=
    { m with state := m.state.setEngine t e, atomic := Function.update m.atomic t .idle }
  have habs : m'.abs = m.abs := by
    refine congrArg (fun engines => ({ m.state with engines } : State c)) (funext fun u => ?_)
    by_cases hu : u = t
    · subst hu
      rw [advanced_of_idle (Function.update_self ..), Machine.advanced, if_pos hcompleted, ← he]
      exact Function.update_self ..
    · simp only [Machine.advanced, m', State.setEngine, Function.update_of_ne hu]
  have hcalls : m'.calls = Function.update m.calls t (.idle, e.point) := by
    funext u
    by_cases hu : u = t
    · subst hu
      simp [Machine.calls, m', State.setEngine]
    · simp [Machine.calls, m', State.setEngine, Function.update_of_ne hu]
  have hdrawn : toDo (.idle, e.point) = 0 := by
    rw [he, Engine.point_goTo, drawn]
    split_ifs <;> rfl
  refine ⟨⟨h.ring, fun u hne => ?_⟩, habs, ?_⟩
  · have hu : u ≠ t := fun hu => hne (hu ▸ Function.update_self ..)
    show (Function.update m.state.engines t e u).point = .dispatch
    rw [Function.update_of_ne hu]
    exact h.calls u fun hidle => hne ((Function.update_of_ne hu ..).trans hidle)
  · have hu := tally_update (fun _ => toDo) m.calls t (.idle, e.point)
    have ht : m.calls t = (.completed, .dispatch) := by rw [Machine.calls, hcompleted, hpt]
    rw [hdrawn, ht] at hu
    simp only [toDo] at hu
    rw [stepsLeft, stepsLeft, habs, hcalls]
    omega

/-- **Another step of an engine** is a step of the scheduling. -/
lemma other_spec (h : Inv m) (habs : Reachable c m.abs) (hs : otherStep t m = some m') :
    Inv m' ∧ Schedule.Step m.abs m'.abs ∧ stepsLeft m' < stepsLeft m := by
  rw [otherStep] at hs
  split_ifs at hs with hpt
  obtain ⟨s', hstep', rfl⟩ := Option.map_eq_some_iff.mp hs
  have hidle : m.atomic t = .idle := by
    by_contra hne
    exact hpt (h.calls t hne)
  have hengines := engines_of_engineStep hstep'
  have hother : ∀ u, u ≠ t → s'.engines u = m.state.engines u := fun u hu => by
    rw [hengines, Function.update_of_ne hu]
  have hstep : Schedule.Step m.abs (Machine.abs { m with state := s' }) := by
    refine .engine t ?_
    rw [Machine.abs, engineStep_engines m.advanced (advanced_of_idle hidle), hstep',
      Option.map_some]
    refine congrArg (fun engines => some ({ s' with engines } : State c)) (funext fun u => ?_)
    by_cases hu : u = t
    · subst hu
      have hsame : Machine.advanced { m with state := s' } u = s'.engines u :=
        advanced_of_idle hidle
      rw [Function.update_self, hsame]
    · rw [Function.update_of_ne hu, Machine.advanced, Machine.advanced, hother u hu]
  have hcalls : Machine.calls { m with state := s' }
      = Function.update m.calls t (.idle, (s'.engines t).point) := by
    funext u
    by_cases hu : u = t
    · subst hu
      rw [Function.update_self, Machine.calls, hidle]
    · rw [Function.update_of_ne hu, Machine.calls, Machine.calls, hother u hu]
  refine ⟨⟨?_, fun u hne => ?_⟩, hstep, ?_⟩
  · rw [counter_of_engineStep hpt hstep']
    exact h.ring
  · have hu : u ≠ t := fun hu => hne (hu ▸ hidle)
    rw [hother u hu]
    exact h.calls u hne
  · have hu := tally_update (fun _ => toDo) m.calls t (.idle, (s'.engines t).point)
    have hle := toDo_le (.idle, (s'.engines t).point)
    have hless := Schedule.stepsLeft_lt habs.inv hstep
    rw [stepsLeft, stepsLeft, hcalls]
    omega

/-- **A step of a proxy** is a step of the scheduling. -/
lemma proxy_spec (h : Inv m) (habs : Reachable c m.abs) {s' : State c}
    (hs : proxyStep t p m.state = some s') :
    Inv { m with state := s' } ∧ Schedule.Step m.abs (Machine.abs { m with state := s' }) ∧
      stepsLeft { m with state := s' } < stepsLeft m := by
  have hengines := engines_of_proxyStep hs
  have hadvanced : Machine.advanced { m with state := s' } = m.advanced := by
    funext u
    rw [Machine.advanced, Machine.advanced, hengines]
  have hstep : Schedule.Step m.abs (Machine.abs { m with state := s' }) := by
    refine .proxy t p ?_
    rw [Machine.abs, Machine.abs, proxyStep_engines, hs, Option.map_some, hadvanced]
  have hcalls : Machine.calls { m with state := s' } = m.calls := by
    funext u
    rw [Machine.calls, Machine.calls, hengines]
  refine ⟨⟨?_, fun u hne => ?_⟩, hstep, ?_⟩
  · rw [counter_of_proxyStep hs]
    exact h.ring
  · rw [hengines]
    exact h.calls u hne
  · have hless := Schedule.stepsLeft_lt habs.inv hstep
    rw [stepsLeft, stepsLeft, hcalls]
    omega

/-- **Every step of the machine** is one of the scheduling, or none. -/
theorem step_spec (hroom : c.queryNum + Fintype.card c.Thread ≤ 2 ^ 64) (h : Inv m)
    (habs : Reachable c m.abs) (hs : Step m m') :
    Inv m' ∧ (m'.abs = m.abs ∨ Schedule.Step m.abs m'.abs) ∧ stepsLeft m' < stepsLeft m := by
  cases hs with
  | post t hs =>
      obtain ⟨hinv, heq, hlt⟩ := post_spec h hs
      exact ⟨hinv, Or.inl heq, hlt⟩
  | execute t hs =>
      obtain ⟨hinv, hstep, hlt⟩ := execute_spec hroom h habs hs
      exact ⟨hinv, Or.inr hstep, hlt⟩
  | poll t hs =>
      obtain ⟨hinv, heq, hlt⟩ := poll_spec h hs
      exact ⟨hinv, Or.inl heq, hlt⟩
  | engine t hs =>
      obtain ⟨hinv, hstep, hlt⟩ := other_spec h habs hs
      exact ⟨hinv, Or.inr hstep, hlt⟩
  | proxy t p hs heq =>
      obtain ⟨hinv, hstep, hlt⟩ := proxy_spec h habs hs
      exact heq ▸ ⟨hinv, Or.inr hstep, hlt⟩

end Steps

/-! ### Whole runs -/

section Runs

variable {m : Machine c} {n : ℕ}

/-- As many steps as a run can make. -/
def maxSteps (c : Cluster) : ℕ := 3 * c.maxSteps + 2 * Fintype.card c.Thread

lemma stepsLeft_init (c : Cluster) : stepsLeft (Machine.init c) = maxSteps c := by
  have habs : (Machine.init c).abs = State.init c := rfl
  have hcalls : tally (fun _ => toDo) (Machine.init c).calls = 2 * Fintype.card c.Thread := by
    simp [tally, Machine.calls, Machine.init, State.init, toDo, Nat.mul_comm]
  rw [stepsLeft, habs, Schedule.stepsLeft_init, hcalls, maxSteps]

lemma Run.spec (hroom : c.queryNum + Fintype.card c.Thread ≤ 2 ^ 64) (h : Run c n m) :
    Inv m ∧ Reachable c m.abs ∧ n + stepsLeft m ≤ maxSteps c := by
  induction h with
  | init =>
      refine ⟨⟨rfl, fun t hne => absurd rfl hne⟩, .init, ?_⟩
      rw [stepsLeft_init, Nat.zero_add]
  | step _ hs ih =>
      obtain ⟨hinv, habs, hle⟩ := ih
      obtain ⟨hinv', hstep, hlt⟩ := step_spec hroom hinv habs hs
      refine ⟨hinv', ?_, by omega⟩
      rcases hstep with heq | hstep
      · rwa [heq]
      · exact habs.step hstep

/-- An engine that draws can go on with its call. -/
lemma exists_step_of_dispatch {t : c.Thread} (hpt : (m.state.engines t).point = .dispatch) :
    ∃ m', Step m m' := by
  cases hcall : m.atomic t with
  | idle => exact ⟨_, .post t (if_pos ⟨hpt, hcall⟩)⟩
  | posted => exact ⟨_, .execute t (if_pos hcall)⟩
  | completed => exact ⟨_, .poll t (if_pos hcall)⟩

/-- **No state is stuck** before the work is done. -/
lemma Inv.exists_step_or_finished (h : Inv m) (habs : Reachable c m.abs) :
    (∃ m', Step m m') ∨ Finished m.state := by
  by_cases hdraws : ∃ t, (m.state.engines t).point = .dispatch
  · obtain ⟨t, hpt⟩ := hdraws
    exact Or.inl (exists_step_of_dispatch hpt)
  · rw [not_exists] at hdraws
    -- there is no call, so the machine is in the state that it stands for
    have hidle : ∀ t, m.atomic t = .idle := fun t => by
      by_contra hne
      exact hdraws t (h.calls t hne)
    have hsame : m.abs = m.state := congrArg
      (fun engines => ({ m.state with engines } : State c))
      (funext fun t => advanced_of_idle (hidle t))
    rw [hsame] at habs
    refine habs.inv.exists_step_or_finished.imp_left ?_
    rintro ⟨s', hs⟩
    cases hs with
    | engine t hstep =>
        exact ⟨_, .engine t ((if_neg (hdraws t)).trans
          (Option.map_eq_some_iff.mpr ⟨s', hstep, rfl⟩))⟩
    | proxy t p hstep => exact ⟨_, .proxy t p hstep rfl⟩

/-- **The machine refines the scheduling**: whatever it does stands for an interleaving of the
scheduling, it ends, and it ends with every query run once. -/
theorem fetchAdd_refines (hroom : c.queryNum + Fintype.card c.Thread ≤ 2 ^ 64) (h : Run c n m) :
    Reachable c m.abs ∧ n ≤ maxSteps c ∧ ((∃ m', Step m m') ∨ Finished m.state) := by
  obtain ⟨hinv, habs, hle⟩ := h.spec hroom
  exact ⟨habs, (Nat.le_add_right n _).trans hle, hinv.exists_step_or_finished habs⟩

/-- The engine of the one server draws the query, and then finds the counter used up. -/
theorem fetchAdd_refines_oneEngine : ∃ m, Run oneEngine 16 m ∧
    (Reachable oneEngine m.abs ∧ 16 ≤ maxSteps oneEngine ∧ Finished m.state) := by
  let p : Fin oneEngine.numServers := (0 : Fin 1)
  let t : oneEngine.Thread := ⟨p, (0 : Fin 1)⟩
  have hrun : ∃ m, Run oneEngine 16 m ∧ (∀ t, (postFetchAndAdd t m).isNone = true ∧
      (execute t m).isNone = true ∧ (pollCompletion t m).isNone = true ∧
      (otherStep t m).isNone = true) ∧ ∀ t p, (proxyStep t p m.state).isNone = true :=
    ⟨_, .step (.step (.step (.step (.step (.step (.step (.step (.step (.step (.step (.step (.step
      (.step (.step (.step .init (.post t rfl)) (.execute t rfl)) (.poll t rfl)) (.engine t rfl))
      (.post t rfl)) (.proxy t p rfl rfl)) (.execute t rfl)) (.poll t rfl)) (.engine t rfl))
      (.proxy t p rfl rfl)) (.engine t rfl)) (.engine t rfl)) (.engine t rfl)) (.proxy t p rfl rfl))
      (.engine t rfl)) (.engine t rfl), by decide, by decide⟩
  obtain ⟨m, hrun, hthread, hproxy⟩ := hrun
  obtain ⟨habs, hle, hend⟩ := fetchAdd_refines (by decide) hrun
  refine ⟨m, hrun, habs, hle, hend.resolve_left ?_⟩
  rintro ⟨m', hs⟩
  cases hs with
  | post t hstep => simpa [hstep] using (hthread t).1
  | execute t hstep => simpa [hstep] using (hthread t).2.1
  | poll t hstep => simpa [hstep] using (hthread t).2.2.1
  | engine t hstep => simpa [hstep] using (hthread t).2.2.2
  | proxy t p hstep heq => simpa [hstep] using hproxy t p

end Runs

end FetchAdd

end Schedule

end RedAnns
