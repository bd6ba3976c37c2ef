import RedAnns.Schedule.Conservation

/-!
The dynamic scheduling runs every query once.

* `EnginesSound`: the local variables of the engines, and the order of their messages: what an
  engine has sent to a proxy it sent before it asked it for queries.
* `Refillable`: while a queue holds a query, some server has not been refused by it as often as it
  has engines; an engine that sends a query has not been refused yet (`refused_lt_crew`).
* `Reachable.inv`: the invariant of all interleavings.
* `runsOnce_iff`: every query is run once exactly if there is an engine, or no query.
-/

namespace RedAnns

namespace Schedule

variable {c : Cluster} {s s' : State c}

/-! ### The engines -/

/-- The engine still draws queries. -/
def Point.dispatches : Point → Bool
  | .dispatch => true
  | .send _ => true
  | .execute => false
  | .recv => false
  | .search _ => false
  | .left => false

/-- **The local variables of an engine** fit its place in the program. -/
structure Engine.Sound (e : Engine c) (counter : ℕ) : Prop where
  nsvr : e.nsvrHasQuery = tally (fun _ b => if b then 1 else 0) e.hasQuery
  waits : e.point = .recv → e.hasQuery e.dsid = true
  early : e.point.dispatches = true → ∀ p, e.hasQuery p = true
  late : e.point.dispatches = false → c.queryNum ≤ counter
  gone : e.point = .left → ∀ p, e.hasQuery p = false

/-- The engine has asked the proxy `p` and been refused, or waits for its reply. -/
def Engine.hasAsked (e : Engine c) (p : Fin c.numServers) : Prop :=
  e.hasQuery p = false ∨ e.waitsFor p

/-- **The messages of an engine to a proxy** are in order: first queries, then requests; and behind
a query there is a request, if the engine has made one. -/
def InOrder (e : Engine c) (p : Fin c.numServers) (l : List Request) : Prop :=
  ∃ (qids : List ℕ) (ds : List Request), l = qids.map .enqueue ++ ds ∧
    (∀ m ∈ ds, m.isDequeue = true) ∧ (e.point.dispatches = true → ds = []) ∧
      (e.hasAsked p → qids ≠ [] → ds ≠ [])

/-- All engines are sound, and their messages in order. -/
structure EnginesSound (s : State c) : Prop where
  sound : ∀ t, (s.engines t).Sound s.counter
  inOrder : ∀ t p, InOrder (s.engines t) p (s.requests (t, p))

section Engines

variable {e : Engine c} {counter : ℕ}

/-- An engine that goes on in the second loop. -/
lemma Engine.Sound.goTo (h : e.Sound counter) (hpt : e.point.dispatches = false) {pt : Point}
    (hpt' : pt.dispatches = false) (hrecv : pt ≠ .recv) (hleft : pt ≠ .left) :
    (e.goTo pt).Sound counter where
  nsvr := h.nsvr
  waits := fun h' => absurd h' hrecv
  early := fun h' => absurd h' (by simp [hpt'])
  late := fun _ => h.late hpt
  gone := fun h' => absurd h' hleft

/-- An engine that was refused. -/
lemma Engine.Sound.refused (h : e.Sound counter) (hpt : e.point = .recv) :
    e.refused.Sound counter where
  nsvr := by
    have hu := tally_update (fun _ b => if b then 1 else 0) e.hasQuery e.dsid false
    have hn := h.nsvr
    rw [h.waits hpt] at hu
    simp only [Bool.false_eq_true, if_false, if_true] at hu
    show e.nsvrHasQuery - 1 = tally _ (Function.update e.hasQuery e.dsid false)
    omega
  waits := fun h' => absurd h' (by simp)
  early := fun h' => absurd h' (by simp [Point.dispatches])
  late := fun _ => h.late (by rw [hpt]; rfl)
  gone := fun h' => absurd h' (by simp)

lemma Engine.Sound.mono (h : e.Sound counter) {counter' : ℕ} (hle : counter ≤ counter') :
    e.Sound counter' :=
  { h with late := fun h' => (h.late h').trans hle }

/-- An engine that has asked no more than before. -/
lemma InOrder.of_engine {e' : Engine c} {p : Fin c.numServers} {l : List Request}
    (h : InOrder e p l) (hdis : e'.point.dispatches = true → e.point.dispatches = true)
    (hask : e'.hasAsked p → e.hasAsked p) : InOrder e' p l := by
  obtain ⟨qids, ds, hl, hds, hearly, hlast⟩ := h
  exact ⟨qids, ds, hl, hds, fun h' => hearly (hdis h'), fun h' => hlast (hask h')⟩

/-- The first message is received. -/
lemma InOrder.tail {p : Fin c.numServers} {m : Request} {rest : List Request}
    (h : InOrder e p (m :: rest)) : InOrder e p rest := by
  obtain ⟨qids, ds, hl, hds, hearly, hlast⟩ := h
  cases qids with
  | nil =>
      have hds' : ds = m :: rest := by rw [hl]; rfl
      subst hds'
      refine ⟨[], rest, rfl, fun m' hm' => hds m' (List.mem_cons_of_mem m hm'), fun h' => ?_,
        fun _ hne => absurd rfl hne⟩
      exact absurd (hearly h') (by simp)
  | cons qid qids =>
      rw [List.map_cons, List.cons_append, List.cons.injEq] at hl
      exact ⟨qids, ds, hl.2, hds, hearly, fun h' _ => hlast h' (by simp)⟩

/-- A query is sent. -/
lemma InOrder.send_query {p : Fin c.numServers} {l : List Request} (h : InOrder e p l)
    (hdis : e.point.dispatches = true) (hhas : e.hasQuery p = true) (qid : ℕ) :
    InOrder (e.goTo .dispatch) p (l ++ [.enqueue qid]) := by
  obtain ⟨qids, ds, hl, hds, hearly, hlast⟩ := h
  have hnil : ds = [] := hearly hdis
  subst hnil
  refine ⟨qids ++ [qid], [], ?_, hds, fun _ => rfl, fun hask => ?_⟩
  · rw [hl, List.map_append, List.append_nil, List.append_nil]
    rfl
  · rcases hask with hno | hwait
    · exact absurd hno (by simp [hhas])
    · exact absurd hwait.1 (by simp)

/-- A request is sent. -/
lemma InOrder.send_request {p : Fin c.numServers} {l : List Request} (h : InOrder e p l)
    {m : Request} (hm : m.isDequeue = true) : InOrder (e.waitFor p) p (l ++ [m]) := by
  obtain ⟨qids, ds, hl, hds, -, -⟩ := h
  refine ⟨qids, ds ++ [m], by rw [hl, List.append_assoc], fun m' hm' => ?_,
    fun h' => absurd h' (by simp [Point.dispatches]), fun _ _ => by simp⟩
  rcases List.mem_append.mp hm' with hm' | hm'
  · exact hds m' hm'
  · rw [List.mem_singleton] at hm'
    exact hm' ▸ hm

lemma Engine.hasAsked_of_goTo {p : Fin c.numServers} {pt : Point} (hpt : pt ≠ .recv)
    (h : (e.goTo pt).hasAsked p) : e.hasAsked p :=
  h.imp id fun hwait => absurd hwait.1 hpt

/-- An engine that goes on in the same loop, or leaves the first. -/
lemma InOrder.goTo {p : Fin c.numServers} {l : List Request} (h : InOrder e p l) {pt : Point}
    (hpt : pt ≠ .recv) (hdis : pt.dispatches = true → e.point.dispatches = true) :
    InOrder (e.goTo pt) p l :=
  h.of_engine hdis (Engine.hasAsked_of_goTo hpt)

end Engines

/-- What one engine does leaves the others sound. -/
lemma EnginesSound.setEngine (h : EnginesSound s) {s₁ : State c} {t : c.Thread} {e : Engine c}
    (hengines : s₁.engines = s.engines) (hcounter : s.counter ≤ s₁.counter)
    (hothers : ∀ t' p, t' ≠ t → s₁.requests (t', p) = s.requests (t', p))
    (he : e.Sound s₁.counter) (horder : ∀ p, InOrder e p (s₁.requests (t, p))) :
    EnginesSound (s₁.setEngine t e) := by
  have hother : ∀ t', t' ≠ t → (s₁.setEngine t e).engines t' = s.engines t' := fun t' ht => by
    rw [← hengines]
    exact Function.update_of_ne ht ..
  have hself : (s₁.setEngine t e).engines t = e := Function.update_self ..
  refine ⟨fun t' => ?_, fun t' p => ?_⟩
  · by_cases ht : t' = t
    · subst ht
      rw [hself]
      exact he
    · rw [hother t' ht]
      exact (h.sound t').mono hcounter
  · by_cases ht : t' = t
    · subst ht
      rw [hself]
      exact horder p
    · rw [hother t' ht]
      show InOrder _ p (s₁.requests (t', p))
      rw [hothers t' p ht]
      exact h.inOrder t' p

/-- What a proxy receives leaves the engines sound. -/
lemma EnginesSound.setRequests (h : EnginesSound s) {t : c.Thread} {p : Fin c.numServers}
    {m : Request} {rest : List Request} (hreq : s.requests (t, p) = m :: rest)
    (hengines : s'.engines = s.engines) (hcounter : s'.counter = s.counter)
    (hrequests : s'.requests = Function.update s.requests (t, p) rest) : EnginesSound s' := by
  refine ⟨fun t' => ?_, fun t' p' => ?_⟩
  · rw [hengines, hcounter]
    exact h.sound t'
  · rw [hengines, hrequests, Function.update_apply]
    split_ifs with heq
    · rw [Prod.mk.injEq] at heq
      obtain ⟨rfl, rfl⟩ := heq
      have horder := h.inOrder t' p'
      rw [hreq] at horder
      exact horder.tail
    · exact h.inOrder t' p'

/-- **Every move keeps the engines sound.** -/
lemma EnginesSound.moves (h : EnginesSound s) (hm : Moves s s') : EnginesSound s' := by
  cases hm with
  | draw t hpt hlt =>
      have hdis : (s.engines t).point.dispatches = true := by rw [hpt]; rfl
      refine h.setEngine rfl (Nat.le_succ _) (fun _ _ _ => rfl) ?_ fun p => ?_
      · exact
          { nsvr := (h.sound t).nsvr
            waits := fun h' => absurd h' (by simp)
            early := fun _ => (h.sound t).early hdis
            late := fun h' => absurd h' (by simp [Point.dispatches])
            gone := fun h' => absurd h' (by simp) }
      · exact (h.inOrder t p).goTo (by simp) fun _ => hdis
  | usedUp t hpt hle =>
      have hdis : (s.engines t).point.dispatches = true := by rw [hpt]; rfl
      refine h.setEngine rfl (Nat.le_succ _) (fun _ _ _ => rfl) ?_ fun p => ?_
      · exact
          { nsvr := (h.sound t).nsvr
            waits := fun h' => absurd h' (by simp)
            early := fun h' => absurd h' (by simp [Point.dispatches])
            late := fun _ => hle.trans (Nat.le_succ _)
            gone := fun h' => absurd h' (by simp) }
      · exact (h.inOrder t p).goTo (by simp) fun _ => hdis
  | enqueue t p qid hpt =>
      have hdis : (s.engines t).point.dispatches = true := by rw [hpt]; rfl
      refine h.setEngine rfl le_rfl (fun t' p' ht => ?_) ?_ fun p' => ?_
      · exact Function.update_of_ne (fun heq => ht (congrArg Prod.fst heq)) ..
      · exact
          { nsvr := (h.sound t).nsvr
            waits := fun h' => absurd h' (by simp)
            early := fun _ => (h.sound t).early hdis
            late := fun h' => absurd h' (by simp [Point.dispatches])
            gone := fun h' => absurd h' (by simp) }
      · show InOrder _ p' (Function.update s.requests (t, p) _ (t, p'))
        rw [Function.update_apply]
        split_ifs with heq
        · have hp : p' = p := congrArg Prod.snd heq
          subst hp
          exact (h.inOrder t p').send_query hdis ((h.sound t).early hdis p') qid
        · exact (h.inOrder t p').goTo (by simp) fun _ => hdis
  | leave t hpt hzero =>
      have hdis : (s.engines t).point.dispatches = false := by rw [hpt]; rfl
      refine h.setEngine rfl le_rfl (fun _ _ _ => rfl) ?_ fun p => ?_
      · have hall := (h.sound t).nsvr.symm.trans hzero
        rw [tally_eq_zero] at hall
        exact
          { nsvr := (h.sound t).nsvr
            waits := fun h' => absurd h' (by simp)
            early := fun h' => absurd h' (by simp [Point.dispatches])
            late := fun _ => (h.sound t).late hdis
            gone := fun _ p => by simpa using hall p }
      · exact (h.inOrder t p).goTo (by simp) fun h' => absurd h' (by simp [Point.dispatches])
  | ask t p m hm hpt hhas =>
      have hdis : (s.engines t).point.dispatches = false := by rw [hpt]; rfl
      refine h.setEngine rfl le_rfl (fun t' p' ht => ?_) ?_ fun p' => ?_
      · exact Function.update_of_ne (fun heq => ht (congrArg Prod.fst heq)) ..
      · exact
          { nsvr := (h.sound t).nsvr
            waits := fun _ => hhas
            early := fun h' => absurd h' (by simp [Point.dispatches])
            late := fun _ => (h.sound t).late hdis
            gone := fun h' => absurd h' (by simp) }
      · show InOrder _ p' (Function.update s.requests (t, p) _ (t, p'))
        rw [Function.update_apply]
        split_ifs with heq
        · have hp : p' = p := congrArg Prod.snd heq
          subst hp
          exact (h.inOrder t p').send_request hm
        · refine (h.inOrder t p').of_engine (fun h' => absurd h' (by simp [Point.dispatches])) ?_
          rintro (hno | hwait)
          · exact Or.inl hno
          · exact absurd (by rw [← hwait.2]; rfl) heq
  | skip t p hpt =>
      have hrecv : (s.engines t).point ≠ .recv := by simp [hpt]
      refine h.setEngine rfl le_rfl (fun _ _ _ => rfl) ?_ fun p' => ?_
      · exact
          { nsvr := (h.sound t).nsvr
            waits := fun h' => absurd h' hrecv
            early := (h.sound t).early
            late := (h.sound t).late
            gone := (h.sound t).gone }
      · exact (h.inOrder t p').of_engine id fun hask => hask.imp id fun hw => absurd hw.1 hrecv
  | recvSucc t qid rest hpt hrep =>
      have hdis : (s.engines t).point.dispatches = false := by rw [hpt]; rfl
      refine h.setEngine rfl le_rfl (fun _ _ _ => rfl) ?_ fun p => ?_
      · exact (h.sound t).goTo hdis rfl (by simp) (by simp)
      · exact (h.inOrder t p).goTo (by simp) fun h' => absurd h' (by simp [Point.dispatches])
  | recvFail t rest hpt hrep =>
      refine h.setEngine rfl le_rfl (fun _ _ _ => rfl) ((h.sound t).refused hpt) fun p => ?_
      refine (h.inOrder t p).of_engine (fun h' => absurd h' (by simp [Point.dispatches])) ?_
      rintro (hno | hwait)
      · rw [Engine.hasQuery_refused, Function.update_apply] at hno
        by_cases hp : p = (s.engines t).dsid
        · exact Or.inr ⟨hpt, hp.symm⟩
        · rw [if_neg hp] at hno
          exact Or.inl hno
      · exact absurd hwait.1 (by simp)
  | hand t qid hpt =>
      have hdis : (s.engines t).point.dispatches = false := by rw [hpt]; rfl
      refine h.setEngine rfl le_rfl (fun _ _ _ => rfl) ?_ fun p => ?_
      · exact (h.sound t).goTo hdis rfl (by simp) (by simp)
      · exact (h.inOrder t p).goTo (by simp) fun h' => absurd h' (by simp [Point.dispatches])
  | push t p qid rest hreq => exact h.setRequests hreq rfl rfl rfl
  | refuse t p m rest hm hreq hqueue => exact h.setRequests hreq rfl rfl rfl
  | serve t p m rest qid queue hm hreq hqueue => exact h.setRequests hreq rfl rfl rfl

/-! ### Refusals -/

/-- The engines of the server `sid` that know that the proxy `p` has no query. -/
def failed (sid p : Fin c.numServers) (engines : c.Thread → Engine c) : ℕ :=
  tally (fun t e => if t.1 = sid ∧ e.hasQuery p = false then 1 else 0) engines

/-- How often the proxy `p` has refused the server `sid`: the engines that know of it, and the
refusals on their way. -/
def refusals (s : State c) (sid p : Fin c.numServers) : ℕ :=
  failed sid p s.engines + (s.replies (p, sid)).count .dequeueFail

/-- The engines of a server. -/
def crew (c : Cluster) (sid : Fin c.numServers) : ℕ := ∑ t : c.Thread, if t.1 = sid then 1 else 0

/-- **A queue is refilled before the last refusal**: while it holds a query, some server has been
refused less often than it has engines. -/
def Refillable (s : State c) : Prop :=
  ∀ p, s.taskQueue p ≠ [] → ∃ sid, refusals s sid p < crew c sid

section Refusals

variable (sid p : Fin c.numServers) {engines : c.Thread → Engine c} {t : c.Thread} {e : Engine c}

/-- A move of an engine that changes nothing in what it knows. -/
lemma failed_of_eq (h : e.hasQuery = (engines t).hasQuery) :
    failed sid p (Function.update engines t e) = failed sid p engines :=
  tally_update_of_eq (by rw [h])

lemma failed_refused (h : (engines t).hasQuery (engines t).dsid = true) :
    failed sid p (Function.update engines t (engines t).refused)
      = failed sid p engines + if t.1 = sid ∧ (engines t).dsid = p then 1 else 0 := by
  have hu := tally_update
    (fun (t : c.Thread) (e : Engine c) => if t.1 = sid ∧ e.hasQuery p = false then 1 else 0)
    engines t (engines t).refused
  simp only [Engine.hasQuery_refused, Function.update_apply] at hu
  rw [failed, failed]
  by_cases hp : (engines t).dsid = p
  · subst hp
    simp only [h, if_true, and_true, Bool.true_eq_false, and_false, if_false, Nat.add_zero] at hu ⊢
    exact hu
  · simp only [Ne.symm hp, hp, if_false, and_false, Nat.add_zero] at hu ⊢
    omega

end Refusals

/-- **An engine whose query is on its way to a proxy** keeps its server from having been refused by
it as often as the server has engines. The replies to the server are for engines that wait, and this
one does not wait, or its request is behind the query. -/
lemma refused_lt_crew (hb : Balanced s) (he : EnginesSound s) {t : c.Thread}
    {p : Fin c.numServers} {qid : ℕ} {rest : List Request}
    (hreq : s.requests (t, p) = .enqueue qid :: rest) : refusals s t.1 p < crew c t.1 := by
  have hfew : ∀ t', ¬ ((s.engines t').hasQuery p = false ∧ (s.engines t').waitsFor p) := by
    rintro t' ⟨hno, hrecv, rfl⟩
    exact absurd ((he.sound t').waits hrecv) (by simp [hno])
  have hsum : failed t.1 p s.engines + waiting t.1 p s.engines
      < crew c t.1 + asked t.1 p s.requests := by
    rw [failed, waiting, tally, tally, ← Finset.sum_add_distrib, crew, asked, tally,
      ← Finset.sum_add_distrib]
    refine Finset.sum_lt_sum (fun t' _ => ?_) ⟨t, Finset.mem_univ t, ?_⟩
    · have hnot := hfew t'
      by_cases hsid : t'.1 = t.1
      · simp only [hsid, true_and, if_true]
        split_ifs <;> first | omega | tauto
      · simp only [hsid, false_and, if_false]
        omega
    · obtain ⟨qids, ds, hl, hds, -, hlast⟩ := he.inOrder t p
      have hnot := hfew t
      by_cases hask : (s.engines t).hasAsked p
      · have hqids : qids ≠ [] := by
          rintro rfl
          rw [hreq, List.map_nil, List.nil_append] at hl
          exact absurd (hds (.enqueue qid) (hl ▸ List.mem_cons_self ..))
            (by simp [Request.isDequeue])
        have hpos : 0 < (s.requests (t, p)).countP Request.isDequeue := by
          rw [List.countP_pos_iff]
          obtain ⟨m, hm⟩ := List.exists_mem_of_ne_nil ds (hlast hask hqids)
          exact ⟨m, hl ▸ List.mem_append_right _ hm, hds m hm⟩
        simp only [true_and, if_true]
        split_ifs <;> first | omega | tauto
      · rw [Engine.hasAsked, not_or] at hask
        simp only [true_and, if_true]
        rw [if_neg hask.1, if_neg hask.2]
        omega
  have hbal := hb t.1 p
  have hcount : (s.replies (p, t.1)).count .dequeueFail ≤ (s.replies (p, t.1)).length :=
    List.count_le_length
  rw [refusals]
  omega

/-- A proxy refuses only with an empty queue. -/
lemma refusals_of_moves (he : EnginesSound s) (hm : Moves s s') (sid p : Fin c.numServers) :
    refusals s' sid p = refusals s sid p ∨ s'.taskQueue p = [] := by
  cases hm with
  | draw t hpt hlt => exact Or.inl (congrArg (· + _) (failed_of_eq sid p rfl))
  | usedUp t hpt hle => exact Or.inl (congrArg (· + _) (failed_of_eq sid p rfl))
  | enqueue t p' qid hpt => exact Or.inl (congrArg (· + _) (failed_of_eq sid p rfl))
  | leave t hpt hzero => exact Or.inl (congrArg (· + _) (failed_of_eq sid p rfl))
  | ask t p' m hm hpt hhas => exact Or.inl (congrArg (· + _) (failed_of_eq sid p rfl))
  | skip t p' hpt => exact Or.inl (congrArg (· + _) (failed_of_eq sid p rfl))
  | hand t qid hpt => exact Or.inl (congrArg (· + _) (failed_of_eq sid p rfl))
  | recvSucc t qid rest hpt hrep =>
      have hf : failed sid p (Function.update s.engines t ((s.engines t).goTo (.search qid)))
          = failed sid p s.engines := failed_of_eq sid p rfl
      have hcount : (s.replies ((s.engines t).dsid, t.1)).count .dequeueFail
          = rest.count .dequeueFail + 0 := by
        rw [hrep, List.count_cons_of_ne (by simp), Nat.add_zero]
      have hr := replies_received sid p (List.count .dequeueFail) hcount
      rw [ite_self, Nat.add_zero] at hr
      refine Or.inl ?_
      show failed sid p (Function.update s.engines t _)
        + (Function.update s.replies _ _ (p, sid)).count .dequeueFail = _
      rw [hf, hr]
      rfl
  | recvFail t rest hpt hrep =>
      -- the refusal was on its way, and now the engine knows of it
      have hf := failed_refused sid p ((he.sound t).waits hpt)
      have hcount : (s.replies ((s.engines t).dsid, t.1)).count .dequeueFail
          = rest.count .dequeueFail + 1 := by
        rw [hrep, List.count_cons_self]
      have hr := replies_received sid p (List.count .dequeueFail) hcount
      refine Or.inl ?_
      show failed sid p (Function.update s.engines t _)
        + (Function.update s.replies _ _ (p, sid)).count .dequeueFail
        = failed sid p s.engines + (s.replies (p, sid)).count .dequeueFail
      omega
  | push t p' qid rest hreq => exact Or.inl rfl
  | refuse t p' m rest hm hreq hqueue =>
      by_cases hp : p = p'
      · exact Or.inr (hp ▸ hqueue)
      · have hrep : Function.update s.replies (p', t.1) (s.replies (p', t.1) ++ [.dequeueFail])
            (p, sid) = s.replies (p, sid) :=
          Function.update_of_ne (fun heq => hp (congrArg Prod.fst heq)) ..
        exact Or.inl (congrArg
          (fun l => failed sid p s.engines + List.count Reply.dequeueFail l) hrep)
  | serve t p' m rest qid queue hm hreq hqueue =>
      have hcount : (s.replies (p', t.1) ++ [Reply.dequeueSucc qid]).count Reply.dequeueFail
          = (s.replies (p', t.1)).count Reply.dequeueFail + 0 := by
        rw [List.count_append, List.count_singleton, if_neg (by simp)]
      have hr := replies_sent sid p (List.count .dequeueFail) s.replies p' t.1 (.dequeueSucc qid)
        hcount
      rw [ite_self, Nat.add_zero] at hr
      exact Or.inl (congrArg (failed sid p s.engines + ·) hr)

/-- A queue that holds a query did so before, or the query was on its way. -/
lemma queue_of_moves (hm : Moves s s') {p : Fin c.numServers} (hne : s'.taskQueue p ≠ []) :
    s.taskQueue p ≠ [] ∨ ∃ t qid rest, s.requests (t, p) = .enqueue qid :: rest := by
  cases hm with
  | draw t hpt hlt => exact Or.inl hne
  | usedUp t hpt hle => exact Or.inl hne
  | enqueue t p' qid hpt => exact Or.inl hne
  | leave t hpt hzero => exact Or.inl hne
  | ask t p' m hm hpt hhas => exact Or.inl hne
  | skip t p' hpt => exact Or.inl hne
  | recvSucc t qid rest hpt hrep => exact Or.inl hne
  | recvFail t rest hpt hrep => exact Or.inl hne
  | hand t qid hpt => exact Or.inl hne
  | push t p' qid rest hreq =>
      by_cases hp : p = p'
      · exact Or.inr ⟨t, qid, rest, hp ▸ hreq⟩
      · have hsame : Function.update s.taskQueue p' (pushBack c.queryNum (s.taskQueue p') qid) p
            = s.taskQueue p := Function.update_of_ne hp ..
        exact Or.inl (hsame ▸ hne)
  | refuse t p' m rest hm hreq hqueue => exact Or.inl hne
  | serve t p' m rest qid queue hm hreq hqueue =>
      refine Or.inl ?_
      by_cases hp : p = p'
      · subst hp
        intro hnil
        rw [hnil] at hqueue
        exact absurd hqueue.symm (List.not_perm_cons_nil)
      · have hsame : Function.update s.taskQueue p' queue p = s.taskQueue p :=
          Function.update_of_ne hp ..
        exact hsame ▸ hne

/-- **Every move keeps the queues refillable.** -/
lemma Refillable.moves (h : Refillable s) (hb : Balanced s) (he : EnginesSound s)
    (hm : Moves s s') : Refillable s' := by
  intro p hne
  obtain ⟨sid, hlt⟩ : ∃ sid, refusals s sid p < crew c sid := by
    rcases queue_of_moves hm hne with hne | ⟨t, qid, rest, hreq⟩
    · exact h p hne
    · exact ⟨t.1, refused_lt_crew hb he hreq⟩
  exact ⟨sid, ((refusals_of_moves he hm sid p).resolve_right hne).trans_lt hlt⟩

/-! ### All runs -/

/-- **The invariant** of all interleavings. -/
structure Inv (s : State c) : Prop where
  conserved : Conserved s
  balanced : Balanced s
  engines : EnginesSound s
  refillable : Refillable s

lemma inv_init (c : Cluster) : Inv (State.init c) where
  conserved := fun qid => by
    simp [occurrences, held, posted, queued, answered, tally, State.init, Point.holds]
  balanced := fun sid p => by
    simp [asked, waiting, tally, State.init, Engine.waitsFor]
  engines :=
    { sound := fun t =>
        { nsvr := by simp [State.init, tally]
          waits := fun h => absurd h (by simp [State.init])
          early := fun _ _ => rfl
          late := fun h => absurd h (by simp [State.init, Point.dispatches])
          gone := fun h => absurd h (by simp [State.init]) }
      inOrder := fun t p => ⟨[], [], rfl, by simp, fun _ => rfl, fun _ h => absurd rfl h⟩ }
  refillable := fun p h => absurd rfl h

/-- **One step keeps the invariant.** -/
lemma Inv.step (h : Inv s) (hs : Step s s') : Inv s' :=
  have hm := moves_of_step hs
  { conserved := h.conserved.moves hm
    balanced := h.balanced.moves hm
    engines := h.engines.moves hm
    refillable := h.refillable.moves h.balanced h.engines hm }

/-- **Every run keeps it.** -/
theorem Reachable.inv (h : Reachable c s) : Inv s := by
  induction h with
  | init => exact inv_init c
  | step _ hs ih => exact ih.step hs

/-- When all engines have left, nothing is on its way any more. -/
lemma Inv.settled (h : Inv s) (hleft : ∀ t, (s.engines t).point = .left) :
    (∀ x, s.requests x = []) ∧ (∀ x, s.replies x = []) ∧ ∀ p, s.taskQueue p = [] := by
  have hno : ∀ t p, (s.engines t).hasQuery p = false := fun t p =>
    (h.engines.sound t).gone (hleft t) p
  have hwaiting : ∀ sid p, waiting sid p s.engines = 0 := fun sid p => by
    rw [waiting, tally_eq_zero]
    intro t
    rw [if_neg fun hand => absurd hand.2.1 (by simp [hleft t])]
  have hasked : ∀ sid p, asked sid p s.requests = 0 := fun sid p => by
    have hb := h.balanced sid p
    rw [hwaiting] at hb
    omega
  refine ⟨fun ⟨t, p⟩ => ?_, fun ⟨p, sid⟩ => ?_, fun p => ?_⟩
  · obtain ⟨qids, ds, hl, hds, -, hlast⟩ := h.engines.inOrder t p
    have hcount : (s.requests (t, p)).countP Request.isDequeue = 0 := by
      have hzero := hasked t.1 p
      rw [asked, tally_eq_zero] at hzero
      have ht := hzero t
      rwa [if_pos rfl] at ht
    have hdsnil : ds = [] := by
      by_contra hne
      obtain ⟨m, hm⟩ := List.exists_mem_of_ne_nil ds hne
      exact List.countP_eq_zero.mp hcount m (hl ▸ List.mem_append_right _ hm) (hds m hm)
    have hqnil : qids = [] := by
      by_contra hne
      exact hlast (Or.inl (hno t p)) hne hdsnil
    rw [hl, hqnil, hdsnil]
    rfl
  · have hb := h.balanced sid p
    rw [hwaiting, hasked] at hb
    exact List.eq_nil_of_length_eq_zero (by omega)
  · by_contra hne
    obtain ⟨sid, hlt⟩ := h.refillable p hne
    have hall : failed sid p s.engines = crew c sid := by
      rw [failed, tally, crew]
      exact Finset.sum_congr rfl fun t _ => if_congr (by simp [hno t p]) rfl rfl
    rw [refusals] at hlt
    omega

/-- **Every query is run once**, provided that there is an engine. -/
lemma Inv.runsOnce (h : Inv s) (hleft : ∀ t, (s.engines t).point = .left) (t : c.Thread) {qid : ℕ}
    (hqid : qid < c.queryNum) : s.handed.count qid = 1 := by
  obtain ⟨hreq, hrep, hqueue⟩ := h.settled hleft
  have hcounter : c.queryNum ≤ s.counter := (h.engines.sound t).late (by rw [hleft t]; rfl)
  have hq := h.conserved qid
  have hheld : held qid s.engines = 0 := by
    rw [held, tally_eq_zero]
    intro t'
    rw [hleft t']
    rfl
  have hposted : posted qid s.requests = 0 := by
    rw [posted, tally_eq_zero]
    intro x
    rw [hreq x, List.count_nil]
  have hqueued : queued qid s.taskQueue = 0 := by
    rw [queued, tally_eq_zero]
    intro p
    rw [hqueue p, List.count_nil]
  have hanswered : answered qid s.replies = 0 := by
    rw [answered, tally_eq_zero]
    intro x
    rw [hrep x, List.count_nil]
  rw [occurrences, hheld, hposted, hqueued, hanswered, if_pos ⟨by omega, hqid⟩] at hq
  omega

/-- **The dynamic scheduling runs every query once** exactly if the cluster has an engine thread, or
there is no query to run. -/
theorem runsOnce_iff (c : Cluster) : RunsOnce c ↔ Nonempty c.Thread ∨ c.queryNum = 0 := by
  constructor
  · intro h
    by_contra hno
    rw [not_or, not_nonempty_iff] at hno
    obtain ⟨hempty, hpos⟩ := hno
    have hinit := (h (State.init c) .init fun t => (hempty.false t).elim).1 0 (by omega)
    exact absurd hinit (by simp [State.init])
  · rintro (⟨⟨t⟩⟩ | hzero) s hs hleft
    · exact ⟨fun qid hqid => hs.inv.runsOnce hleft t hqid, (hs.inv.settled hleft).2.2⟩
    · exact ⟨fun qid hqid => absurd hqid (by omega), (hs.inv.settled hleft).2.2⟩

/-- A cluster of one server with a query, and no engine thread. -/
def noEngines : Cluster where
  numServers := 1
  numThreads := fun _ => 0
  queryNum := 1
  shouldRunOnNode := fun _ => ⟨0, Nat.one_pos⟩

/-- Without engines the query is never run. -/
theorem not_runsOnce_noEngines : ¬ RunsOnce noEngines := by
  intro h
  have hinit := (h (State.init noEngines) .init fun t => t.2.elim0).1 0 Nat.one_pos
  exact absurd hinit (by simp [State.init])

end Schedule

end RedAnns
