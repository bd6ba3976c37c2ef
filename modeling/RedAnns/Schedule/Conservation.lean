import RedAnns.Schedule.Dynamic

/-!
What the steps of the dynamic scheduling conserve.

* `Conserved`: a query that was drawn is in one place, with an engine, on its way, in a queue, or
  handed to a search. So the buffer of a proxy never overflows (`Conserved.room`).
* `Balanced`: the engines of a server that wait for a proxy are as many as their requests and the
  replies on their way. So replies may be swapped between them, but none is lost.
-/

namespace RedAnns

namespace Schedule

variable {c : Cluster} {s s' : State c}

/-! ### Where a query is -/

/-- Whether an engine at this point holds a query. -/
def Point.holds (qid : ℕ) : Point → ℕ
  | .dispatch => 0
  | .send q => if q = qid then 1 else 0
  | .execute => 0
  | .recv => 0
  | .search q => if q = qid then 1 else 0
  | .left => 0

/-- The engines that hold the query. -/
def held (qid : ℕ) (engines : c.Thread → Engine c) : ℕ :=
  tally (fun _ e => e.point.holds qid) engines

/-- The messages on their way to a proxy that carry it. -/
def posted (qid : ℕ) (requests : c.Thread × Fin c.numServers → List Request) : ℕ :=
  tally (fun _ l => l.count (.enqueue qid)) requests

/-- Its places in the queues. -/
def queued (qid : ℕ) (taskQueue : Fin c.numServers → List ℕ) : ℕ :=
  tally (fun _ l => l.count qid) taskQueue

/-- The replies on their way that carry it. -/
def answered (qid : ℕ) (replies : Fin c.numServers × Fin c.numServers → List Reply) : ℕ :=
  tally (fun _ l => l.count (.dequeueSucc qid)) replies

/-- All the places of a query. -/
def occurrences (s : State c) (qid : ℕ) : ℕ :=
  held qid s.engines + posted qid s.requests + queued qid s.taskQueue + answered qid s.replies
    + s.handed.count qid

/-- **Queries are conserved**: one that was drawn has one place, any other none. -/
def Conserved (s : State c) : Prop :=
  ∀ qid, occurrences s qid = if qid < s.counter ∧ qid < c.queryNum then 1 else 0

section Conserved

variable (qid : ℕ)

lemma held_update (engines : c.Thread → Engine c) (t : c.Thread) (e : Engine c) :
    held qid (Function.update engines t e) + (engines t).point.holds qid
      = held qid engines + e.point.holds qid :=
  tally_update (fun _ e => e.point.holds qid) engines t e

lemma posted_update (requests : c.Thread × Fin c.numServers → List Request)
    (x : c.Thread × Fin c.numServers) (l : List Request) :
    posted qid (Function.update requests x l) + (requests x).count (.enqueue qid)
      = posted qid requests + l.count (.enqueue qid) :=
  tally_update (fun _ l => l.count (.enqueue qid)) requests x l

lemma queued_update (taskQueue : Fin c.numServers → List ℕ) (p : Fin c.numServers) (l : List ℕ) :
    queued qid (Function.update taskQueue p l) + (taskQueue p).count qid
      = queued qid taskQueue + l.count qid :=
  tally_update (fun _ l => l.count qid) taskQueue p l

lemma answered_update (replies : Fin c.numServers × Fin c.numServers → List Reply)
    (x : Fin c.numServers × Fin c.numServers) (l : List Reply) :
    answered qid (Function.update replies x l) + (replies x).count (.dequeueSucc qid)
      = answered qid replies + l.count (.dequeueSucc qid) :=
  tally_update (fun _ l => l.count (.dequeueSucc qid)) replies x l

end Conserved

/-- A request carries no query. -/
lemma count_enqueue_of_isDequeue {m : Request} (hm : m.isDequeue = true) (qid : ℕ)
    (l : List Request) : (m :: l).count (.enqueue qid) = l.count (.enqueue qid) := by
  refine List.count_cons_of_ne fun h => ?_
  rw [h] at hm
  exact absurd hm (by simp [Request.isDequeue])

/-- **The buffer of a proxy has room** for a query that is on its way: what it holds are other
queries, each once. -/
lemma Conserved.room (h : Conserved s) {t : c.Thread} {p : Fin c.numServers} {qid : ℕ}
    {rest : List Request} (hreq : s.requests (t, p) = .enqueue qid :: rest) :
    (s.taskQueue p).length < c.queryNum := by
  have hone : ∀ q, occurrences s q ≤ 1 := fun q => by
    rw [h q]
    split_ifs <;> simp
  have hlt : ∀ q, 0 < occurrences s q → q < c.queryNum := fun q hq => by
    by_contra hge
    rw [h q, if_neg fun hand => hge hand.2] at hq
    exact absurd hq (lt_irrefl 0)
  have hin : ∀ q, (s.taskQueue p).count q ≤ queued q s.taskQueue := fun q =>
    le_tally (fun _ l => List.count q l) s.taskQueue p
  have hposted : 0 < posted qid s.requests := by
    have hle : (s.requests (t, p)).count (.enqueue qid) ≤ posted qid s.requests :=
      le_tally (fun _ l => List.count (.enqueue qid) l) s.requests (t, p)
    rw [hreq, List.count_cons_self] at hle
    omega
  have hnodup : (qid :: s.taskQueue p).Nodup := by
    refine List.nodup_cons.mpr ⟨fun hmem => ?_, List.nodup_iff_count_le_one.mpr fun q => ?_⟩
    · have hcount := List.count_pos_iff.mpr hmem
      have h1 := hone qid
      have h2 := hin qid
      rw [occurrences] at h1
      omega
    · have h1 := hone q
      have h2 := hin q
      rw [occurrences] at h1
      omega
  have hsub : qid :: s.taskQueue p ⊆ List.range c.queryNum := by
    intro q hq
    refine List.mem_range.mpr (hlt q ?_)
    rw [occurrences]
    rcases List.mem_cons.mp hq with rfl | hq
    · omega
    · have hcount := List.count_pos_iff.mpr hq
      have h2 := hin q
      omega
  have hlen := (List.subperm_of_subset hnodup hsub).length_le
  rw [List.length_range, List.length_cons] at hlen
  exact hlen

/-- **Every move conserves the queries.** -/
lemma Conserved.moves (h : Conserved s) (hm : Moves s s') : Conserved s' := by
  intro qid
  have hq := h qid
  rw [occurrences] at hq
  cases hm with
  | draw t hpt hlt =>
      have he := held_update qid s.engines t ((s.engines t).goTo (.send s.counter))
      simp only [hpt, Engine.point_goTo, Point.holds] at he
      simp only [occurrences, State.setEngine, State.fetchAdd]
      show _ = if qid < s.counter + 1 ∧ qid < c.queryNum then 1 else 0
      split_ifs at he hq ⊢ <;> omega
  | usedUp t hpt hle =>
      have he := held_update qid s.engines t ((s.engines t).goTo .execute)
      simp only [hpt, Engine.point_goTo, Point.holds] at he
      simp only [occurrences, State.setEngine, State.fetchAdd]
      show _ = if qid < s.counter + 1 ∧ qid < c.queryNum then 1 else 0
      split_ifs at hq ⊢ <;> omega
  | enqueue t p q hpt =>
      have he := held_update qid s.engines t ((s.engines t).goTo .dispatch)
      have hr := posted_update qid s.requests (t, p) (s.requests (t, p) ++ [.enqueue q])
      simp only [hpt, Engine.point_goTo, Point.holds] at he
      simp only [List.count_append, List.count_singleton, beq_iff_eq, Request.enqueue.injEq] at hr
      refine Eq.trans ?_ hq
      simp only [occurrences, State.setEngine, State.send]
      omega
  | leave t hpt hzero =>
      have he := held_update qid s.engines t ((s.engines t).goTo .left)
      simp only [hpt, Engine.point_goTo, Point.holds] at he
      refine Eq.trans ?_ hq
      simp only [occurrences, State.setEngine]
      omega
  | ask t p m hm hpt hhas =>
      have he := held_update qid s.engines t ((s.engines t).waitFor p)
      have hr := posted_update qid s.requests (t, p) (s.requests (t, p) ++ [m])
      simp only [hpt, Engine.point_waitFor, Point.holds] at he
      rw [List.count_append, count_enqueue_of_isDequeue hm, List.count_nil] at hr
      refine Eq.trans ?_ hq
      simp only [occurrences, State.setEngine, State.send]
      omega
  | skip t p hpt =>
      have he := held_update qid s.engines t ((s.engines t).skipTo p)
      simp only [hpt, Engine.point_skipTo, Point.holds] at he
      refine Eq.trans ?_ hq
      simp only [occurrences, State.setEngine]
      omega
  | recvSucc t q rest hpt hrep =>
      have he := held_update qid s.engines t ((s.engines t).goTo (.search q))
      have ha := answered_update qid s.replies ((s.engines t).dsid, t.1) rest
      simp only [hpt, Engine.point_goTo, Point.holds] at he
      simp only [hrep, List.count_cons, beq_iff_eq, Reply.dequeueSucc.injEq] at ha
      refine Eq.trans ?_ hq
      simp only [occurrences, State.setEngine, State.setReplies]
      omega
  | recvFail t rest hpt hrep =>
      have he := held_update qid s.engines t (s.engines t).refused
      have ha := answered_update qid s.replies ((s.engines t).dsid, t.1) rest
      simp only [hpt, Engine.point_refused, Point.holds] at he
      rw [hrep, List.count_cons_of_ne (by simp)] at ha
      refine Eq.trans ?_ hq
      simp only [occurrences, State.setEngine, State.setReplies]
      omega
  | hand t q hpt =>
      have he := held_update qid s.engines t ((s.engines t).goTo .execute)
      simp only [hpt, Engine.point_goTo, Point.holds] at he
      refine Eq.trans ?_ hq
      simp only [occurrences, State.setEngine, State.hand]
      simp only [List.count_append, List.count_singleton, beq_iff_eq]
      omega
  | push t p q rest hreq =>
      have hr := posted_update qid s.requests (t, p) rest
      have hl := queued_update qid s.taskQueue p (pushBack c.queryNum (s.taskQueue p) q)
      rw [hreq, List.count_cons] at hr
      simp only [beq_iff_eq, Request.enqueue.injEq] at hr
      rw [pushBack, if_pos (h.room hreq), List.count_append, List.count_singleton] at hl
      simp only [beq_iff_eq] at hl
      refine Eq.trans ?_ hq
      simp only [occurrences, State.setRequests, State.setQueue]
      rw [pushBack, if_pos (h.room hreq)]
      omega
  | refuse t p m rest hm hreq hqueue =>
      have hr := posted_update qid s.requests (t, p) rest
      have ha := answered_update qid s.replies (p, t.1) (s.replies (p, t.1) ++ [.dequeueFail])
      rw [hreq, count_enqueue_of_isDequeue hm] at hr
      rw [List.count_append, List.count_singleton, if_neg (by simp)] at ha
      refine Eq.trans ?_ hq
      simp only [occurrences, State.setRequests, State.setReplies]
      omega
  | serve t p m rest q queue hm hreq hqueue =>
      have hr := posted_update qid s.requests (t, p) rest
      have hl := queued_update qid s.taskQueue p queue
      have ha := answered_update qid s.replies (p, t.1) (s.replies (p, t.1) ++ [.dequeueSucc q])
      rw [hreq, count_enqueue_of_isDequeue hm] at hr
      rw [hqueue.count_eq, List.count_cons] at hl
      rw [List.count_append, List.count_singleton] at ha
      simp only [beq_iff_eq, Reply.dequeueSucc.injEq] at ha hl
      refine Eq.trans ?_ hq
      simp only [occurrences, State.setRequests, State.setQueue, State.setReplies]
      omega

/-! ### Requests and replies -/

/-- The engine waits for a reply of the proxy `p`. -/
def Engine.waitsFor (e : Engine c) (p : Fin c.numServers) : Prop := e.point = .recv ∧ e.dsid = p

instance waitsForDecidable (e : Engine c) (p : Fin c.numServers) : Decidable (e.waitsFor p) :=
  inferInstanceAs (Decidable (_ ∧ _))

/-- The engines of the server `sid` that wait for the proxy `p`. -/
def waiting (sid p : Fin c.numServers) (engines : c.Thread → Engine c) : ℕ :=
  tally (fun t e => if t.1 = sid ∧ e.waitsFor p then 1 else 0) engines

/-- Their requests that are on their way. -/
def asked (sid p : Fin c.numServers) (requests : c.Thread × Fin c.numServers → List Request) : ℕ :=
  tally (fun t l => if t.1 = sid then l.countP Request.isDequeue else 0) fun t => requests (t, p)

/-- **Requests and replies balance**: every engine that waits has a request on its way, or there is
a reply on its way to the server for it. -/
def Balanced (s : State c) : Prop :=
  ∀ sid p, asked sid p s.requests + (s.replies (p, sid)).length = waiting sid p s.engines

section Balanced

variable (sid p : Fin c.numServers)

section Engines

variable {engines : c.Thread → Engine c} {t : c.Thread}

lemma waiting_update (engines : c.Thread → Engine c) (t : c.Thread) (e : Engine c) :
    waiting sid p (Function.update engines t e)
        + (if t.1 = sid ∧ (engines t).waitsFor p then 1 else 0)
      = waiting sid p engines + if t.1 = sid ∧ e.waitsFor p then 1 else 0 :=
  tally_update (fun (t : c.Thread) (e : Engine c) => if t.1 = sid ∧ e.waitsFor p then 1 else 0)
    engines t e

/-- An engine that waits neither before nor after a move. -/
lemma waiting_of_not {e : Engine c} (h : (engines t).point ≠ .recv) (h' : e.point ≠ .recv) :
    waiting sid p (Function.update engines t e) = waiting sid p engines := by
  have hu := waiting_update sid p engines t e
  rwa [if_neg fun hand => h hand.2.1, if_neg fun hand => h' hand.2.1] at hu

/-- An engine that starts to wait. -/
lemma waiting_waitFor (h : (engines t).point ≠ .recv) (p' : Fin c.numServers) :
    waiting sid p (Function.update engines t ((engines t).waitFor p'))
      = waiting sid p engines + if t.1 = sid ∧ p' = p then 1 else 0 := by
  have hu := waiting_update sid p engines t ((engines t).waitFor p')
  rw [if_neg fun hand => h hand.2.1] at hu
  simpa [Engine.waitsFor] using hu

/-- An engine that was waiting. -/
lemma waiting_received {e : Engine c} (h : (engines t).point = .recv) (h' : e.point ≠ .recv) :
    waiting sid p (Function.update engines t e)
        + (if t.1 = sid ∧ (engines t).dsid = p then 1 else 0)
      = waiting sid p engines := by
  have hu := waiting_update sid p engines t e
  rw [if_neg (c := t.1 = sid ∧ e.waitsFor p) fun hand => h' hand.2.1] at hu
  simpa [Engine.waitsFor, h] using hu

end Engines

section Requests

variable (requests : c.Thread × Fin c.numServers → List Request) (t : c.Thread)
  (p' : Fin c.numServers)

lemma asked_update (l : List Request) :
    asked sid p (Function.update requests (t, p') l)
        + (if t.1 = sid ∧ p' = p then (requests (t, p')).countP Request.isDequeue else 0)
      = asked sid p requests
        + if t.1 = sid ∧ p' = p then l.countP Request.isDequeue else 0 := by
  have hu := tally_slice_update
    (fun (t : c.Thread) (l : List Request) => if t.1 = sid then l.countP Request.isDequeue else 0)
    requests t p' p l
  simp only [← ite_and] at hu
  simpa only [asked, and_comm, eq_comm] using hu

/-- A message that is sent, or received: it counts `k` times. -/
lemma asked_sent {m : Request} {k : ℕ} (hm : [m].countP Request.isDequeue = k) :
    asked sid p (Function.update requests (t, p') (requests (t, p') ++ [m]))
      = asked sid p requests + if t.1 = sid ∧ p' = p then k else 0 := by
  have hu := asked_update sid p requests t p' (requests (t, p') ++ [m])
  rw [List.countP_append, hm] at hu
  split_ifs at hu ⊢ <;> omega

variable {requests t p'} in
lemma asked_received {m : Request} {rest : List Request} {k : ℕ}
    (hm : [m].countP Request.isDequeue = k) (hreq : requests (t, p') = m :: rest) :
    asked sid p (Function.update requests (t, p') rest) + (if t.1 = sid ∧ p' = p then k else 0)
      = asked sid p requests := by
  have hu := asked_update sid p requests t p' rest
  have hcons : (m :: rest).countP Request.isDequeue = k + rest.countP Request.isDequeue := by
    rw [← hm, ← List.countP_append]
    rfl
  rw [hreq, hcons] at hu
  split_ifs at hu ⊢ <;> omega

end Requests

section Replies

variable (f : List Reply → ℕ) (replies : Fin c.numServers × Fin c.numServers → List Reply)
  (p' sid' : Fin c.numServers) {k : ℕ}

/-- What `f` makes of the replies on their way from one proxy to one server, once replies on their
way from `p'` to `sid'` have changed. -/
lemma replies_update (l : List Reply) :
    f (Function.update replies (p', sid') l (p, sid))
      = if sid' = sid ∧ p' = p then f l else f (replies (p, sid)) := by
  rw [Function.update_apply, apply_ite f]
  exact if_congr (by rw [Prod.mk.injEq]; tauto) rfl rfl

lemma replies_sent (x : Reply)
    (hf : f (replies (p', sid') ++ [x]) = f (replies (p', sid')) + k) :
    f (Function.update replies (p', sid') (replies (p', sid') ++ [x]) (p, sid))
      = f (replies (p, sid)) + if sid' = sid ∧ p' = p then k else 0 := by
  rw [replies_update sid p f replies p' sid']
  split_ifs with h
  · rw [hf, h.1, h.2]
  · rfl

variable {replies p' sid'} in
lemma replies_received {rest : List Reply} (hf : f (replies (p', sid')) = f rest + k) :
    f (Function.update replies (p', sid') rest (p, sid)) + (if sid' = sid ∧ p' = p then k else 0)
      = f (replies (p, sid)) := by
  rw [replies_update sid p f replies p' sid']
  split_ifs with h
  · rw [← hf, h.1, h.2]
  · rfl

end Replies

end Balanced

lemma countP_of_isDequeue {m : Request} (hm : m.isDequeue = true) :
    [m].countP Request.isDequeue = 1 := by
  rw [List.countP_singleton, if_pos hm]

/-- **Every move keeps the balance.** -/
lemma Balanced.moves (h : Balanced s) (hm : Moves s s') : Balanced s' := by
  intro sid p
  have hb := h sid p
  cases hm with
  | draw t hpt hlt => exact hb.trans (waiting_of_not sid p (by simp [hpt]) (by simp)).symm
  | usedUp t hpt hle => exact hb.trans (waiting_of_not sid p (by simp [hpt]) (by simp)).symm
  | leave t hpt hzero => exact hb.trans (waiting_of_not sid p (by simp [hpt]) (by simp)).symm
  | skip t p' hpt => exact hb.trans (waiting_of_not sid p (by simp [hpt]) (by simp [hpt])).symm
  | hand t qid hpt => exact hb.trans (waiting_of_not sid p (by simp [hpt]) (by simp)).symm
  | enqueue t p' qid hpt =>
      have hw : waiting sid p (Function.update s.engines t ((s.engines t).goTo .dispatch))
          = waiting sid p s.engines := waiting_of_not sid p (by simp [hpt]) (by simp)
      have ha := asked_sent sid p s.requests t p' (m := .enqueue qid) (k := 0) rfl
      simp only [State.setEngine, State.send]
      rw [ha, hw, ite_self, Nat.add_zero, hb]
  | ask t p' m hm hpt hhas =>
      have hne : (s.engines t).point ≠ .recv := by simp [hpt]
      have hw := waiting_waitFor sid p hne p'
      have ha := asked_sent sid p s.requests t p' (countP_of_isDequeue hm)
      simp only [State.setEngine, State.send]
      omega
  | recvSucc t qid rest hpt hrep =>
      have hw := waiting_received sid p (e := (s.engines t).goTo (.search qid)) hpt (by simp)
      have hlen : (s.replies ((s.engines t).dsid, t.1)).length = rest.length + 1 :=
        congrArg List.length hrep
      have hr := replies_received sid p List.length hlen
      simp only [State.setEngine, State.setReplies]
      omega
  | recvFail t rest hpt hrep =>
      have hw := waiting_received sid p (e := (s.engines t).refused) hpt (by simp)
      have hlen : (s.replies ((s.engines t).dsid, t.1)).length = rest.length + 1 :=
        congrArg List.length hrep
      have hr := replies_received sid p List.length hlen
      simp only [State.setEngine, State.setReplies]
      omega
  | push t p' qid rest hreq =>
      have ha := asked_received sid p (k := 0) rfl hreq
      simp only [State.setRequests, State.setQueue]
      rw [ite_self, Nat.add_zero] at ha
      rw [ha, hb]
  | refuse t p' m rest hm hreq hqueue =>
      have ha := asked_received sid p (countP_of_isDequeue hm) hreq
      have hr := replies_sent sid p List.length s.replies p' t.1 .dequeueFail List.length_append
      rw [List.length_singleton] at hr
      simp only [State.setRequests, State.setReplies]
      omega
  | serve t p' m rest qid queue hm hreq hqueue =>
      have ha := asked_received sid p (countP_of_isDequeue hm) hreq
      have hr := replies_sent sid p List.length s.replies p' t.1 (.dequeueSucc qid)
        List.length_append
      rw [List.length_singleton] at hr
      simp only [State.setRequests, State.setQueue, State.setReplies]
      omega

end Schedule

end RedAnns
