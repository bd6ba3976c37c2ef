import RedAnns.Store.Connections

/-!
How the rounds of the constructors end.

The rounds go on until every queue pair of the node is connected, so a node with one that never is
never leaves them. Requests that get lost do no harm: from every state the nodes can still
finish, one after the other. But `recv_thread` takes an id of index `UD_ID_BASE` or more for that of
a datagram queue pair, and refuses it as long as its own queue pair is not connected; for the
threads from `maxThreads` on, each side waits for the other.

* `reaches_built`, `reaches_connected`, `reaches_node_done`: a node finishes while the constructors
  of the others stand still.
* `reaches_done`: from every state of every interleaving all constructors can get through their
  rounds, exactly if there are at most `maxThreads` threads.
* `paired_of_done`: when a constructor is through, every queue pair of the node is connected to the
  one that its peer has created for the same thread and for this node.

What the constructor logs after its rounds (about its queue pair with node 1, which a cluster of one
node does not have) is not modelled.
-/

namespace RedAnns

namespace Connect

variable {c : Cluster} {s s' t : State c} {n m : Fin c.nnodes}

/-- Some steps of any programs. -/
abbrev Reaches : State c → State c → Prop := Relation.ReflTransGen Step

lemma Reachable.trans (h : Reachable c s) (hsteps : Reaches s s') : Reachable c s' := by
  induction hsteps with
  | refl => exact h
  | tail _ hstep ih => exact ih.step hstep

lemma Inv.reaches (h : Inv s) (hsteps : Reaches s s') : Inv s' := by
  induction hsteps with
  | refl => exact h
  | tail _ hstep ih => exact ih.step hstep

/-- The node has created its queue pairs. -/
def Node.Built (x : Node c) : Prop :=
  match x.phase with
  | .starting => False
  | .creating _ => False
  | _ => True

lemma built_of_connecting {x : Node c} {connected : ℕ} {rest : List (ℕ × ℕ)}
    (h : x.phase = .connecting connected rest) : x.Built := by
  rw [Node.Built, h]
  trivial

lemma Inv.allCreated (h : Inv s) (hbuilt : (s n).Built) : AllCreated c (s n).qps := by
  have hprogress := h.progress n
  rw [Node.Built] at hbuilt
  rw [Node.Progress] at hprogress
  cases hphase : (s n).phase with
  | starting => simp [hphase] at hbuilt
  | creating rest => simp [hphase] at hbuilt
  | connecting connected rest => exact (hphase ▸ hprogress).1
  | waiting attempt connected rest => exact (hphase ▸ hprogress).1
  | done => exact (hphase ▸ hprogress).1

lemma Node.Built.listening {x : Node c} (h : x.Built) : x.listening = true := by
  rw [Node.Built] at h
  rw [Node.listening]
  cases hphase : x.phase with
  | starting => simp [hphase] at h
  | creating rest => rfl
  | connecting connected rest => rfl
  | waiting attempt connected rest => rfl
  | done => rfl

/-! ### A node on its own -/

/-- A step of the constructor that changes its node only. -/
lemma step_set {x : Node c} (net : Bool) (h : constructorStep n net s = some (s.set n x)) :
    Reaches s (s.set n x) := Relation.ReflTransGen.single (.build n net h)

/-- The loop that creates the queue pairs comes to its end. -/
lemma reaches_of_creating {rest : List (ℕ × ℕ)} (hphase : (s n).phase = .creating rest) :
    ∃ s', Reaches s s' ∧ (∀ k ≠ n, s' k = s k) ∧ (s' n).Built := by
  induction rest generalizing s with
  | nil =>
      refine ⟨_, step_set (x := (s n).goTo (.connecting 0 c.pairs)) true ?_,
        fun k hk => set_of_ne hk _, ?_⟩
      · simp [constructorStep, hphase]
      · rw [set_self]
        trivial
  | cons p rest ih =>
      obtain ⟨s', hsteps, hothers, hbuilt⟩ :=
        ih (s := s.set n (((s n).createRcQp p.1 p.2).goTo (.creating rest))) (by rw [set_self]; rfl)
      refine ⟨s', (step_set true ?_).trans hsteps,
        fun k hk => (hothers k hk).trans (set_of_ne hk _), hbuilt⟩
      simp [constructorStep, hphase]

/-- **Every node gets past the creation of its queue pairs.** -/
lemma reaches_built (s : State c) (n : Fin c.nnodes) :
    ∃ s', Reaches s s' ∧ (∀ k ≠ n, s' k = s k) ∧ (s' n).Built := by
  cases hphase : (s n).phase with
  | starting =>
      obtain ⟨s', hsteps, hothers, hbuilt⟩ := reaches_of_creating
        (s := s.set n ((s n).goTo (.creating c.pairs))) (n := n) (by rw [set_self]; rfl)
      refine ⟨s', (step_set true ?_).trans hsteps,
        fun k hk => (hothers k hk).trans (set_of_ne hk _), hbuilt⟩
      simp [constructorStep, hphase]
  | creating rest => exact reaches_of_creating hphase
  | connecting connected rest => exact ⟨s, .refl, fun _ _ => rfl, built_of_connecting hphase⟩
  | waiting attempt connected rest => exact ⟨s, .refl, fun _ _ => rfl, by simp [Node.Built, hphase]⟩
  | done => exact ⟨s, .refl, fun _ _ => rfl, by simp [Node.Built, hphase]⟩

/-- A round comes to its end, if nothing else then because every connection fails. -/
lemma reaches_round_end (h : Inv s) {connected : ℕ} {rest : List (ℕ × ℕ)}
    (hphase : (s n).phase = .connecting connected rest) :
    ∃ s' connected', Reaches s s' ∧ (∀ k ≠ n, s' k = s k) ∧
      (s' n).phase = .connecting connected' [] := by
  induction rest generalizing s connected with
  | nil => exact ⟨s, connected, .refl, fun _ _ => rfl, hphase⟩
  | cons p rest ih =>
      obtain ⟨hall, hcounts⟩ := h.counts (Or.inl hphase)
      obtain ⟨qp, hqp⟩ := Option.isSome_iff_exists.mp (hall p (hcounts.subset List.mem_cons_self))
      have hnid : qp.nid < c.nnodes := (mem_pairs.mp (h.created n _ qp hqp).1).2
      -- what the pair counts does not matter for the end of the round
      obtain ⟨counted, hstep⟩ : ∃ counted, constructorStep n false s
          = some (s.set n ((s n).goTo (.connecting counted rest))) := by
        cases hinited : qp.inited with
        | true => exact ⟨connected + 1, by simp [constructorStep, hphase, hqp, hinited]⟩
        | false => exact ⟨connected, by simp [constructorStep, hphase, hqp, hinited, hnid]⟩
      have hnext : (s.set n ((s n).goTo (.connecting counted rest)) n).phase
          = .connecting counted rest := by
        rw [set_self]
        rfl
      obtain ⟨s', connected', hsteps, hothers, hend⟩ := ih (h.step (.build n false hstep)) hnext
      exact ⟨s', connected', (step_set false hstep).trans hsteps,
        fun k hk => (hothers k hk).trans (set_of_ne hk _), hend⟩

/-! ### A node and its peers -/

/-- The nodes stand where they stood, up to their messages. -/
def SameNodes (s s' : State c) : Prop :=
  ∀ k, (s' k).phase = (s k).phase ∧ (s' k).qps = (s k).qps

lemma SameNodes.trans (h : SameNodes s t) (h' : SameNodes t s') : SameNodes s s' :=
  fun k => ⟨(h' k).1.trans (h k).1, (h' k).2.trans (h k).2⟩

lemma SameNodes.built (h : SameNodes s s') (hbuilt : (s n).Built) : (s' n).Built := by
  rwa [Node.Built, (h n).1]

/-- The first request is answered. -/
lemma step_serve {req : Request c} {backlog : List (Request c)}
    (hbacklog : (s m).backlog = req :: backlog) :
    ∃ s', Step s s' ∧ SameNodes s s' ∧ (s' m).backlog = backlog ∧
      (s' req.client).replies req.attempt
        = some (answer (c.device m) (s m).qps req.qid) := by
  set t := s.set m ((s m).setBacklog backlog) with ht
  have hsame : SameNodes s t := fun k => by
    by_cases hk : k = m
    · subst hk
      rw [ht, set_self]
      exact ⟨rfl, rfl⟩
    · rw [ht, set_of_ne hk]
      exact ⟨rfl, rfl⟩
  refine ⟨t.set req.client ((t req.client).setReply req.attempt
    (answer (c.device m) (s m).qps req.qid)), .serve m true (by rw [recvThreadStep, hbacklog]; rfl),
    hsame.trans fun k => ?_, ?_, ?_⟩
  · by_cases hk : k = req.client
    · subst hk
      rw [set_self]
      exact ⟨rfl, rfl⟩
    · rw [set_of_ne hk]
      exact ⟨rfl, rfl⟩
  · by_cases hm : m = req.client
    · subst hm
      rw [set_self]
      show (t req.client).backlog = backlog
      rw [ht, set_self]
      rfl
    · rw [set_of_ne hm, ht, set_self]
      rfl
  · rw [set_self]
    exact Function.update_self ..

/-- **A request is answered in its turn.** -/
lemma reaches_reply {req : Request c} {earlier : List (Request c)}
    (hbacklog : (s m).backlog = earlier ++ [req]) :
    ∃ s', Reaches s s' ∧ SameNodes s s' ∧
      (s' req.client).replies req.attempt = some (answer (c.device m) (s m).qps req.qid) := by
  induction earlier generalizing s with
  | nil =>
      obtain ⟨s', hstep, hsame, -, hreply⟩ := step_serve hbacklog
      exact ⟨s', .single hstep, hsame, hreply⟩
  | cons first earlier ih =>
      obtain ⟨t, hstep, hsame, hrest, -⟩ := step_serve hbacklog
      obtain ⟨s', hsteps, hsame', hreply⟩ := ih hrest
      rw [(hsame m).2] at hreply
      exact ⟨s', hsteps.head hstep, hsame.trans hsame', hreply⟩

/-- The nodes but one stand where they stood. -/
def SameOthers (n : Fin c.nnodes) (s s' : State c) : Prop := ∀ k ≠ n, (s' k).phase = (s k).phase

lemma SameOthers.trans (h : SameOthers n s t) (h' : SameOthers n t s') : SameOthers n s s' :=
  fun k hk => (h' k hk).trans (h k hk)

lemma sameOthers_set (x : Node c) : SameOthers n s (s.set n x) :=
  fun _ hk => congrArg Node.phase (set_of_ne hk x)

lemma SameOthers.built (h : SameOthers n s s') (hn : (s' n).Built) (hbuilt : ∀ k, (s k).Built)
    (k : Fin c.nnodes) : (s' k).Built := by
  by_cases hk : k = n
  · rwa [hk]
  · rw [Node.Built, h k hk]
    exact hbuilt k

/-- A request for a queue pair of one of the first threads succeeds once that was created. -/
lemma answer_eq {d : Device} {qps : ℕ → Option Qp} {tid nid : ℕ} (htid : tid < maxThreads)
    (hsome : (qps (rcQid tid nid)).isSome = true) :
    ∃ attr, answer d qps (rcQid tid nid) = .tcpSucc attr := by
  obtain ⟨qp, hqp⟩ := Option.isSome_iff_exists.mp hsome
  have hud : isUd (rcQid tid nid) = false := by
    have hmod := Nat.mod_le (tid * numRcQps) (2 ^ 16)
    rw [maxThreads, udIdBase, numRcQps] at htid
    rw [isUd_rcQid, decide_eq_false_iff_not, udIdBase]
    rw [numRcQps] at hmod ⊢
    omega
  exact ⟨_, by rw [answer, hqp]; exact if_neg (by rw [hud]; exact Bool.false_ne_true)⟩

section SendRequest

variable {qp : Qp} {connected : ℕ} {rest : List (ℕ × ℕ)}

lemma qps_sendRequest (k : Fin c.nnodes) :
    (s.sendRequest n m qp connected rest k).qps = (s k).qps := by
  have hwaiting : ∀ k, (s.set n ((s n).attempted.goTo
      (.waiting (s n).attempts connected rest)) k).qps = (s k).qps := fun k => by
    by_cases hk : k = n
    · subst hk
      rw [set_self]
      rfl
    · rw [set_of_ne hk]
  rw [State.sendRequest]
  by_cases hk : k = m
  · subst hk
    rw [set_self]
    exact hwaiting k
  · rw [set_of_ne hk]
    exact hwaiting k

lemma phase_sendRequest (k : Fin c.nnodes) :
    (s.sendRequest n m qp connected rest k).phase
      = if k = n then .waiting (s n).attempts connected rest else (s k).phase := by
  have hwaiting : (s.set n ((s n).attempted.goTo (.waiting (s n).attempts connected rest)) k).phase
      = if k = n then .waiting (s n).attempts connected rest else (s k).phase := by
    split_ifs with hk
    · subst hk
      rw [set_self]
      rfl
    · rw [set_of_ne hk]
  rw [State.sendRequest]
  by_cases hk : k = m
  · subst hk
    rw [set_self]
    exact hwaiting
  · rw [set_of_ne hk]
    exact hwaiting

lemma backlog_sendRequest (s : State c) (n m : Fin c.nnodes) (qp : Qp) (connected : ℕ)
    (rest : List (ℕ × ℕ)) :
    ∃ earlier, (s.sendRequest n m qp connected rest m).backlog
      = earlier ++ [⟨n, (s n).attempts, rcQid qp.tid n⟩] := by
  rw [State.sendRequest, set_self]
  exact ⟨_, rfl⟩

end SendRequest

/-- **A queue pair gets connected**, if its peer has created its queue pairs. -/
lemma reaches_count (h : Inv s) (hbuilt : ∀ k, (s k).Built) (hmax : c.nthds ≤ maxThreads)
    {connected : ℕ} {p : ℕ × ℕ} {rest : List (ℕ × ℕ)}
    (hphase : (s n).phase = .connecting connected (p :: rest)) :
    ∃ s', Reaches s s' ∧ SameOthers n s s' ∧ (s' n).phase = .connecting (connected + 1) rest := by
  obtain ⟨hall, hcounts⟩ := h.counts (Or.inl hphase)
  obtain ⟨qp, hqp⟩ := Option.isSome_iff_exists.mp (hall p (hcounts.subset List.mem_cons_self))
  obtain ⟨htid, hnid⟩ := mem_pairs.mp (h.created n _ qp hqp).1
  cases hinited : qp.inited with
  | true =>
      refine ⟨_, step_set (x := (s n).goTo (.connecting (connected + 1) rest)) true ?_,
        sameOthers_set _, by rw [set_self]; rfl⟩
      simp [constructorStep, hphase, hqp, hinited]
  | false =>
      have hsend : Step s (s.sendRequest n ⟨qp.nid, hnid⟩ qp connected (p :: rest)) := by
        refine .build n true ?_
        simp only [constructorStep, hphase, hqp, Option.bind_some, hinited, Bool.false_eq_true,
          if_false, dif_pos hnid, (hbuilt _).listening, Bool.and_true, if_true]
      have hcreated := h.allCreated (hbuilt ⟨qp.nid, hnid⟩) (qp.tid, n)
        (mem_pairs.mpr ⟨htid, n.isLt⟩)
      obtain ⟨attr, hattr⟩ := answer_eq (d := c.device ⟨qp.nid, hnid⟩) (htid.trans_le hmax) hcreated
      -- the request arrives behind those that its peer has not accepted yet
      obtain ⟨earlier, hbacklog⟩ :=
        backlog_sendRequest s n ⟨qp.nid, hnid⟩ qp connected (p :: rest)
      obtain ⟨t, hsteps, hsame, hreply⟩ := reaches_reply hbacklog
      rw [qps_sendRequest, hattr] at hreply
      have hreply' : (t n).replies (s n).attempts = some (.tcpSucc attr) := hreply
      have hwait : (t n).phase = .waiting (s n).attempts connected (p :: rest) := by
        rw [(hsame n).1, phase_sendRequest, if_pos rfl]
      have hqp' : (t n).qps (rcQid p.1 p.2) = some qp := by
        rw [(hsame n).2, qps_sendRequest, hqp]
      refine ⟨t.set n (((t n).setQp (rcQid p.1 p.2) (qp.connected attr)).goTo
        (.connecting (connected + 1) rest)), (hsteps.head hsend).trans (step_set true ?_),
        fun k hk => ?_, by rw [set_self]; rfl⟩
      · simp [constructorStep, hwait, hreply', hqp', receive]
      · rw [set_of_ne hk, (hsame k).1, phase_sendRequest, if_neg hk]

/-! ### The cluster -/

/-- **A round in which every queue pair gets connected** is the last one. -/
lemma reaches_connected (h : Inv s) (hbuilt : ∀ k, (s k).Built) (hmax : c.nthds ≤ maxThreads)
    {connected : ℕ} {rest : List (ℕ × ℕ)} (hphase : (s n).phase = .connecting connected rest)
    (htotal : connected + rest.length = c.nthds * c.nnodes) :
    ∃ s', Reaches s s' ∧ SameOthers n s s' ∧ (s' n).phase = .done := by
  induction rest generalizing s connected with
  | nil =>
      refine ⟨_, step_set (x := (s n).goTo .done) true ?_, sameOthers_set _,
        by rw [set_self]; rfl⟩
      have htotal' : connected = c.nthds * c.nnodes := htotal
      simp [constructorStep, hphase, htotal']
  | cons p rest ih =>
      obtain ⟨t, hsteps, hothers, hphase'⟩ := reaches_count h hbuilt hmax hphase
      obtain ⟨s', hsteps', hothers', hdone⟩ := ih (h.reaches hsteps)
        (hothers.built (built_of_connecting hphase') hbuilt) hphase'
        (by rw [List.length_cons] at htotal; omega)
      exact ⟨s', hsteps.trans hsteps', hothers.trans hothers', hdone⟩

/-- **A node can finish** once all nodes have created their queue pairs. -/
lemma reaches_node_done (h : Inv s) (hbuilt : ∀ k, (s k).Built) (hmax : c.nthds ≤ maxThreads)
    (n : Fin c.nnodes) : ∃ s', Reaches s s' ∧ SameOthers n s s' ∧ (s' n).phase = .done := by
  have hconnecting : ∀ {s : State c} {connected : ℕ} {rest : List (ℕ × ℕ)}, Inv s →
      (∀ k, (s k).Built) → (s n).phase = .connecting connected rest →
      ∃ s', Reaches s s' ∧ SameOthers n s s' ∧ (s' n).phase = .done := by
    intro s connected rest h hbuilt hphase
    obtain ⟨t, connected', hsteps, hothers, hend⟩ := reaches_round_end h hphase
    have hothers' : SameOthers n s t := fun k hk => congrArg Node.phase (hothers k hk)
    by_cases htotal : connected' = c.nthds * c.nnodes
    · obtain ⟨s', hsteps', hothers'', hdone⟩ := reaches_connected (h.reaches hsteps)
        (hothers'.built (built_of_connecting hend) hbuilt) hmax hend htotal
      exact ⟨s', hsteps.trans hsteps', hothers'.trans hothers'', hdone⟩
    · -- another round
      have hagain : constructorStep n true t
          = some (t.set n ((t n).goTo (.connecting 0 c.pairs))) := by
        simp [constructorStep, hend, htotal]
      have hnext : (t.set n ((t n).goTo (.connecting 0 c.pairs)) n).phase
          = .connecting 0 c.pairs := by
        rw [set_self]
        rfl
      have hothers'' := hothers'.trans (sameOthers_set ((t n).goTo (.connecting 0 c.pairs)))
      obtain ⟨s', hsteps', hothers', hdone⟩ :=
        reaches_connected ((h.reaches hsteps).step (.build n true hagain))
          (hothers''.built (built_of_connecting hnext) hbuilt) hmax hnext
          (by rw [length_pairs, Nat.zero_add])
      exact ⟨s', (hsteps.trans (step_set true hagain)).trans hsteps', hothers''.trans hothers',
        hdone⟩
  have hn := hbuilt n
  rw [Node.Built] at hn
  cases hphase : (s n).phase with
  | starting => simp [hphase] at hn
  | creating rest => simp [hphase] at hn
  | connecting connected rest => exact hconnecting h hbuilt hphase
  | waiting attempt connected rest =>
      have hprogress := h.progress n
      rw [Node.Progress, hphase] at hprogress
      obtain ⟨p, rest, rfl⟩ := List.exists_cons_of_ne_nil hprogress.2.2.2
      -- the connection breaks
      have hbreak : constructorStep n false s
          = some (s.set n ((s n).goTo (.connecting connected rest))) := by
        simp [constructorStep, hphase]
      have hnext : (s.set n ((s n).goTo (.connecting connected rest)) n).phase
          = .connecting connected rest := by
        rw [set_self]
        rfl
      have hothers : SameOthers n s (s.set n ((s n).goTo (.connecting connected rest))) :=
        sameOthers_set _
      obtain ⟨s', hsteps, hothers', hdone⟩ := hconnecting (h.step (.build n false hbreak))
        (hothers.built (built_of_connecting hnext) hbuilt) hnext
      exact ⟨s', (step_set false hbreak).trans hsteps, hothers.trans hothers', hdone⟩
  | done => exact ⟨s, .refl, fun _ _ => rfl, hphase⟩

/-- All nodes get past the creation of their queue pairs. -/
lemma reaches_all_built (l : List (Fin c.nnodes)) (s : State c) :
    ∃ s', Reaches s s' ∧ ∀ n, (s n).Built ∨ n ∈ l → (s' n).Built := by
  induction l generalizing s with
  | nil => exact ⟨s, .refl, fun n hn => hn.resolve_right List.not_mem_nil⟩
  | cons n l ih =>
      obtain ⟨t, hsteps, hothers, hbuilt⟩ := reaches_built s n
      obtain ⟨s', hsteps', hbuilt'⟩ := ih t
      refine ⟨s', hsteps.trans hsteps', fun k hk => hbuilt' k ?_⟩
      by_cases hkn : k = n
      · exact Or.inl (hkn ▸ hbuilt)
      · rw [hothers k hkn]
        exact hk.imp_right fun hmem => (List.mem_cons.mp hmem).resolve_left hkn

/-- All nodes finish. -/
lemma reaches_all_done (hmax : c.nthds ≤ maxThreads) (l : List (Fin c.nnodes)) (h : Inv s)
    (hbuilt : ∀ k, (s k).Built) :
    ∃ s', Reaches s s' ∧ ∀ n, (s n).phase = .done ∨ n ∈ l → (s' n).phase = .done := by
  induction l generalizing s with
  | nil => exact ⟨s, .refl, fun n hn => hn.resolve_right List.not_mem_nil⟩
  | cons n l ih =>
      obtain ⟨t, hsteps, hothers, hdone⟩ := reaches_node_done h hbuilt hmax n
      obtain ⟨s', hsteps', hdone'⟩ := ih (h.reaches hsteps)
        (hothers.built (by simp [Node.Built, hdone]) hbuilt)
      refine ⟨s', hsteps.trans hsteps', fun k hk => hdone' k ?_⟩
      by_cases hkn : k = n
      · exact Or.inl (hkn ▸ hdone)
      · rw [hothers k hkn]
        exact hk.imp_right fun hmem => (List.mem_cons.mp hmem).resolve_left hkn

/-- **The queue pairs can be connected exactly with at most 200 threads.** With so many, whatever
has happened and whatever requests got lost, the nodes of a cluster can go on so that every
constructor gets through its rounds; with more of them no constructor does, in any interleaving. -/
theorem reaches_done (c : Cluster) :
    (c.nthds ≤ maxThreads → ∀ s, Reachable c s →
      ∃ s', Reaches s s' ∧ ∀ n, (s' n).phase = .done) ∧
    (maxThreads < c.nthds → ∀ s, Reachable c s → ∀ n, (s n).phase ≠ .done) := by
  refine ⟨fun hmax s hs => ?_, fun hlt s hs n hdone => ?_⟩
  · obtain ⟨t, hsteps, hbuilt⟩ := reaches_all_built (List.finRange c.nnodes) s
    obtain ⟨s', hsteps', hdone⟩ := reaches_all_done hmax (List.finRange c.nnodes)
      ((inv_of_reachable hs).reaches hsteps) fun n => hbuilt n (Or.inr (List.mem_finRange n))
    exact ⟨s', hsteps.trans hsteps', fun n => hdone n (Or.inr (List.mem_finRange n))⟩
  · exact Nat.not_lt_of_le ((inv_of_reachable hs).nthds_le hdone) hlt

/-- **When a constructor is through, its queue pairs are connected in pairs.** In every interleaving
and whatever requests got lost, each queue pair of the node holds the memory, the port and the
number of the queue pair that its peer has created for the same thread and for this node; and that
one, if it is connected, is connected to it. -/
theorem paired_of_done (h : Reachable c s) {n : Fin c.nnodes} (hdone : (s n).phase = .done) :
    ∀ tid < c.nthds, ∀ i : Fin c.nnodes, ∃ qp qp',
      (s n).qps (rcQid tid i) = some qp ∧ qp.tid = tid ∧ qp.nid = i ∧ qp.inited = true ∧
      qp.remoteAttr = some ⟨some (c.device i).region, (c.device i).lid,
        (c.device i).qpNum (rcQid tid n), (c.device i).gid⟩ ∧
      (s i).qps (rcQid tid n) = some qp' ∧ qp'.tid = tid ∧ qp'.nid = n ∧
      (qp'.inited = true → qp'.remoteAttr = some ⟨some (c.device n).region, (c.device n).lid,
        (c.device n).qpNum (rcQid tid i), (c.device n).gid⟩) := by
  have hinv := inv_of_reachable h
  have hmax := hinv.nthds_le hdone
  have hprogress := hinv.progress n
  rw [Node.Progress, hdone] at hprogress
  -- the ids of few threads tell the threads and the nodes apart
  have hids : ∀ (k : Fin c.nnodes) (tid nid : ℕ) (qp : Qp), tid < c.nthds →
      (s k).qps (rcQid tid nid) = some qp → qp.tid = tid ∧ qp.nid = nid :=
    fun k tid nid qp htid hqp => by
    obtain ⟨hmem, hid⟩ := hinv.created k _ qp hqp
    obtain ⟨heq, heq'⟩ := rcQid_inj (htid.trans_le hmax) ((mem_pairs.mp hmem).1.trans_le hmax) hid
    exact ⟨heq.symm, heq'.symm⟩
  have hattr : ∀ (k k' : Fin c.nnodes) (tid : ℕ) (qp : Qp), tid < c.nthds →
      (s k).qps (rcQid tid k') = some qp → qp.inited = true →
      qp.remoteAttr = some ⟨some (c.device k').region, (c.device k').lid,
        (c.device k').qpNum (rcQid tid k), (c.device k').gid⟩ ∧
      ((s k').qps (rcQid tid k)).isSome = true := fun k k' tid qp htid hqp hinited => by
    obtain ⟨attr, hremote, m, hnid, hud, rfl, hsome⟩ := hinv.connected k _ qp hqp hinited
    obtain ⟨rfl, hnid'⟩ := hids k tid k' qp htid hqp
    obtain rfl : m = k' := Fin.ext (hnid.symm.trans hnid')
    have hconn : isConn (rcQid qp.tid k) = true := by
      rw [isUd, decide_eq_false_iff_not, not_le] at hud
      rw [isConn, decide_eq_true_iff]
      exact ⟨Nat.zero_le _, hud⟩
    exact ⟨by rw [hremote, Device.getLocalQpAttr, if_pos hconn], hsome⟩
  intro tid htid i
  obtain ⟨qp, hqp, hinited⟩ := hprogress.2 (tid, i) (mem_pairs.mpr ⟨htid, i.isLt⟩)
  obtain ⟨hremote, hsome⟩ := hattr n i tid qp htid hqp hinited
  obtain ⟨qp', hqp'⟩ := Option.isSome_iff_exists.mp hsome
  exact ⟨qp, qp', hqp, (hids n tid i qp htid hqp).1, (hids n tid i qp htid hqp).2, hinited, hremote,
    hqp', (hids i tid n qp' htid hqp').1, (hids i tid n qp' htid hqp').2,
    fun hinited' => (hattr i n tid qp' htid hqp' hinited').1⟩

/-- Two nodes of one thread. -/
def twoNodes : Cluster where
  nnodes := 2
  nthds := 1
  device n := ⟨⟨4096 * n, 4096, 7 + n⟩, 3 + n, 5 + n, fun qid => qid + 17⟩
  nnodes_le := by decide
  nthds_le := by decide

/-- The two nodes, once both constructors are through. -/
theorem paired_twoNodes :
    ∃ s, Reachable twoNodes s ∧ (∀ n, (s n).phase = .done) ∧ ∃ qp,
      (s (0 : Fin 2)).qps (rcQid 0 1) = some qp ∧
      qp.remoteAttr = some ⟨some ⟨4096, 4096, 8⟩, 4, 17, 6⟩ := by
  have hmax : twoNodes.nthds ≤ maxThreads := by decide
  obtain ⟨t, hsteps, hbuilt⟩ :=
    reaches_all_built (List.finRange twoNodes.nnodes) (State.init twoNodes)
  obtain ⟨s, hsteps', hdone⟩ := reaches_all_done hmax (List.finRange twoNodes.nnodes)
    (inv_init.reaches hsteps) fun n => hbuilt n (Or.inr (List.mem_finRange n))
  have hs : Reachable twoNodes s := (Reachable.init.trans hsteps).trans hsteps'
  have hdone' : ∀ n, (s n).phase = .done := fun n => hdone n (Or.inr (List.mem_finRange n))
  obtain ⟨qp, -, hqp, -, -, -, hremote, -⟩ :=
    paired_of_done hs (hdone' (0 : Fin 2)) 0 Nat.one_pos (1 : Fin 2)
  exact ⟨s, hs, hdone', qp, hqp, hremote⟩

end Connect

end RedAnns
