import RedAnns.Store.Batches

/-!
The batched reads of `core/rdma.hpp`: seven routines that post the reads of one batch, all signaled
or only the last one of each server, one by one or by one doorbell a server, and poll for them at
once or in a wait of their own.

* `RdmaThread`: the queue pairs of a thread with their counters of pending requests, what was posted
  to each server so far, and how many completions were taken.
* `Variant`, `Variant.run`: the seven routines, the asynchronous ones with their wait.
* `Posted`: what is known while a batch is being posted; every sender establishes it
  (`postEach_posted`, `doorbellEach_posted`, `unsignalEach_posted`).
-/

namespace RedAnns

open CompletionQueue

/-- A thread with its queue pairs: the counter `pendings` of each, and, for the record, the requests
posted to each server so far and how many completions were polled. -/
structure RdmaThread where
  net : Net
  pendings : ServerId → ℕ
  posted : ServerId → List Request
  polled : ServerId → ℕ

/-- `POLL_THRSHOLD`. -/
def pollThreshold : ℕ := 1024

namespace RdmaThread

section Operations

variable (hw : Hardware)

/-- `ibv_post_send` of a chain of requests. -/
def postSend (s : ServerId) (rs : List Request) (t : RdmaThread) : RdmaThread :=
  { t with
    net := postTo (progress hw t.net) s rs
    posted := Function.update t.posted s (t.posted s ++ rs) }

/-- `poll_completion`. -/
def pollCompletion (s : ServerId) (t : RdmaThread) : Except Stop RdmaThread := do
  let net ← RedAnns.pollCompletion hw s t.net
  return { t with
    net
    pendings := Function.update t.pendings s 0
    polled := Function.update t.polled s (t.polled s + 1) }

/-- `poll_completions`, into an array of `RC_MAX_SEND_SIZE` completions. -/
def pollCompletions (s : ServerId) (cqNum : ℕ) (t : RdmaThread) : Except Stop RdmaThread := do
  if rcMaxSendSize < cqNum then throw .aborted
  let net ← RedAnns.pollCompletions hw s cqNum t.net
  return { t with
    net
    pendings := Function.update t.pendings s 0
    polled := Function.update t.polled s (t.polled s + cqNum) }

/-- The body of the loop of `rc_post_doorbell`: `first_send` signals the request, and `need_poll`
counts it and may poll. -/
def fillRequest (s : ServerId) (acc : RdmaThread × List Request) (r : Request) :
    Except Stop (RdmaThread × List Request) := do
  let firstSend := acc.1.pendings s = 0
  let needPoll := pollThreshold ≤ acc.1.pendings s
  let t := { acc.1 with
    pendings := Function.update acc.1.pendings s (acc.1.pendings s + 1) }
  let t ← if needPoll then pollCompletion hw s t else pure t
  return (t, acc.2 ++ [if firstSend then { r with signaled := true } else r])

/-- `rc_post_doorbell`. -/
def rcPostDoorbell (s : ServerId) (reqs : List Request) (t : RdmaThread) :
    Except Stop RdmaThread := do
  if maxDoorbellSize < reqs.length then throw .aborted
  let (t, sr) ← reqs.foldlM (fillRequest hw s) (t, [])
  return postSend hw s sr t

/-- `rc_post_doorbell` with `use_unsignal`. -/
def rcPostDoorbellUnsignal (s : ServerId) (reqs : List Request) (t : RdmaThread) :
    Except Stop RdmaThread := do
  if maxDoorbellSize < reqs.length then throw .aborted
  return postSend hw s (signalLast reqs) t

/-! ### Posting a batch -/

/-- The body of the loop that fills `reqs`, an array of `MAX_DOORBELL_SIZE` requests. -/
def fillReq (sz : ℕ) (signaled : Bool) (sid : ServerId) (reqs : List Request) (f : Fetch) :
    Except Stop (List Request) :=
  if f.nid = sid then
    if reqs.length < maxDoorbellSize then .ok (reqs ++ [f.request sz signaled])
    else .error .aborted
  else .ok reqs

/-- The loop that fills `reqs` for one server. -/
def fillReqs (sz : ℕ) (signaled : Bool) (fetches : List Fetch) (sid : ServerId) :
    Except Stop (List Request) :=
  fetches.foldlM (fillReq sz signaled sid) []

/-- The loop that posts every read signaled and counts it, in `sr_cnt` or in `polls`. -/
def postEach (sz : ℕ) (fetches : List Fetch) (acc : RdmaThread × Polls) : RdmaThread × Polls :=
  fetches.foldl (fun acc f => (postSend hw f.nid [f.request sz true] acc.1,
    Function.update acc.2 f.nid (acc.2 f.nid + 1))) acc

/-- The body of the loop that posts the reads of every server by one doorbell; `post` is the
doorbell, and the reads are counted in `sr_cnt` or in `polls`. -/
def doorbellOne (post : ServerId → List Request → RdmaThread → Except Stop RdmaThread) (sz : ℕ)
    (signaled : Bool) (fetches : List Fetch) (acc : RdmaThread × Polls) (sid : ServerId) :
    Except Stop (RdmaThread × Polls) := do
  let reqs ← fillReqs sz signaled fetches sid
  let polls := Function.update acc.2 sid reqs.length
  if polls sid > 0 then return (← post sid reqs acc.1, polls)
  else return (acc.1, polls)

/-- The loop over the servers. -/
def doorbellEach (post : ServerId → List Request → RdmaThread → Except Stop RdmaThread) (sz : ℕ)
    (signaled : Bool) (servers : List ServerId) (fetches : List Fetch) (acc : RdmaThread × Polls) :
    Except Stop (RdmaThread × Polls) :=
  servers.foldlM (doorbellOne post sz signaled fetches) acc

/-- `last_sr`: the index of the last read from a server, or -1, as an `int`. -/
def lastSr (fetches : List Fetch) (sid : ServerId) : ℤ :=
  fetches.zipIdx.foldl (fun last p => if p.1.nid = sid then (p.2 : ℤ).bmod (2 ^ 32) else last) (-1)

/-- The body of the loop that posts the reads from one server, of which the last one is signaled.
The reads are counted in `polls`, which only the asynchronous routine does. -/
def unsignalPost (sz : ℕ) (sid : ServerId) (last : ℤ) (acc : RdmaThread × Polls) (p : Fetch × ℕ) :
    RdmaThread × Polls :=
  if p.1.nid = sid then
    (postSend hw sid [p.1.request sz (decide ((p.2 : ℤ) = last))] acc.1,
      Function.update acc.2 sid (acc.2 sid + 1))
  else acc

/-- The loop for one server; the index of the last read is compared as a `size_t`. -/
def unsignalOne (sz : ℕ) (fetches : List Fetch) (sid : ServerId) (acc : RdmaThread × Polls) :
    RdmaThread × Polls :=
  fetches.zipIdx.foldl (unsignalPost hw sz sid (lastSr fetches sid % 2 ^ 64)) acc

/-- The loop over the servers around it. -/
def unsignalEach (sz : ℕ) (servers : List ServerId) (fetches : List Fetch)
    (acc : RdmaThread × Polls) : RdmaThread × Polls :=
  servers.foldl (fun acc sid => unsignalOne hw sz fetches sid acc) acc

/-! ### Polling for a batch -/

/-- The loop over the servers that polls for those that something is due from. -/
def pollEach (due : ServerId → Bool) (poll : ServerId → RdmaThread → Except Stop RdmaThread)
    (servers : List ServerId) (t : RdmaThread) : Except Stop RdmaThread :=
  servers.foldlM (fun t sid => if due sid then poll sid t else .ok t) t

/-- The loop of the waits, which clears `polls`. -/
def waitEach (poll : ServerId → ℕ → RdmaThread → Except Stop RdmaThread) (servers : List ServerId)
    (acc : RdmaThread × Polls) : Except Stop (RdmaThread × Polls) :=
  servers.foldlM (fun acc sid =>
    if acc.2 sid > 0 then do
      let t ← poll sid (acc.2 sid) acc.1
      return (t, Function.update acc.2 sid 0)
    else .ok acc) acc

/-! ### The routines -/

variable (servers : List ServerId) (sz : ℕ) (fetches : List Fetch) (t : RdmaThread) (polls : Polls)

/-- `RdmaReadBatch`. -/
def rdmaReadBatch : Except Stop RdmaThread :=
  let (t, srCnt) := postEach hw sz fetches (t, fun _ => 0)
  pollEach (fun sid => srCnt sid > 0) (fun sid => pollCompletions hw sid (srCnt sid)) servers t

/-- `RdmaReadBatchDoorbell`. -/
def rdmaReadBatchDoorbell : Except Stop RdmaThread := do
  let (t, srCnt) ← doorbellEach (rcPostDoorbell hw) sz true servers fetches (t, fun _ => 0)
  pollEach (fun sid => srCnt sid > 0) (fun sid => pollCompletions hw sid (srCnt sid)) servers t

/-- `RdmaReadBatchUnsignal`. -/
def rdmaReadBatchUnsignal : Except Stop RdmaThread :=
  let (t, _) := unsignalEach hw sz servers fetches (t, fun _ => 0)
  pollEach (fun sid => lastSr fetches sid > -1) (pollCompletion hw) servers t

/-- `RdmaReadBatch_Async_Send`. -/
def rdmaReadBatchAsyncSend : RdmaThread × Polls := postEach hw sz fetches (t, polls)

/-- `RdmaReadBatchDoorbell_Async_Send`. -/
def rdmaReadBatchDoorbellAsyncSend : Except Stop (RdmaThread × Polls) :=
  doorbellEach (rcPostDoorbell hw) sz true servers fetches (t, polls)

/-- `RdmaReadBatchUnsignal_Async_Send`. -/
def rdmaReadBatchUnsignalAsyncSend : RdmaThread × Polls :=
  unsignalEach hw sz servers fetches (t, polls)

/-- `RdmaReadBatchDoorbellUnsignal_Async_Send`. -/
def rdmaReadBatchDoorbellUnsignalAsyncSend : Except Stop (RdmaThread × Polls) :=
  doorbellEach (rcPostDoorbellUnsignal hw) sz false servers fetches (t, polls)

/-- `RdmaReadBatch_Async_Wait`. -/
def rdmaReadBatchAsyncWait : Except Stop (RdmaThread × Polls) :=
  waitEach (pollCompletions hw) servers (t, polls)

/-- `RdmaReadBatchUnsignal_Async_Wait`. -/
def rdmaReadBatchUnsignalAsyncWait : Except Stop (RdmaThread × Polls) :=
  waitEach (fun sid _ => pollCompletion hw sid) servers (t, polls)

end Operations

/-- The seven routines. -/
inductive Variant
  | readBatch
  | readBatchDoorbell
  | readBatchUnsignal
  | asyncSend
  | doorbellAsyncSend
  | unsignalAsyncSend
  | doorbellUnsignalAsyncSend
  deriving DecidableEq

/-- A routine, and after an asynchronous one its wait. -/
def Variant.run (hw : Hardware) (servers : List ServerId) (sz : ℕ) (fetches : List Fetch)
    (t : RdmaThread) (polls : Polls) : Variant → Except Stop (RdmaThread × Polls)
  | .readBatch => do return (← rdmaReadBatch hw servers sz fetches t, polls)
  | .readBatchDoorbell => do return (← rdmaReadBatchDoorbell hw servers sz fetches t, polls)
  | .readBatchUnsignal => do return (← rdmaReadBatchUnsignal hw servers sz fetches t, polls)
  | .asyncSend =>
      let (t, polls) := rdmaReadBatchAsyncSend hw sz fetches t polls
      rdmaReadBatchAsyncWait hw servers t polls
  | .doorbellAsyncSend => do
      let (t, polls) ← rdmaReadBatchDoorbellAsyncSend hw servers sz fetches t polls
      rdmaReadBatchAsyncWait hw servers t polls
  | .unsignalAsyncSend =>
      let (t, polls) := rdmaReadBatchUnsignalAsyncSend hw servers sz fetches t polls
      rdmaReadBatchUnsignalAsyncWait hw servers t polls
  | .doorbellUnsignalAsyncSend => do
      let (t, polls) ← rdmaReadBatchDoorbellUnsignalAsyncSend hw servers sz fetches t polls
      rdmaReadBatchUnsignalAsyncWait hw servers t polls

/-! ### The queue pairs of a thread -/

section Tracked

variable {hw : Hardware} {net : Net}

/-- What is known of every queue pair of a thread. -/
def Tracked (net : Net) (G : ServerId → List (List Request)) : Prop :=
  ∀ s, ∃ done, Tracks Request.signaled (net.qps s) (G s) done

/-- What is known of every queue pair of a thread while requests are being posted. -/
def Followed (net : Net) (rs : ServerId → List Request) : Prop :=
  ∀ s, ∃ done, CompletionQueue.Follows Request.signaled (net.qps s) (rs s) done

variable {G : ServerId → List (List Request)} {rs : ServerId → List Request} {s : ServerId}

lemma Tracked.followed (h : Tracked net G) : Followed net fun s => (G s).flatten := fun s => by
  obtain ⟨done, hdone⟩ := h s
  exact ⟨done, hdone.follows⟩

lemma Followed.tracked (h : Followed net rs) (hG : ∀ s, rs s = (G s).flatten)
    (hgroups : ∀ s, ∀ g ∈ G s, IsGroup Request.signaled g) : Tracked net G := fun s => by
  obtain ⟨done, hdone⟩ := h s
  exact ⟨done, hdone.tracks (hG s) (hgroups s)⟩

lemma Followed.completeOne (h : Followed net rs) (s : ServerId) :
    Followed (completeOne hw net s) rs := by
  cases hq : (net.qps s).posted with
  | nil => rwa [completeOne_of_nil hq]
  | cons r rs' =>
      rw [completeOne_of_posted hq]
      intro s'
      obtain ⟨done, hdone⟩ := h s'
      by_cases hs : s' = s
      · subst hs
        refine ⟨done ++ [r], ?_⟩
        simp only [Function.update_self]
        exact hdone.complete hq
      · refine ⟨done, ?_⟩
        simp only [Function.update_of_ne hs]
        exact hdone

lemma Followed.progress (h : Followed net rs) : Followed (progress hw net) rs := by
  have key : ∀ (l : List ServerId) (net : Net), Followed net rs →
      Followed (l.foldl (RedAnns.completeOne hw) net) rs := by
    intro l
    induction l with
    | nil => exact fun _ h => h
    | cons s l ih => exact fun net h => ih _ (h.completeOne s)
  exact key _ _ h

lemma Followed.postTo (h : Followed net rs) (s : ServerId) (rs' : List Request) :
    Followed (postTo net s rs') (Function.update rs s (rs s ++ rs')) := by
  intro s'
  obtain ⟨done, hdone⟩ := h s'
  refine ⟨done, ?_⟩
  by_cases hs : s' = s
  · subst hs
    simp only [RedAnns.postTo, Function.update_self]
    exact hdone.post rs'
  · simp only [RedAnns.postTo, Function.update_of_ne hs]
    exact hdone

lemma Tracked.completeOne (h : Tracked net G) (s : ServerId) : Tracked (completeOne hw net s) G :=
  (h.followed.completeOne s).tracked (fun _ => rfl) fun s' g hg => by
    obtain ⟨done, hdone⟩ := h s'
    exact hdone.groups g hg

lemma Tracked.progress (h : Tracked net G) : Tracked (progress hw net) G :=
  h.followed.progress.tracked (fun _ => rfl) fun s' g hg => by
    obtain ⟨done, hdone⟩ := h s'
    exact hdone.groups g hg

lemma Tracked.eq_idle (h : Tracked net G) (hG : G s = []) : net.qps s = idle := by
  obtain ⟨done, hdone⟩ := h s
  rw [hG] at hdone
  exact hdone.eq_idle.1

/-- **One poll, one group.** -/
lemma Tracked.pollCompletion (h : Tracked net G) {g : List Request} {gs : List (List Request)}
    (hG : G s = g :: gs) (hne : g ≠ []) :
    ∃ net', RedAnns.pollCompletion hw s net = .ok net' ∧ Tracked net' (Function.update G s gs) := by
  have hround : ∀ n : Net, Tracked n G → (n.qps s).completions.isEmpty = true →
      Tracked (RedAnns.completeOne hw (RedAnns.progress hw n) s) G ∧
      ((RedAnns.completeOne hw (RedAnns.progress hw n) s).qps s).posted.length
        < (n.qps s).posted.length := by
    intro n hn hc
    refine ⟨hn.progress.completeOne s, length_posted_round_lt ?_⟩
    obtain ⟨done, hdone⟩ := hn s
    rw [hG] at hdone
    exact hdone.posted_ne_nil hne (List.isEmpty_iff.mp hc)
  have hstart : Tracked (RedAnns.progress hw net) G := h.progress
  have hinv := whileLoop_invariant (fun n hn hc => (hround n hn hc).1) hstart
    (net.qps s).posted.length
  have hexit := whileLoop_exits (I := fun n => Tracked n G) (fun n => (n.qps s).posted.length)
    hround hstart length_posted_progress_le
  rw [RedAnns.pollCompletion]
  generalize whileLoop _ _ _ _ = n at hinv hexit ⊢
  cases hq : (n.qps s).completions with
  | nil =>
      rw [hq] at hexit
      exact absurd hexit (by simp)
  | cons c cs =>
      refine ⟨{ n with qps := Function.update n.qps s ⟨(n.qps s).posted, cs⟩ }, rfl, fun s' => ?_⟩
      obtain ⟨done, hdone⟩ := hinv s'
      by_cases hs : s' = s
      · subst hs
        rw [hG] at hdone
        obtain ⟨done', -, hdone'⟩ := hdone.front hne hq
        refine ⟨done', ?_⟩
        simp only [Function.update_self]
        exact hdone'
      · refine ⟨done, ?_⟩
        simp only [Function.update_of_ne hs]
        exact hdone

/-- Polling as often as there are groups. -/
lemma Tracked.pollCompletions {l gs : List (List Request)} (h : Tracked net G)
    (hG : G s = l ++ gs) (hne : ∀ g ∈ l, g ≠ []) :
    ∃ net', RedAnns.pollCompletions hw s l.length net = .ok net' ∧
      Tracked net' (Function.update G s gs) := by
  induction l generalizing net G with
  | nil =>
      rw [List.nil_append] at hG
      refine ⟨net, rfl, ?_⟩
      rwa [← hG, Function.update_eq_self]
  | cons g l ih =>
      obtain ⟨net₁, hrun, h₁⟩ : ∃ net', RedAnns.pollCompletion hw s net = .ok net' ∧
          Tracked net' (Function.update G s (l ++ gs)) :=
        h.pollCompletion hG (hne g (List.mem_cons_self ..))
      obtain ⟨net₂, hrun₂, h₂⟩ := ih h₁ (Function.update_self ..) fun g' hg' =>
        hne g' (List.mem_cons_of_mem _ hg')
      rw [Function.update_idem] at h₂
      refine ⟨net₂, ?_, h₂⟩
      rw [List.length_cons, RedAnns.pollCompletions, hrun]
      exact hrun₂

end Tracked

/-! ### Posting a batch to idle queue pairs -/

section Posting

variable {hw : Hardware} {servers : List ServerId} {sz : ℕ} {fetches : List Fetch}
  {t₀ t : RdmaThread} {polls : Polls} {rs : ServerId → List Request} {s : ServerId}

/-- Nothing is posted, nothing is to be polled and nothing is pending. -/
structure Idle (t : RdmaThread) : Prop where
  qps : ∀ s, t.net.qps s = idle
  pendings : ∀ s, t.pendings s = 0

/-- **What is known while a batch is being posted**: since the thread was idle, in the state `t₀`,
the requests `rs s` were posted to `s`, and nothing was polled. -/
structure Posted (t₀ : RdmaThread) (rs : ServerId → List Request) (t : RdmaThread) : Prop where
  followed : Followed t.net rs
  posted : ∀ s, t.posted s = t₀.posted s ++ rs s
  polled : t.polled = t₀.polled
  pendings : ∀ s, rs s = [] → t.pendings s = 0

lemma Idle.posted (h : Idle t) : Posted t (fun _ => []) t where
  followed := fun s => ⟨[], by rw [h.qps s]; exact follows_idle⟩
  posted := fun s => (List.append_nil _).symm
  polled := rfl
  pendings := fun s _ => h.pendings s

lemma Posted.postSend (h : Posted t₀ rs t) (hw : Hardware) (s : ServerId) (rs' : List Request) :
    Posted t₀ (Function.update rs s (rs s ++ rs')) (postSend hw s rs' t) where
  followed := h.followed.progress.postTo s rs'
  posted := fun s' => by
    by_cases hs : s' = s
    · subst hs
      simp only [RdmaThread.postSend, Function.update_self, h.posted, List.append_assoc]
    · simp only [RdmaThread.postSend, Function.update_of_ne hs, h.posted]
  polled := h.polled
  pendings := fun s' hnil => h.pendings s' (by
    by_cases hs : s' = s
    · subst hs
      rw [Function.update_self] at hnil
      exact (List.append_eq_nil_iff.mp hnil).1
    · rwa [Function.update_of_ne hs] at hnil)

/-- The requests of a batch to one server. -/
def readsTo (sz : ℕ) (signaled : Bool) (fetches : List Fetch) (s : ServerId) : List Request :=
  (fetches.filter (·.nid = s)).map fun f => f.request sz signaled

lemma readsTo_cons (signaled : Bool) (f : Fetch) (fetches : List Fetch) (s : ServerId) :
    readsTo sz signaled (f :: fetches) s
      = if f.nid = s then f.request sz signaled :: readsTo sz signaled fetches s
        else readsTo sz signaled fetches s := by
  by_cases hs : f.nid = s
  · rw [readsTo, List.filter_cons_of_pos (by simpa using hs), if_pos hs]
    rfl
  · rw [readsTo, List.filter_cons_of_neg (by simpa using hs), if_neg hs]
    rfl

/-- **Posting one by one, all signaled.** -/
lemma postEach_posted (hw : Hardware) (sz : ℕ) (fetches : List Fetch) (h : Posted t₀ rs t)
    (polls : Polls) :
    Posted t₀ (fun s => rs s ++ readsTo sz true fetches s)
      (postEach hw sz fetches (t, polls)).1 := by
  induction fetches generalizing t polls rs with
  | nil => simpa [readsTo, postEach] using h
  | cons f fetches ih =>
      have hrs : (fun s => Function.update rs f.nid (rs f.nid ++ [f.request sz true]) s
            ++ readsTo sz true fetches s)
          = fun s => rs s ++ readsTo sz true (f :: fetches) s := by
        funext s
        rw [readsTo_cons]
        by_cases hs : s = f.nid
        · subst hs
          rw [Function.update_self, if_pos rfl, List.append_assoc, List.singleton_append]
        · rw [Function.update_of_ne hs, if_neg (Ne.symm hs)]
      rw [← hrs]
      exact ih (h.postSend hw f.nid [f.request sz true])
        (Function.update polls f.nid (polls f.nid + 1))

/-- Every request is counted. -/
lemma postEach_snd (hw : Hardware) (sz : ℕ) (fetches : List Fetch) (t : RdmaThread)
    (polls : Polls) :
    (postEach hw sz fetches (t, polls)).2
      = fun s => polls s + (readsTo sz true fetches s).length := by
  induction fetches generalizing t polls with
  | nil => rfl
  | cons f fetches ih =>
      refine (ih _ (Function.update polls f.nid (polls f.nid + 1))).trans (funext fun s => ?_)
      rw [readsTo_cons]
      by_cases hs : s = f.nid
      · subst hs
        rw [Function.update_self, if_pos rfl, List.length_cons]
        omega
      · rw [Function.update_of_ne hs, if_neg (Ne.symm hs)]

/-- The array of requests does not overflow. -/
lemma fillReqs_eq (signaled : Bool) (h : (fetches.filter (·.nid = s)).length ≤ maxDoorbellSize) :
    fillReqs sz signaled fetches s = .ok (readsTo sz signaled fetches s) := by
  have key : ∀ (fetches : List Fetch) (reqs : List Request),
      reqs.length + (readsTo sz signaled fetches s).length ≤ maxDoorbellSize →
      fetches.foldlM (fillReq sz signaled s) reqs
        = .ok (reqs ++ readsTo sz signaled fetches s) := by
    intro fetches
    induction fetches with
    | nil =>
        intro reqs _
        exact congrArg Except.ok (List.append_nil reqs).symm
    | cons f fetches ih =>
        intro reqs hlen
        rw [readsTo_cons] at hlen ⊢
        rw [List.foldlM_cons, fillReq]
        by_cases hs : f.nid = s
        · rw [if_pos hs] at hlen ⊢
          rw [List.length_cons] at hlen
          rw [if_pos hs, if_pos (by omega)]
          refine (ih (reqs ++ [f.request sz signaled]) ?_).trans ?_
          · rw [List.length_append, List.length_singleton]
            omega
          · rw [List.append_assoc, List.singleton_append]
        · rw [if_neg hs] at hlen ⊢
          rw [if_neg hs]
          exact ih reqs hlen
  have hlen : (readsTo sz signaled fetches s).length ≤ maxDoorbellSize := by
    rwa [readsTo, List.length_map]
  exact key fetches [] (by rwa [List.length_nil, Nat.zero_add])

/-- No poll falls within a doorbell, as long as little is pending, and signaled requests stay as
they are. -/
lemma foldlM_fillRequest (hw : Hardware) {reqs : List Request}
    (hsig : ∀ r ∈ reqs, r.signaled = true)
    (hlen : t.pendings s + reqs.length ≤ pollThreshold) (sr : List Request) :
    reqs.foldlM (fillRequest hw s) (t, sr)
      = .ok ({ t with pendings := Function.update t.pendings s (t.pendings s + reqs.length) },
          sr ++ reqs) := by
  induction reqs generalizing t sr with
  | nil =>
      rw [List.length_nil, Nat.add_zero, Function.update_eq_self, List.append_nil]
      rfl
  | cons r reqs ih =>
      rw [List.length_cons] at hlen
      have hstep : fillRequest hw s (t, sr) r
          = .ok ({ t with pendings := Function.update t.pendings s (t.pendings s + 1) },
              sr ++ [r]) := by
        have hr : ({ r with signaled := true } : Request) = r := by
          rw [← hsig r (List.mem_cons_self ..)]
        have hpoll : ¬ pollThreshold ≤ t.pendings s := by omega
        simp only [fillRequest, if_neg hpoll, hr, ite_self]
        rfl
      rw [List.foldlM_cons, hstep]
      refine (ih (fun r' hr' => hsig r' (List.mem_cons_of_mem _ hr')) ?_ (sr ++ [r])).trans ?_
      · simp only [Function.update_self]
        omega
      · simp only [Function.update_self, Function.update_idem, List.length_cons, List.append_assoc,
          List.singleton_append]
        rw [show t.pendings s + 1 + reqs.length = t.pendings s + (reqs.length + 1) by omega]

/-- **One doorbell, all signaled.** -/
lemma rcPostDoorbell_posted (h : Posted t₀ rs t) (hs : rs s = []) {reqs : List Request}
    (hsig : ∀ r ∈ reqs, r.signaled = true) (hlen : reqs.length ≤ maxDoorbellSize)
    (hne : reqs ≠ []) :
    ∃ t', rcPostDoorbell hw s reqs t = .ok t' ∧ Posted t₀ (Function.update rs s reqs) t' := by
  have hfill := foldlM_fillRequest (t := t) (s := s) hw hsig
    (by rw [h.pendings s hs, Nat.zero_add]; exact hlen.trans (by decide)) []
  refine ⟨postSend hw s reqs { t with
    pendings := Function.update t.pendings s (t.pendings s + reqs.length) }, ?_, ?_⟩
  · rw [rcPostDoorbell, if_neg (not_lt.mpr hlen), hfill]
    rfl
  · have hpost := h.postSend hw s reqs
    rw [hs, List.nil_append] at hpost
    refine ⟨hpost.followed, hpost.posted, hpost.polled, fun s' hnil => ?_⟩
    by_cases hs' : s' = s
    · subst hs'
      rw [Function.update_self] at hnil
      exact absurd hnil hne
    · simp only [RdmaThread.postSend, Function.update_of_ne hs']
      rw [Function.update_of_ne hs'] at hnil
      exact h.pendings s' hnil

/-- **One doorbell, the last request signaled.** -/
lemma rcPostDoorbellUnsignal_posted (h : Posted t₀ rs t) (hs : rs s = []) {reqs : List Request}
    (hlen : reqs.length ≤ maxDoorbellSize) :
    ∃ t', rcPostDoorbellUnsignal hw s reqs t = .ok t' ∧
      Posted t₀ (Function.update rs s (signalLast reqs)) t' := by
  refine ⟨postSend hw s (signalLast reqs) t, ?_, ?_⟩
  · rw [rcPostDoorbellUnsignal, if_neg (not_lt.mpr hlen)]
    rfl
  · have hpost := h.postSend hw s (signalLast reqs)
    rwa [hs, List.nil_append] at hpost

/-- A loop that sets one entry for every server. -/
lemma ite_mem_update {α : Type} (hs : s ∉ servers) (a b : ServerId → α) :
    (fun s' => if s' ∈ servers then a s' else Function.update b s (a s) s')
      = fun s' => if s' ∈ s :: servers then a s' else b s' := by
  funext s'
  by_cases heq : s' = s
  · subst heq
    rw [if_neg hs, if_pos (List.mem_cons_self ..), Function.update_self]
  · rw [Function.update_of_ne heq]
    simp [heq]

/-- A loop that sets one entry for every server and leaves the others as they should be. -/
lemma ite_mem_eq {α : Type} {a b : ServerId → α} (h : ∀ s, s ∉ servers → b s = a s) :
    (fun s => if s ∈ servers then a s else b s) = a := by
  funext s
  by_cases hs : s ∈ servers
  · rw [if_pos hs]
  · rw [if_neg hs, h s hs]

/-- **One doorbell a server.** -/
lemma doorbellEach_posted {post : ServerId → List Request → RdmaThread → Except Stop RdmaThread}
    {signaled : Bool} {g : ServerId → List Request}
    (hg : ∀ s, (g s).length = (readsTo sz signaled fetches s).length)
    (hpost : ∀ s t rs, Posted t₀ rs t → rs s = [] → readsTo sz signaled fetches s ≠ [] →
      ∃ t', post s (readsTo sz signaled fetches s) t = .ok t' ∧
        Posted t₀ (Function.update rs s (g s)) t')
    (hmax : ∀ s, (fetches.filter (·.nid = s)).length ≤ maxDoorbellSize) (hnd : servers.Nodup)
    (h : Posted t₀ rs t) (hrs : ∀ s ∈ servers, rs s = []) (polls : Polls) :
    ∃ t', doorbellEach post sz signaled servers fetches (t, polls)
        = .ok (t', fun s => if s ∈ servers then (g s).length else polls s) ∧
      Posted t₀ (fun s => if s ∈ servers then g s else rs s) t' := by
  induction servers generalizing t polls rs with
  | nil => exact ⟨t, rfl, by simpa using h⟩
  | cons s servers ih =>
      obtain ⟨hs, hnd⟩ := List.nodup_cons.mp hnd
      have hround : ∃ t₁, doorbellOne post sz signaled fetches (t, polls) s
            = .ok (t₁, Function.update polls s (g s).length) ∧
          Posted t₀ (Function.update rs s (g s)) t₁ := by
        rw [doorbellOne, fillReqs_eq signaled (hmax s), hg s]
        by_cases hnil : readsTo sz signaled fetches s = []
        · refine ⟨t, ?_, ?_⟩
          · change (if Function.update polls s (readsTo sz signaled fetches s).length s > 0
              then _ else _) = _
            rw [Function.update_self, hnil]
            rfl
          · rw [List.length_eq_zero_iff.mp ((hg s).trans (by rw [hnil]; rfl)),
              ← hrs s (List.mem_cons_self ..), Function.update_eq_self]
            exact h
        · obtain ⟨t₁, hrun, h₁⟩ := hpost s t rs h (hrs s (List.mem_cons_self ..)) hnil
          refine ⟨t₁, ?_, h₁⟩
          change (if Function.update polls s (readsTo sz signaled fetches s).length s > 0
            then _ else _) = _
          rw [Function.update_self, if_pos (List.length_pos_of_ne_nil hnil), hrun]
          rfl
      obtain ⟨t₁, hrun₁, h₁⟩ := hround
      have hrs₁ : ∀ s' ∈ servers, Function.update rs s (g s) s' = [] := fun s' hs' => by
        have hne : s' ≠ s := fun heq => hs (heq ▸ hs')
        rw [Function.update_of_ne hne]
        exact hrs s' (List.mem_cons_of_mem s hs')
      obtain ⟨t₂, hrun₂, h₂⟩ := ih hnd h₁ hrs₁ (Function.update polls s (g s).length)
      rw [ite_mem_update hs fun s => (g s).length] at hrun₂
      rw [ite_mem_update hs g] at h₂
      refine ⟨t₂, ?_, h₂⟩
      rw [doorbellEach, List.foldlM_cons, hrun₁]
      exact hrun₂

/-! ### One by one, the last request signaled -/

lemma lastSr_append (fetches : List Fetch) (f : Fetch) (s : ServerId) :
    lastSr (fetches ++ [f]) s
      = if f.nid = s then (fetches.length : ℤ).bmod (2 ^ 32) else lastSr fetches s := by
  rw [lastSr, List.zipIdx_append, List.foldl_append]
  simp only [List.zipIdx_cons, List.zipIdx_nil, List.foldl_cons, List.foldl_nil, Nat.zero_add]
  rfl

/-- The requests that the loop posts to a server, with the index of the last one. -/
def unsignalPosts (sz : ℕ) (s : ServerId) (last : ℤ) (ps : List (Fetch × ℕ)) : List Request :=
  (ps.filter (·.1.nid = s)).map fun p => p.1.request sz (decide ((p.2 : ℤ) = last))

lemma unsignalPosts_append (last : ℤ) (ps ps' : List (Fetch × ℕ)) :
    unsignalPosts sz s last (ps ++ ps') = unsignalPosts sz s last ps
      ++ unsignalPosts sz s last ps' := by
  rw [unsignalPosts, List.filter_append, List.map_append]
  rfl

lemma unsignalPosts_singleton (last : ℤ) (p : Fetch × ℕ) : unsignalPosts sz s last [p]
    = if p.1.nid = s then [p.1.request sz (decide ((p.2 : ℤ) = last))] else [] := by
  by_cases hs : p.1.nid = s <;> simp [unsignalPosts, hs]

/-- No request is signaled before the index of the last one. -/
lemma unsignalPosts_of_le {last : ℤ} (h : (fetches.length : ℤ) ≤ last) :
    unsignalPosts sz s last fetches.zipIdx = requestsTo sz fetches s := by
  have hfst : fetches.zipIdx.map Prod.fst = fetches := List.zipIdx_map_fst 0 fetches
  have hmap : requestsTo sz fetches s
      = (fetches.zipIdx.filter (·.1.nid = s)).map fun p => p.1.request sz false := by
    conv_lhs => rw [requestsTo, ← hfst]
    rw [List.filter_map, List.map_map]
    rfl
  rw [hmap, unsignalPosts]
  refine List.map_congr_left fun p hp => ?_
  have hlt : p.2 < 0 + fetches.length := List.snd_lt_add_of_mem_zipIdx (List.mem_of_mem_filter hp)
  rw [decide_eq_false (by omega)]

/-- **The last one is signaled**: the index of the last request fits an `int`. -/
lemma unsignalPosts_eq (h : fetches.length < 2 ^ 31) :
    unsignalPosts sz s (lastSr fetches s % 2 ^ 64) fetches.zipIdx
      = signalLast (requestsTo sz fetches s) := by
  induction fetches using List.reverseRecOn with
  | nil => rfl
  | append_singleton fetches f ih =>
      rw [List.length_append, List.length_singleton] at h
      have hreqs : requestsTo sz (fetches ++ [f]) s
          = requestsTo sz fetches s ++ if f.nid = s then [f.request sz false] else [] := by
        by_cases hs : f.nid = s <;> simp [requestsTo, hs]
      rw [List.zipIdx_append, unsignalPosts_append, List.zipIdx_singleton, unsignalPosts_singleton,
        Nat.zero_add, hreqs, lastSr_append]
      by_cases hs : f.nid = s
      · have hlast : (fetches.length : ℤ).bmod (2 ^ 32) = fetches.length :=
          Int.bmod_eq_of_le (by omega) (by omega)
        have hmod : (fetches.length : ℤ) % 2 ^ 64 = fetches.length :=
          Int.emod_eq_of_lt (by omega) (by omega)
        rw [if_pos hs, if_pos hs, if_pos hs, hlast, hmod, unsignalPosts_of_le le_rfl,
          signalLast_append, decide_eq_true rfl]
        rfl
      · rw [if_neg hs, if_neg hs, if_neg hs, List.append_nil, List.append_nil]
        exact ih (by omega)

/-- There is a last request where there is one. -/
lemma lastSr_gt_iff (h : fetches.length < 2 ^ 31) :
    lastSr fetches s > -1 ↔ requestsTo sz fetches s ≠ [] := by
  induction fetches using List.reverseRecOn with
  | nil => simp [lastSr, requestsTo]
  | append_singleton fetches f ih =>
      rw [List.length_append, List.length_singleton] at h
      rw [lastSr_append]
      by_cases hs : f.nid = s
      · have hlast : (fetches.length : ℤ).bmod (2 ^ 32) = fetches.length :=
          Int.bmod_eq_of_le (by omega) (by omega)
        rw [if_pos hs, hlast]
        simp only [requestsTo, List.filter_append, List.map_append, hs, decide_true,
          List.filter_cons_of_pos, List.filter_nil]
        refine iff_of_true (by omega) (by simp)
      · rw [if_neg hs, ih (by omega)]
        simp [requestsTo, hs]

/-- **Posting one by one to one server.** -/
lemma unsignalOne_posted (h : Posted t₀ rs t) (hw : Hardware) (sz : ℕ) (s : ServerId)
    (hlen : fetches.length < 2 ^ 31) (polls : Polls) :
    Posted t₀ (Function.update rs s (rs s ++ signalLast (requestsTo sz fetches s)))
        (unsignalOne hw sz fetches s (t, polls)).1 ∧
      (unsignalOne hw sz fetches s (t, polls)).2
        = Function.update polls s (polls s + (requestsTo sz fetches s).length) := by
  have key : ∀ (last : ℤ) (ps : List (Fetch × ℕ)) (t : RdmaThread) (polls : Polls)
      (rs : ServerId → List Request), Posted t₀ rs t →
      Posted t₀ (Function.update rs s (rs s ++ unsignalPosts sz s last ps))
          (ps.foldl (unsignalPost hw sz s last) (t, polls)).1 ∧
        (ps.foldl (unsignalPost hw sz s last) (t, polls)).2
          = Function.update polls s (polls s + (unsignalPosts sz s last ps).length) := by
    intro last ps
    induction ps with
    | nil =>
        intro t polls rs h
        simp only [unsignalPosts, List.filter_nil, List.map_nil, List.append_nil,
          Function.update_eq_self, List.length_nil, Nat.add_zero, List.foldl_nil]
        exact ⟨h, trivial⟩
    | cons p ps ih =>
        intro t polls rs h
        rw [← List.singleton_append, unsignalPosts_append, unsignalPosts_singleton,
          List.singleton_append, List.foldl_cons, unsignalPost]
        by_cases hs : p.1.nid = s
        · rw [if_pos hs, if_pos hs]
          obtain ⟨hposted, hpolls⟩ := ih _ (Function.update polls s (polls s + 1)) _
            (h.postSend hw s [p.1.request sz (decide ((p.2 : ℤ) = last))])
          simp only [Function.update_self, Function.update_idem,
            List.append_assoc] at hposted hpolls
          refine ⟨hposted, hpolls.trans ?_⟩
          rw [List.length_append, List.length_singleton, Nat.add_assoc]
        · rw [if_neg hs, if_neg hs, List.nil_append]
          exact ih t polls rs h
  obtain ⟨hposted, hpolls⟩ := key (lastSr fetches s % 2 ^ 64) fetches.zipIdx t polls rs h
  rw [unsignalPosts_eq hlen] at hposted hpolls
  rw [length_signalLast] at hpolls
  exact ⟨hposted, hpolls⟩

/-- **Posting one by one to every server.** -/
lemma unsignalEach_posted (hw : Hardware) (sz : ℕ) (hnd : servers.Nodup) (h : Posted t₀ rs t)
    (hrs : ∀ s ∈ servers, rs s = []) (hlen : fetches.length < 2 ^ 31) (polls : Polls) :
    Posted t₀ (fun s => if s ∈ servers then signalLast (requestsTo sz fetches s) else rs s)
        (unsignalEach hw sz servers fetches (t, polls)).1 ∧
      (unsignalEach hw sz servers fetches (t, polls)).2
        = fun s => if s ∈ servers then polls s + (requestsTo sz fetches s).length else polls s := by
  induction servers generalizing t polls rs with
  | nil => exact ⟨by simpa [unsignalEach] using h, by simp [unsignalEach]⟩
  | cons s servers ih =>
      obtain ⟨hs, hnd⟩ := List.nodup_cons.mp hnd
      obtain ⟨hposted, hpolls⟩ := unsignalOne_posted h hw sz s hlen polls
      rw [hrs s (List.mem_cons_self ..), List.nil_append] at hposted
      have hrs₁ : ∀ s' ∈ servers, Function.update rs s (signalLast (requestsTo sz fetches s)) s'
          = [] :=
        fun s' hs' => by
          have hne : s' ≠ s := fun heq => hs (heq ▸ hs')
          rw [Function.update_of_ne hne]
          exact hrs s' (List.mem_cons_of_mem s hs')
      obtain ⟨hrest, hcount⟩ := ih hnd hposted hrs₁ (unsignalOne hw sz fetches s (t, polls)).2
      have hrun : unsignalEach hw sz (s :: servers) fetches (t, polls)
          = unsignalEach hw sz servers fetches ((unsignalOne hw sz fetches s (t, polls)).1,
              (unsignalOne hw sz fetches s (t, polls)).2) := rfl
      rw [hrun, ← ite_mem_update hs (fun s => signalLast (requestsTo sz fetches s))]
      refine ⟨hrest, hcount.trans ?_⟩
      rw [hpolls, ← ite_mem_update hs (fun s => polls s + (requestsTo sz fetches s).length)]
      funext s'
      by_cases hs' : s' ∈ servers
      · have hne : s' ≠ s := fun heq => hs (heq ▸ hs')
        rw [if_pos hs', if_pos hs', Function.update_of_ne hne]
      · rw [if_neg hs', if_neg hs']

end Posting

end RdmaThread

end RedAnns
