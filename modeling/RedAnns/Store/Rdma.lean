import RedAnns.Core.Vertex
import RedAnns.Lib.CompletionQueue
import RedAnns.Lib.Loop
import RedAnns.Lib.Memory

/-!
One-sided reads over reliable connections (`core/rdma.hpp`, `rdma_lib/rdmaio.hpp`).

The state `Net` is that of one thread: its queue pair to every server and its RDMA buffer. A
request copies bytes of the remote kvstore into the buffer when it completes. When requests
complete is up to the hardware: `Hardware.schedule` names, for every moment, the queue pairs
that make progress, in any order; the operations of the program are interleaved with such
progress. Polling waits for a completion, and while it waits the hardware completes what is
posted on that queue pair, beside any other progress (`Stop.hung` if nothing ever comes).

* `rdmaReadBatch` posts signaled reads and polls for all of them;
  `rdmaReadBatchDoorbellUnsignalAsyncSend` posts one doorbell a server with its last request
  signaled, and `rdmaReadBatchUnsignalAsyncWait` polls once for each.
* `Outstanding hw net G`: the groups `G s` are the requests not polled for yet, in order,
  their buffer regions are apart, and what is complete among them has been delivered.
  `Outstanding.progress`, `Outstanding.send`, `Outstanding.wait` and `Outstanding.readBatch`
  say what the operations make of it, for every schedule.
-/

namespace RedAnns

open CompletionQueue

/-- Why a run ends early: an exception, a failed `ASSERT`, polling for a completion that
never comes, or the front of an empty queue. -/
inductive Stop
  | threw (what : String)
  | aborted
  | hung
  | emptyFront
  deriving DecidableEq, Repr

/-- `MAX_DOORBELL_SIZE`. -/
def maxDoorbellSize : ℕ := 128

/-- `RC_MAX_SEND_SIZE`. -/
def rcMaxSendSize : ℕ := 1024

/-- A posted read: `length` bytes at `remoteOffset` of the remote memory go to `localBuf`. -/
structure Request where
  localBuf : ℕ
  length : ℕ
  remoteOffset : ℕ
  signaled : Bool
  deriving DecidableEq

/-- What lies outside the program: the remote memories and the progress of the hardware. -/
structure Hardware where
  kvstore : ServerId → Bytes
  schedule : ℕ → List ServerId

/-- The queue pairs of a thread, its RDMA buffer, and the moment. -/
structure Net where
  qps : ServerId → CompletionQueue Request
  buffer : Bytes
  clock : ℕ

/-! ### The operations -/

section Operations

variable (hw : Hardware)

/-- The oldest request to the server `s` completes, its bytes are in the buffer. -/
def completeOne (net : Net) (s : ServerId) : Net :=
  match (net.qps s).posted with
  | [] => net
  | r :: _ =>
      { net with
        qps := Function.update net.qps s ((net.qps s).complete Request.signaled)
        buffer := net.buffer.write r.localBuf ((hw.kvstore s).read r.remoteOffset r.length) }

/-- The hardware makes the progress of this moment. -/
def progress (net : Net) : Net :=
  (hw.schedule net.clock).foldl (completeOne hw) { net with clock := net.clock + 1 }

/-- Posting requests to a server. -/
def postTo (net : Net) (s : ServerId) (rs : List Request) : Net :=
  { net with qps := Function.update net.qps s ((net.qps s).post rs) }

/-- `poll_completion`: wait for a completion and take it. -/
def pollCompletion (s : ServerId) (net : Net) : Except Stop Net :=
  let net := whileLoop (fun net => (net.qps s).completions.isEmpty)
    (fun net => completeOne hw (progress hw net) s) (net.qps s).posted.length (progress hw net)
  match (net.qps s).completions with
  | [] => .error .hung
  | _ :: cs => .ok { net with qps := Function.update net.qps s ⟨(net.qps s).posted, cs⟩ }

/-- `poll_completions`: as many completions as asked for. -/
def pollCompletions (s : ServerId) : ℕ → Net → Except Stop Net
  | 0, net => .ok net
  | n + 1, net => pollCompletion hw s net >>= pollCompletions s n

/-- `rc_post_doorbell` with `use_unsignal`: the last request, and no other, is signaled. -/
def signalLast : List Request → List Request
  | [] => []
  | [r] => [{ r with signaled := true }]
  | r :: r' :: rs => r :: signalLast (r' :: rs)

/-- What `nids`, `local_batch` and `off_batch` hold at one index. -/
structure Fetch where
  nid : ServerId
  localBuf : ℕ
  off : ℕ

/-- The length that is posted: an `int` in `RdmaReq` and in `rc_post_send`, and 32 bits in
`ibv_sge`. -/
def sgeLength (sz : ℕ) : ℕ := sz % 2 ^ 32

/-- The request for a fetch. -/
def Fetch.request (f : Fetch) (sz : ℕ) (signaled : Bool) : Request :=
  ⟨f.localBuf, sgeLength sz, f.off, signaled⟩

/-- `RdmaReadBatch`: every read is posted signaled, then all are polled for. -/
def rdmaReadBatch (servers : List ServerId) (sz : ℕ) (fetches : List Fetch) (net : Net) :
    Except Stop Net :=
  let net := fetches.foldl (fun net f => postTo (progress hw net) f.nid [f.request sz true]) net
  servers.foldlM (fun net sid =>
    let srCnt := (fetches.filter (·.nid = sid)).length
    if srCnt > 0 then pollCompletions hw sid srCnt net else .ok net) net

/-- The numbers of requests a batch has posted to the servers. -/
abbrev Polls := ServerId → ℕ

/-- The requests of a batch to one server, in order. -/
def requestsTo (sz : ℕ) (fetches : List Fetch) (sid : ServerId) : List Request :=
  (fetches.filter (·.nid = sid)).map fun f => f.request sz false

/-- `RdmaReadBatchDoorbellUnsignal_Async_Send`: one doorbell a server. -/
def rdmaReadBatchDoorbellUnsignalAsyncSend (servers : List ServerId) (sz : ℕ)
    (fetches : List Fetch) (net : Net) (polls : Polls) : Net × Polls :=
  servers.foldl (fun s sid =>
    let reqs := requestsTo sz fetches sid
    let polls := Function.update s.2 sid reqs.length
    if reqs.length > 0 then (postTo (progress hw s.1) sid (signalLast reqs), polls)
    else (s.1, polls)) (net, polls)

/-- `RdmaReadBatchUnsignal_Async_Wait`: one completion a server that was sent to. -/
def rdmaReadBatchUnsignalAsyncWait (servers : List ServerId) (polls : Polls) (net : Net) :
    Except Stop Net :=
  servers.foldlM (fun net sid => if polls sid > 0 then pollCompletion hw sid net else .ok net) net

end Operations

/-! ### What is outstanding -/

/-- The bytes of a read have arrived. -/
def Delivered (hw : Hardware) (buffer : Bytes) (s : ServerId) (r : Request) : Prop :=
  ∀ i < r.length, buffer (r.localBuf + i) = hw.kvstore s (r.remoteOffset + i)

/-- Two reads have disjoint buffer regions. -/
def Apart (r r' : Request) : Prop :=
  r.localBuf + r.length ≤ r'.localBuf ∨ r'.localBuf + r'.length ≤ r.localBuf

/-- An address that no outstanding read writes to. -/
def Settled (G : ServerId → List (List Request)) (a : ℕ) : Prop :=
  ∀ s, ∀ r ∈ (G s).flatten, a < r.localBuf ∨ r.localBuf + r.length ≤ a

/-- **What is outstanding**: `G s` are the groups of requests to `s` not polled for yet. The
completed ones among them are delivered, and no two of them share a buffer byte. -/
structure Outstanding (hw : Hardware) (net : Net) (G : ServerId → List (List Request)) :
    Prop where
  tracks : ∀ s, ∃ done, Tracks Request.signaled (net.qps s) (G s) done ∧
    ∀ r ∈ done, Delivered hw net.buffer s r
  apart : ∀ s, (G s).flatten.Pairwise Apart
  apart_servers : ∀ s s', s ≠ s' → ∀ r ∈ (G s).flatten, ∀ r' ∈ (G s').flatten, Apart r r'

/-- What an operation leaves as it was: the settled bytes. -/
def SameSettled (G : ServerId → List (List Request)) (net net' : Net) : Prop :=
  ∀ a, Settled G a → net'.buffer a = net.buffer a

section Facts

variable {hw : Hardware} {net : Net} {G : ServerId → List (List Request)} {s : ServerId}

lemma sgeLength_le (sz : ℕ) : sgeLength sz ≤ sz := Nat.mod_le _ _

lemma sgeLength_eq {sz : ℕ} (h : sz < 2 ^ 31) : sgeLength sz = sz := Nat.mod_eq_of_lt (by omega)

lemma Apart.symm {r r' : Request} (h : Apart r r') : Apart r' r := Or.symm h

lemma SameSettled.refl : SameSettled G net net := fun _ _ => rfl

lemma SameSettled.trans {net₁ net₂ : Net} (h₁ : SameSettled G net net₁)
    (h₂ : SameSettled G net₁ net₂) : SameSettled G net net₂ :=
  fun a ha => (h₂ a ha).trans (h₁ a ha)

/-- A delivered read stays delivered while its bytes stay. -/
lemma Delivered.congr {buffer buffer' : Bytes} {r : Request} (h : Delivered hw buffer s r)
    (heq : ∀ i < r.length, buffer' (r.localBuf + i) = buffer (r.localBuf + i)) :
    Delivered hw buffer' s r := fun i hi => (heq i hi).trans (h i hi)

lemma delivered_write (buffer : Bytes) (s : ServerId) (r : Request) :
    Delivered hw (buffer.write r.localBuf ((hw.kvstore s).read r.remoteOffset r.length)) s r := by
  intro i hi
  rw [Bytes.stands_write buffer r.localBuf ((hw.kvstore s).read r.remoteOffset r.length) i
    (by rwa [Bytes.length_read]), Bytes.getElem_read]

/-- The delivery of a read leaves an apart one delivered. -/
lemma Delivered.write_of_apart {buffer : Bytes} {r r' : Request} {s' : ServerId}
    (h : Delivered hw buffer s' r') (hap : Apart r' r) :
    Delivered hw (buffer.write r.localBuf ((hw.kvstore s).read r.remoteOffset r.length)) s' r' := by
  refine h.congr fun i hi => Bytes.write_of_outside ?_
  rw [Bytes.length_read]
  rcases hap with hap | hap <;> omega

/-- An idle thread has nothing outstanding. -/
lemma outstanding_idle (hidle : ∀ s, net.qps s = idle) : Outstanding hw net fun _ => [] where
  tracks s := ⟨[], by rw [hidle s]; exact tracks_idle, by simp⟩
  apart := by simp
  apart_servers := by simp

/-- With nothing outstanding a queue pair is idle. -/
lemma Outstanding.eq_idle (h : Outstanding hw net G) (hG : G s = []) : net.qps s = idle := by
  obtain ⟨done, ht, -⟩ := h.tracks s
  rw [hG] at ht
  exact ht.eq_idle.1

/-- A posted request belongs to a group. -/
lemma Outstanding.mem_of_posted (h : Outstanding hw net G) {r : Request}
    (hr : r ∈ (net.qps s).posted) : r ∈ (G s).flatten := by
  obtain ⟨done, ht, -⟩ := h.tracks s
  rw [← ht.flatten]
  exact List.mem_append_right _ hr

/-- The queue pairs and the buffer are all that matters. -/
lemma Outstanding.congr (h : Outstanding hw net G) {net' : Net} (hq : net'.qps = net.qps)
    (hb : net'.buffer = net.buffer) : Outstanding hw net' G :=
  ⟨by rw [hq, hb]; exact h.tracks, h.apart, h.apart_servers⟩

/-- Empty groups need no polling. -/
lemma Outstanding.skip (h : Outstanding hw net G) {G' : ServerId → List (List Request)}
    (hG : ∀ s, G s = G' s ∨ G s = [] :: G' s) : Outstanding hw net G' := by
  have hflat : ∀ s, (G' s).flatten = (G s).flatten := fun s => by
    rcases hG s with heq | heq <;> rw [heq]
    rfl
  refine ⟨fun s => ?_, fun s => hflat s ▸ h.apart s, fun s s' hne => ?_⟩
  · obtain ⟨done, ht, hdone⟩ := h.tracks s
    rcases hG s with heq | heq
    · exact ⟨done, heq ▸ ht, hdone⟩
    · rw [heq] at ht
      exact ⟨done, ht.skip, hdone⟩
  · rw [hflat s, hflat s']
    exact h.apart_servers s s' hne

/-! ### Progress -/

lemma completeOne_of_posted {r : Request} {rs : List Request} (hq : (net.qps s).posted = r :: rs) :
    completeOne hw net s =
      { net with
        qps := Function.update net.qps s ((net.qps s).complete Request.signaled)
        buffer := net.buffer.write r.localBuf
          ((hw.kvstore s).read r.remoteOffset r.length) } := by
  rw [completeOne, hq]

lemma completeOne_of_nil (hq : (net.qps s).posted = []) : completeOne hw net s = net := by
  rw [completeOne, hq]

/-- **One completion keeps what is outstanding** and touches no settled byte. -/
lemma Outstanding.completeOne (h : Outstanding hw net G) (s : ServerId) :
    Outstanding hw (completeOne hw net s) G ∧ SameSettled G net (completeOne hw net s) := by
  cases hq : (net.qps s).posted with
  | nil =>
      rw [completeOne_of_nil hq]
      exact ⟨h, .refl⟩
  | cons r rs =>
      obtain ⟨done, ht, hdone⟩ := h.tracks s
      have hflat : (G s).flatten = done ++ r :: rs := by rw [← ht.flatten, hq]
      have hr : r ∈ (G s).flatten := by rw [hflat]; simp
      have hbefore : ∀ r' ∈ done, Apart r' r := fun r' hr' => by
        have hp := h.apart s
        rw [hflat, List.pairwise_append] at hp
        exact hp.2.2 r' hr' r (by simp)
      rw [completeOne_of_posted hq]
      refine ⟨⟨fun s' => ?_, h.apart, h.apart_servers⟩, fun a ha => Bytes.write_of_outside ?_⟩
      · by_cases hs : s' = s
        · subst hs
          refine ⟨done ++ [r], ?_, fun r' hr' => ?_⟩
          · show Tracks _ (Function.update net.qps s' _ s') _ _
            rw [Function.update_self]
            exact ht.complete hq
          · rcases List.mem_append.mp hr' with hr' | hr'
            · exact (hdone r' hr').write_of_apart (hbefore r' hr')
            · rw [List.mem_singleton.mp hr']
              exact delivered_write net.buffer s' r
        · obtain ⟨done', ht', hdone'⟩ := h.tracks s'
          refine ⟨done', ?_, fun r' hr' => ?_⟩
          · show Tracks _ (Function.update net.qps s _ s') _ _
            rw [Function.update_of_ne hs]
            exact ht'
          · have hmem : r' ∈ (G s').flatten := by
              rw [← ht'.flatten]
              exact List.mem_append_left _ hr'
            exact (hdone' r' hr').write_of_apart (h.apart_servers s' s hs r' hmem r hr)
      · rw [Bytes.length_read]
        exact ha s r hr

/-- **Progress keeps what is outstanding** and touches no settled byte. -/
lemma Outstanding.progress (h : Outstanding hw net G) :
    Outstanding hw (progress hw net) G ∧ SameSettled G net (progress hw net) := by
  have key : ∀ (l : List ServerId) (net : Net), Outstanding hw net G →
      Outstanding hw (l.foldl (RedAnns.completeOne hw) net) G ∧
        SameSettled G net (l.foldl (RedAnns.completeOne hw) net) := by
    intro l
    induction l with
    | nil => exact fun net h => ⟨h, .refl⟩
    | cons s l ih =>
        intro net h
        obtain ⟨h₁, hb₁⟩ := h.completeOne s
        obtain ⟨h₂, hb₂⟩ := ih _ h₁
        exact ⟨h₂, hb₁.trans hb₂⟩
  exact key _ { net with clock := net.clock + 1 } (h.congr rfl rfl)

lemma length_posted_completeOne_le (s' : ServerId) :
    ((completeOne hw net s').qps s).posted.length ≤ (net.qps s).posted.length := by
  cases hq : (net.qps s').posted with
  | nil => rw [completeOne_of_nil hq]
  | cons r rs =>
      rw [completeOne_of_posted hq]
      by_cases hs : s = s'
      · subst hs
        simp only [Function.update_self, complete_of_posted hq, hq, List.length_cons]
        omega
      · simp only [Function.update_of_ne hs, le_refl]

lemma length_posted_progress_le :
    ((progress hw net).qps s).posted.length ≤ (net.qps s).posted.length := by
  have key : ∀ (l : List ServerId) (net : Net),
      ((l.foldl (completeOne hw) net).qps s).posted.length ≤ (net.qps s).posted.length := by
    intro l
    induction l with
    | nil => exact fun _ => le_rfl
    | cons s' l ih => exact fun net => (ih _).trans (length_posted_completeOne_le s')
  exact key _ { net with clock := net.clock + 1 }

/-- A round of polling brings the queue pair nearer to its end. -/
lemma length_posted_round_lt (hq : (net.qps s).posted ≠ []) :
    ((completeOne hw (progress hw net) s).qps s).posted.length < (net.qps s).posted.length := by
  have hpos := List.length_pos_of_ne_nil hq
  have hle : ((progress hw net).qps s).posted.length ≤ (net.qps s).posted.length :=
    length_posted_progress_le
  cases hp : ((progress hw net).qps s).posted with
  | nil =>
      rw [completeOne_of_nil hp, hp]
      exact hpos
  | cons r rs =>
      rw [hp, List.length_cons] at hle
      rw [completeOne_of_posted hp]
      simp only [Function.update_self, complete_of_posted hp]
      omega

end Facts

end RedAnns
