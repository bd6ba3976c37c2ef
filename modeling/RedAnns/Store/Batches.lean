import RedAnns.Store.Rdma

/-!
Batches of reads: what is posted, and what a poll answers.

* `Outstanding.pollCompletion`: polling once takes the first group of a queue pair, all of
  whose reads are then delivered to buffer bytes that no later read touches.
* `Outstanding.wait`: waiting for an asynchronous batch takes the first group of every queue
  pair the batch has posted to.
* `Outstanding.send`: sending an asynchronous batch adds one group, possibly empty, to every
  queue pair.
* `Outstanding.readBatch`: a synchronous batch on an idle thread delivers all its reads,
  touches nothing before them, and leaves the thread idle.
-/

namespace RedAnns

open CompletionQueue

variable {hw : Hardware} {net : Net} {G G' : ServerId → List (List Request)} {s : ServerId}

/-! ### Polling -/

lemma Settled.mono {a : ℕ} (h : Settled G a) (hsub : ∀ s, (G' s).flatten ⊆ (G s).flatten) :
    Settled G' a := fun s r hr => h s r (hsub s hr)

lemma flatten_update_subset {l gs : List (List Request)} (hG : G s = l ++ gs) (s' : ServerId) :
    (Function.update G s gs s').flatten ⊆ (G s').flatten := by
  by_cases hs : s' = s
  · subst hs
    rw [Function.update_self, hG, List.flatten_append]
    exact List.subset_append_right _ _
  · rw [Function.update_of_ne hs]
    exact List.Subset.refl _

/-- The bytes of a first group are touched by no later one. -/
lemma Outstanding.settled_front (h : Outstanding hw net G) {l gs : List (List Request)}
    (hG : G s = l ++ gs) {r : Request} (hr : r ∈ l.flatten) {i : ℕ} (hi : i < r.length) :
    Settled (Function.update G s gs) (r.localBuf + i) := by
  have hp := h.apart s
  rw [hG, List.flatten_append, List.pairwise_append] at hp
  intro s' r' hr'
  have hap : Apart r r' := by
    by_cases hs : s' = s
    · subst hs
      rw [Function.update_self] at hr'
      exact hp.2.2 r hr r' hr'
    · rw [Function.update_of_ne hs] at hr'
      refine h.apart_servers s s' (Ne.symm hs) r ?_ r' hr'
      rw [hG, List.flatten_append]
      exact List.mem_append_left _ hr
  rcases hap with hap | hap <;> omega

/-- What was delivered for first groups stays delivered afterwards. -/
lemma Outstanding.delivered_front (h : Outstanding hw net G) {l gs : List (List Request)}
    (hG : G s = l ++ gs) {net' net'' : Net} (hsame :
        SameSettled (Function.update G s gs) net' net'')
    {r : Request} (hr : r ∈ l.flatten) (hdel : Delivered hw net'.buffer s r) :
    Delivered hw net''.buffer s r :=
  hdel.congr fun _ hi => hsame _ (h.settled_front hG hr hi)

/-- Taking a completion off a queue pair. -/
lemma Outstanding.take (h : Outstanding hw net G) {g : List Request} {gs : List (List Request)}
    (hG : G s = g :: gs) (hne : g ≠ []) {c : Request} {cs : List Request}
    (hq : (net.qps s).completions = c :: cs) :
    Outstanding hw { net with qps := Function.update net.qps s ⟨(net.qps s).posted, cs⟩ }
        (Function.update G s gs) ∧
      ∀ r ∈ g, Delivered hw net.buffer s r := by
  obtain ⟨done, ht, hdone⟩ := h.tracks s
  rw [hG] at ht
  obtain ⟨done', hsplit, ht'⟩ := ht.front hne hq
  have hsub : ∀ s', (Function.update G s gs s').flatten ⊆ (G s').flatten :=
    flatten_update_subset (l := [g]) hG
  refine ⟨⟨fun s' => ?_, fun s' => ?_, fun s₁ s₂ hs r₁ h₁ r₂ h₂ => ?_⟩, fun r hr => ?_⟩
  · by_cases hs : s' = s
    · subst hs
      refine ⟨done', ?_, fun r hr => hdone r (hsplit ▸ List.mem_append_right _ hr)⟩
      show Tracks _ (Function.update net.qps s' _ s') (Function.update G s' gs s') _
      rw [Function.update_self, Function.update_self]
      exact ht'
    · show ∃ done, Tracks _ (Function.update net.qps s _ s') (Function.update G s gs s') _ ∧ _
      rw [Function.update_of_ne hs, Function.update_of_ne hs]
      exact h.tracks s'
  · by_cases hs : s' = s
    · subst hs
      have hp := h.apart s'
      rw [hG, List.flatten_cons, List.pairwise_append] at hp
      rw [Function.update_self]
      exact hp.2.1
    · rw [Function.update_of_ne hs]
      exact h.apart s'
  · exact h.apart_servers s₁ s₂ hs r₁ (hsub s₁ h₁) r₂ (hsub s₂ h₂)
  · exact hdone r (hsplit ▸ List.mem_append_left _ hr)

/-- The bytes of the first groups of all queue pairs are touched by no later one. -/
lemma Outstanding.settled_of_front (h : Outstanding hw net G) {g : ServerId → List Request}
    (hG : ∀ s, G s = g s :: G' s) {r : Request} (hr : r ∈ g s) {i : ℕ} (hi : i < r.length) :
    Settled G' (r.localBuf + i) := by
  intro s' r' hr'
  by_cases hs : s' = s
  · subst hs
    have hset := h.settled_front (l := [g s']) (hG s') (by simpa using hr) hi
    exact hset s' r' (by rwa [Function.update_self])
  · have hset := h.settled_front (l := [g s]) (hG s) (by simpa using hr) hi
    refine hset s' r' ?_
    rw [Function.update_of_ne hs, hG s', List.flatten_cons]
    exact List.mem_append_right _ hr'

/-- **One poll, one group.** Polling ends, and the first group of the queue pair is then
delivered as a whole. -/
theorem Outstanding.pollCompletion (h : Outstanding hw net G) {g : List Request}
    {gs : List (List Request)} (hG : G s = g :: gs) (hne : g ≠ []) :
    ∃ net', RedAnns.pollCompletion hw s net = .ok net' ∧
      Outstanding hw net' (Function.update G s gs) ∧
      (∀ r ∈ g, Delivered hw net'.buffer s r) ∧ SameSettled G net net' := by
  obtain ⟨hstart, hsame⟩ := h.progress
  have hround : ∀ n : Net, Outstanding hw n G ∧ SameSettled G net n →
      (n.qps s).completions.isEmpty = true →
      (Outstanding hw (RedAnns.completeOne hw (RedAnns.progress hw n) s) G ∧
        SameSettled G net (RedAnns.completeOne hw (RedAnns.progress hw n) s)) ∧
      ((RedAnns.completeOne hw (RedAnns.progress hw n) s).qps s).posted.length
        < (n.qps s).posted.length := by
    rintro n ⟨hn, hn'⟩ hc
    obtain ⟨h₁, hs₁⟩ := hn.progress
    obtain ⟨h₂, hs₂⟩ := h₁.completeOne s
    refine ⟨⟨h₂, (hn'.trans hs₁).trans hs₂⟩, length_posted_round_lt ?_⟩
    obtain ⟨done, ht, -⟩ := hn.tracks s
    rw [hG] at ht
    exact ht.posted_ne_nil hne (List.isEmpty_iff.mp hc)
  have hinv := whileLoop_invariant (I := fun n => Outstanding hw n G ∧ SameSettled G net n)
    (fun n hn hc => (hround n hn hc).1) ⟨hstart, hsame⟩ (net.qps s).posted.length
  have hexit := whileLoop_exits (I := fun n => Outstanding hw n G ∧ SameSettled G net n)
    (fun n => (n.qps s).posted.length) hround ⟨hstart, hsame⟩ length_posted_progress_le
  rw [RedAnns.pollCompletion]
  generalize whileLoop _ _ _ _ = n at hinv hexit ⊢
  cases hq : (n.qps s).completions with
  | nil =>
      rw [hq] at hexit
      exact absurd hexit (by simp)
  | cons c cs =>
      obtain ⟨htake, hdel⟩ := hinv.1.take hG hne hq
      refine ⟨{ n with qps := Function.update n.qps s ⟨(n.qps s).posted, cs⟩ }, ?_, htake, hdel,
        hinv.2⟩
      rfl

/-- Polling as often as there are nonempty groups in front. -/
lemma Outstanding.pollCompletions {l gs : List (List Request)} (h : Outstanding hw net G)
    (hG : G s = l ++ gs) (hne : ∀ g ∈ l, g ≠ []) :
    ∃ net', RedAnns.pollCompletions hw s l.length net = .ok net' ∧
      Outstanding hw net' (Function.update G s gs) ∧
      (∀ r ∈ l.flatten, Delivered hw net'.buffer s r) ∧ SameSettled G net net' := by
  induction l generalizing net G with
  | nil =>
      rw [List.nil_append] at hG
      refine ⟨net, rfl, ?_, by simp, .refl⟩
      rwa [← hG, Function.update_eq_self]
  | cons g l ih =>
      rw [List.cons_append] at hG
      obtain ⟨net₁, hrun, h₁, hdel₁, hsame₁⟩ := h.pollCompletion hG (hne g (by simp))
      have hG₁ : Function.update G s (l ++ gs) s = l ++ gs := Function.update_self ..
      obtain ⟨net₂, hrun₂, h₂, hdel₂, hsame₂⟩ :=
        ih h₁ hG₁ fun g' hg' => hne g' (List.mem_cons_of_mem _ hg')
      rw [Function.update_idem] at h₂
      refine ⟨net₂, ?_, h₂, fun r hr => ?_, fun a ha => ?_⟩
      · rw [List.length_cons, RedAnns.pollCompletions, hrun]
        exact hrun₂
      · rw [List.flatten_cons] at hr
        rcases List.mem_append.mp hr with hr | hr
        · exact h.delivered_front (l := [g]) hG hsame₂ (by simpa using hr) (hdel₁ r hr)
        · exact hdel₂ r hr
      · exact (hsame₂ a (ha.mono (flatten_update_subset (l := [g]) hG))).trans (hsame₁ a ha)

/-- A loop over the servers, each round of which takes the groups `l s` off the queue pair of
its server. -/
lemma Outstanding.foldlM {servers : List ServerId} {f : Net → ServerId → Except Stop Net}
    {l : ServerId → List (List Request)}
    (hf : ∀ net G s, s ∈ servers → Outstanding hw net G → G s = l s ++ G' s →
      ∃ net', f net s = .ok net' ∧ Outstanding hw net' (Function.update G s (G' s)) ∧
        (∀ r ∈ (l s).flatten, Delivered hw net'.buffer s r) ∧ SameSettled G net net')
    (hnd : servers.Nodup) (h : Outstanding hw net G)
    (hin : ∀ s ∈ servers, G s = l s ++ G' s) (hout : ∀ s, s ∉ servers → G s = G' s) :
    ∃ net', servers.foldlM f net = .ok net' ∧ Outstanding hw net' G' ∧
      (∀ s ∈ servers, ∀ r ∈ (l s).flatten, Delivered hw net'.buffer s r) ∧
      SameSettled G net net' := by
  induction servers generalizing net G with
  | nil =>
      have hG : G = G' := funext fun s => hout s (by simp)
      exact ⟨net, rfl, hG ▸ h, by simp, .refl⟩
  | cons s servers ih =>
      obtain ⟨hs, hnd⟩ := List.nodup_cons.mp hnd
      obtain ⟨net₁, hrun₁, h₁, hdel₁, hsame₁⟩ := hf net G s (by simp) h (hin s (by simp))
      have hin₁ : ∀ s' ∈ servers, Function.update G s (G' s) s' = l s' ++ G' s' := by
        intro s' hs'
        have hne : s' ≠ s := fun heq => hs (heq ▸ hs')
        rw [Function.update_of_ne hne]
        exact hin s' (by simp [hs'])
      have hout₁ : ∀ s', s' ∉ servers → Function.update G s (G' s) s' = G' s' := by
        intro s' hs'
        by_cases heq : s' = s
        · subst heq
          rw [Function.update_self]
        · rw [Function.update_of_ne heq]
          exact hout s' (by simp [heq, hs'])
      obtain ⟨net₂, hrun₂, h₂, hdel₂, hsame₂⟩ :=
        ih (fun net G s' hs' => hf net G s' (by simp [hs'])) hnd h₁ hin₁ hout₁
      refine ⟨net₂, ?_, h₂, fun s' hs' r hr => ?_, fun a ha => ?_⟩
      · rw [List.foldlM_cons, hrun₁]
        exact hrun₂
      · rcases List.mem_cons.mp hs' with rfl | hs'
        · exact h.delivered_front (hin s' (by simp)) hsame₂ hr (hdel₁ r hr)
        · exact hdel₂ s' hs' r hr
      · exact (hsame₂ a (ha.mono (flatten_update_subset (hin s (by simp))))).trans (hsame₁ a ha)

/-- **Waiting for a batch.** If the first group of every queue pair is the one the batch has
posted, waiting ends, all reads of the batch are delivered, and the later groups are left. -/
theorem Outstanding.wait {servers : List ServerId} (hnd : servers.Nodup)
    (h : Outstanding hw net G) {g : ServerId → List Request} (hG : ∀ s, G s = g s :: G' s)
    (hout : ∀ s, s ∉ servers → g s = []) {polls : Polls}
    (hpolls : ∀ s ∈ servers, polls s = (g s).length) :
    ∃ net', rdmaReadBatchUnsignalAsyncWait hw servers polls net = .ok net' ∧
      Outstanding hw net' G' ∧ (∀ s, ∀ r ∈ g s, Delivered hw net'.buffer s r) ∧
      SameSettled G net net' := by
  have hround : ∀ net G s, s ∈ servers → Outstanding hw net G → G s = [g s] ++ G' s →
      ∃ net', (if polls s > 0 then RedAnns.pollCompletion hw s net else .ok net) = .ok net' ∧
        Outstanding hw net' (Function.update G s (G' s)) ∧
        (∀ r ∈ [g s].flatten, Delivered hw net'.buffer s r) ∧ SameSettled G net net' := by
    intro net G s hs hout hGs
    rw [hpolls s hs, List.flatten_singleton]
    by_cases hg : g s = []
    · rw [if_neg (by simp [hg]), hg]
      refine ⟨net, rfl, hout.skip fun s' => ?_, by simp, .refl⟩
      by_cases hs' : s' = s
      · subst hs'
        rw [Function.update_self, hGs, hg]
        exact Or.inr rfl
      · rw [Function.update_of_ne hs']
        exact Or.inl rfl
    · rw [if_pos (List.length_pos_of_ne_nil hg)]
      exact hout.pollCompletion hGs hg
  -- the queue pairs that are not polled have an empty group in front
  have hskip : Outstanding hw net fun s => if s ∈ servers then G s else G' s := by
    refine h.skip fun s => ?_
    by_cases hs : s ∈ servers
    · simp only [if_pos hs, true_or]
    · simp only [if_neg hs]
      exact Or.inr (by rw [hG s, hout s hs])
  obtain ⟨net', hrun, h', hdel, hsame⟩ := hskip.foldlM (l := fun s => [g s]) hround hnd
    (fun s hs => by simp only [if_pos hs, hG s, List.singleton_append])
    (fun s hs => by simp only [if_neg hs])
  refine ⟨net', hrun, h', fun s r hr => ?_, fun a ha => hsame a (ha.mono fun s => ?_)⟩
  · by_cases hs : s ∈ servers
    · exact hdel s hs r (by simpa using hr)
    · rw [hout s hs] at hr
      exact absurd hr (by simp)
  · by_cases hs : s ∈ servers
    · simp only [if_pos hs]
      exact List.Subset.refl _
    · simp only [if_neg hs, hG s, List.flatten_cons]
      exact List.subset_append_right _ _

/-! ### Posting -/

/-- The groups with one more for the server `s`. -/
def addGroup (G : ServerId → List (List Request)) (s : ServerId) (g : List Request) :
    ServerId → List (List Request) := Function.update G s (G s ++ [g])

lemma mem_flatten_addGroup {g : List Request} {s' : ServerId} {r : Request} :
    r ∈ (addGroup G s g s').flatten ↔ r ∈ (G s').flatten ∨ (s' = s ∧ r ∈ g) := by
  rw [addGroup]
  by_cases hs : s' = s
  · subst hs
    rw [Function.update_self, List.flatten_append, List.mem_append, List.flatten_singleton]
    simp
  · rw [Function.update_of_ne hs]
    simp [hs]

/-- Posting a group that meets nothing outstanding. -/
lemma Outstanding.postTo (h : Outstanding hw net G) {g : List Request}
    (hg : IsGroup Request.signaled g) (hpair : g.Pairwise Apart)
    (hold : ∀ r ∈ g, ∀ s', ∀ r' ∈ (G s').flatten, Apart r r') :
    Outstanding hw (postTo net s g) (addGroup G s g) where
  tracks s' := by
    obtain ⟨done, ht, hdone⟩ := h.tracks s'
    refine ⟨done, ?_, hdone⟩
    by_cases hs : s' = s
    · subst hs
      rw [RedAnns.postTo, addGroup]
      simp only [Function.update_self]
      exact ht.post hg
    · rw [RedAnns.postTo, addGroup]
      simp only [Function.update_of_ne hs]
      exact ht
  apart s' := by
    by_cases hs : s' = s
    · subst hs
      rw [addGroup, Function.update_self, List.flatten_append, List.flatten_singleton,
        List.pairwise_append]
      exact ⟨h.apart s', hpair, fun r hr r' hr' => (hold r' hr' s' r hr).symm⟩
    · rw [addGroup, Function.update_of_ne hs]
      exact h.apart s'
  apart_servers s₁ s₂ hs r₁ h₁ r₂ h₂ := by
    rcases mem_flatten_addGroup.mp h₁ with k₁ | ⟨hs₁, k₁⟩ <;>
      rcases mem_flatten_addGroup.mp h₂ with k₂ | ⟨hs₂, k₂⟩
    · exact h.apart_servers s₁ s₂ hs r₁ k₁ r₂ k₂
    · exact (hold r₂ k₂ s₁ r₁ k₁).symm
    · exact hold r₁ k₁ s₂ r₂ k₂
    · exact absurd (hs₁.trans hs₂.symm) hs

/-- Nothing is posted for an empty group. -/
lemma Outstanding.addNil (h : Outstanding hw net G) {G' : ServerId → List (List Request)}
    (hG : ∀ s, G' s = G s ∨ G' s = G s ++ [[]]) : Outstanding hw net G' := by
  have hflat : ∀ s, (G' s).flatten = (G s).flatten := fun s => by
    rcases hG s with heq | heq <;> simp [heq]
  refine ⟨fun s => ?_, fun s => (hflat s).symm ▸ h.apart s, fun s s' hne => ?_⟩
  · obtain ⟨done, ht, hdone⟩ := h.tracks s
    refine ⟨done, ⟨(hflat s).symm ▸ ht.flatten, ht.completions, fun g hg => ?_⟩, hdone⟩
    rcases hG s with heq | heq <;> rw [heq] at hg
    · exact ht.groups g hg
    · rcases List.mem_append.mp hg with hg | hg
      · exact ht.groups g hg
      · rw [List.mem_singleton.mp hg]
        exact fun init r hnil => absurd hnil (by simp)
  · rw [hflat s, hflat s']
    exact h.apart_servers s s' hne

/-! ### Doorbells -/

lemma signalLast_append (init : List Request) (r : Request) :
    signalLast (init ++ [r]) = init ++ [{ r with signaled := true }] := by
  induction init with
  | nil => rfl
  | cons a init ih =>
      cases init with
      | nil => rfl
      | cons a' init =>
          rw [List.cons_append, List.cons_append, signalLast, ← List.cons_append, ih]
          rfl

@[simp] lemma length_signalLast (rs : List Request) : (signalLast rs).length = rs.length := by
  rcases rs.eq_nil_or_concat with rfl | ⟨init, r, rfl⟩
  · rfl
  · rw [List.concat_eq_append, signalLast_append, List.length_append, List.length_append]
    rfl

/-- With unsignaled requests the doorbell makes a group of them. -/
lemma isGroup_signalLast {rs : List Request} (h : ∀ r ∈ rs, r.signaled = false) :
    IsGroup Request.signaled (signalLast rs) := by
  rcases rs.eq_nil_or_concat with rfl | ⟨init, r, rfl⟩
  · exact fun init r hnil => absurd hnil (by simp [signalLast])
  · rw [List.concat_eq_append] at h ⊢
    intro init' r' heq
    rw [signalLast_append] at heq
    obtain ⟨rfl, hr⟩ := List.append_inj' heq rfl
    rw [← (List.cons.inj hr).1]
    exact ⟨rfl, fun r' hr' => h r' (by simp [hr'])⟩

/-- Signalling moves no region. -/
lemma pairwise_signalLast {rs : List Request} (h : rs.Pairwise Apart) :
    (signalLast rs).Pairwise Apart := by
  rcases rs.eq_nil_or_concat with rfl | ⟨init, r, rfl⟩
  · exact List.Pairwise.nil
  · rw [List.concat_eq_append, List.pairwise_append] at h
    rw [List.concat_eq_append, signalLast_append, List.pairwise_append]
    refine ⟨h.1, List.pairwise_singleton _ _, fun r₁ h₁ r₂ h₂ => ?_⟩
    rw [List.mem_singleton.mp h₂]
    exact h.2.2 r₁ h₁ r (by simp)

/-- A request of a doorbell is one of the requests, up to its signal. -/
lemma mem_signalLast {rs : List Request} {r : Request} (h : r ∈ signalLast rs) :
    ∃ r' ∈ rs, r.localBuf = r'.localBuf ∧ r.length = r'.length := by
  rcases rs.eq_nil_or_concat with rfl | ⟨init, r', rfl⟩
  · exact absurd h (by simp [signalLast])
  · rw [List.concat_eq_append] at h ⊢
    rw [signalLast_append] at h
    rcases List.mem_append.mp h with h | h
    · exact ⟨r, by simp [h], rfl, rfl⟩
    · rw [List.mem_singleton.mp h]
      exact ⟨r', by simp, rfl, rfl⟩

/-- A request that is posted with a doorbell is in the group, up to its signal. -/
lemma exists_mem_signalLast {rs : List Request} {r : Request} (h : r ∈ rs) :
    ∃ signaled, ({ r with signaled := signaled } : Request) ∈ signalLast rs := by
  rcases rs.eq_nil_or_concat with rfl | ⟨init, r', rfl⟩
  · exact absurd h (by simp)
  · rw [List.concat_eq_append] at h ⊢
    rw [signalLast_append]
    rcases List.mem_append.mp h with h | h
    · exact ⟨r.signaled, by simp [h]⟩
    · rw [List.mem_singleton.mp h]
      exact ⟨true, by simp⟩

/-! ### Sending and reading batches -/

/-- The fetches of one batch: their buffer regions follow each other behind the address
`used`. -/
structure Spaced (sz used : ℕ) (fetches : List Fetch) : Prop where
  le : ∀ f ∈ fetches, used ≤ f.localBuf
  pairwise : fetches.Pairwise fun f f' => f.localBuf + sz ≤ f'.localBuf

/-- All outstanding reads end before the address `used`. -/
def Below (G : ServerId → List (List Request)) (used : ℕ) : Prop :=
  ∀ s, ∀ r ∈ (G s).flatten, r.localBuf + r.length ≤ used

/-- The group that a batch posts to a server. -/
def batchGroup (sz : ℕ) (fetches : List Fetch) (s : ServerId) : List Request :=
  signalLast (requestsTo sz fetches s)

section Batch

variable {sz used : ℕ} {fetches : List Fetch}

lemma mem_requestsTo {r : Request} :
    r ∈ requestsTo sz fetches s ↔ ∃ f ∈ fetches, f.nid = s ∧ f.request sz false = r := by
  simp only [requestsTo, List.mem_map, List.mem_filter, decide_eq_true_eq, and_assoc]

lemma mem_batchGroup {r : Request} (h : r ∈ batchGroup sz fetches s) :
    ∃ f ∈ fetches, f.nid = s ∧ r.localBuf = f.localBuf ∧ r.length = sgeLength sz := by
  obtain ⟨r', hr', hbuf, hlen⟩ := mem_signalLast h
  obtain ⟨f, hf, hnid, rfl⟩ := mem_requestsTo.mp hr'
  exact ⟨f, hf, hnid, hbuf, hlen⟩

lemma Spaced.pairwise_requestsTo (h : Spaced sz used fetches) (s : ServerId) :
    (requestsTo sz fetches s).Pairwise Apart := by
  refine List.pairwise_map.mpr ((h.pairwise.filter _).imp fun hff' => ?_)
  exact Or.inl ((Nat.add_le_add_left (sgeLength_le sz) _).trans hff')

/-- The reads of one batch to different servers are apart. -/
lemma Spaced.apart_of_ne (h : Spaced sz used fetches) {f f' : Fetch} (hf : f ∈ fetches)
    (hf' : f' ∈ fetches) (hne : f.nid ≠ f'.nid) :
    f.localBuf + sz ≤ f'.localBuf ∨ f'.localBuf + sz ≤ f.localBuf := by
  obtain ⟨i, hi, rfl⟩ := List.mem_iff_getElem.mp hf
  obtain ⟨j, hj, rfl⟩ := List.mem_iff_getElem.mp hf'
  have hp := List.pairwise_iff_getElem.mp h.pairwise
  rcases lt_trichotomy i j with hij | rfl | hij
  · exact Or.inl (hp i j hi hj hij)
  · exact absurd rfl hne
  · exact Or.inr (hp j i hj hi hij)

/-- A loop over the servers, each round of which posts the group of its server or, if that
is empty, nothing. -/
lemma Outstanding.sendLoop {servers : List ServerId} (hnd : servers.Nodup)
    (h : Outstanding hw net G) (hpair : ∀ s, (batchGroup sz fetches s).Pairwise Apart)
    (hold : ∀ s ∈ servers, ∀ r ∈ batchGroup sz fetches s, ∀ s', ∀ r' ∈ (G s').flatten, Apart r r')
    (hservers : ∀ s s', s ≠ s' → ∀ r ∈ batchGroup sz fetches s,
      ∀ r' ∈ batchGroup sz fetches s', Apart r r') (polls : Polls) :
    let g := batchGroup sz fetches
    let sent := rdmaReadBatchDoorbellUnsignalAsyncSend hw servers sz fetches net polls
    Outstanding hw sent.1 (fun s => if s ∈ servers then G s ++ [g s] else G s) ∧
      (∀ a, Settled (fun s => if s ∈ servers then G s ++ [g s] else G s) a →
        sent.1.buffer a = net.buffer a) ∧
      (∀ s ∈ servers, sent.2 s = (g s).length) ∧ ∀ s, s ∉ servers → sent.2 s = polls s := by
  induction servers generalizing net G polls with
  | nil =>
      refine ⟨?_, fun _ _ => rfl, by simp, fun _ _ => rfl⟩
      simp only [List.not_mem_nil, if_false]
      exact h
  | cons s servers ih =>
      obtain ⟨hs, hnd⟩ := List.nodup_cons.mp hnd
      set g := batchGroup sz fetches with hg
      have hlen : (requestsTo sz fetches s).length = (g s).length := by
        rw [hg, batchGroup, length_signalLast]
      have hG : ∀ s', (if s' ∈ servers then addGroup G s (g s) s'
          ++ [g s'] else addGroup G s (g s) s')
          = if s' ∈ s :: servers then G s' ++ [g s'] else G s' := by
        intro s'
        rw [addGroup]
        by_cases heq : s' = s
        · subst heq
          rw [if_neg hs, if_pos (by simp), Function.update_self]
        · rw [Function.update_of_ne heq]
          simp [heq]
      -- the first round, in its two forms, leaves one more group outstanding
      have hround : ∃ net₁, (if (requestsTo sz fetches s).length > 0 then
            (RedAnns.postTo (RedAnns.progress hw net) s (signalLast (requestsTo sz fetches s)),
              Function.update polls s (requestsTo sz fetches s).length)
          else (net, Function.update polls s (requestsTo sz fetches s).length))
          = (net₁, Function.update polls s (g s).length) ∧
          Outstanding hw net₁ (addGroup G s (g s)) ∧ SameSettled G net net₁ := by
        rw [hlen]
        split_ifs with hpos
        · obtain ⟨hprog, hsame⟩ := h.progress
          refine ⟨_, rfl, ?_, hsame⟩
          refine hprog.postTo ?_ (hpair s) (hold s (by simp))
          refine isGroup_signalLast fun r hr => ?_
          obtain ⟨f, -, -, rfl⟩ := mem_requestsTo.mp hr
          rfl
        · have hnil : g s = [] := List.length_eq_zero_iff.mp (by omega)
          refine ⟨_, rfl, h.addNil fun s' => ?_, .refl⟩
          rw [addGroup, hnil]
          by_cases heq : s' = s
          · subst heq
            rw [Function.update_self]
            exact Or.inr rfl
          · rw [Function.update_of_ne heq]
            exact Or.inl rfl
      obtain ⟨net₁, hrun, h₁, hsame₁⟩ := hround
      have hrest := ih hnd h₁ (fun s' hs' r hr s₂ r₂ hr₂ => by
        rcases mem_flatten_addGroup.mp hr₂ with hr₂ | ⟨rfl, hr₂⟩
        · exact hold s' (by simp [hs']) r hr s₂ r₂ hr₂
        · exact hservers s' s₂ (fun heq => hs (heq ▸ hs')) r hr r₂ hr₂)
        (Function.update polls s (g s).length)
      simp only [hG] at hrest
      obtain ⟨hout, hsame, hpolls, hkeep⟩ := hrest
      have hsent : rdmaReadBatchDoorbellUnsignalAsyncSend hw (s :: servers) sz fetches net polls
          = rdmaReadBatchDoorbellUnsignalAsyncSend hw servers sz fetches net₁
              (Function.update polls s (g s).length) := by
        rw [rdmaReadBatchDoorbellUnsignalAsyncSend, List.foldl_cons]
        simp only [hrun]
        rfl
      rw [hsent]
      refine ⟨hout, fun a ha => (hsame a ha).trans (hsame₁ a (ha.mono fun s' r hr => ?_)),
        fun s' hs' => ?_, fun s' hs' => ?_⟩
      · split_ifs
        · rw [List.flatten_append]
          exact List.mem_append_left _ hr
        · exact hr
      · rcases List.mem_cons.mp hs' with rfl | hs'
        · rw [hkeep s' hs, Function.update_self]
        · exact hpolls s' hs'
      · rw [hkeep s' fun hmem => hs' (by simp [hmem]),
          Function.update_of_ne fun heq => hs' (by simp [heq])]

/-- **Sending a batch.** A batch of fetches behind all outstanding reads adds its group, which
may be empty, to every queue pair. -/
theorem Outstanding.send {servers : List ServerId} (hnd : servers.Nodup)
    (h : Outstanding hw net G) (hbelow : Below G used) (hspaced : Spaced sz used fetches)
    (hin : ∀ f ∈ fetches, f.nid ∈ servers) (polls : Polls) :
    let sent := rdmaReadBatchDoorbellUnsignalAsyncSend hw servers sz fetches net polls
    Outstanding hw sent.1 (fun s => G s ++ [batchGroup sz fetches s]) ∧
      (∀ a < used, Settled G a → sent.1.buffer a = net.buffer a) ∧
      ∀ s, sent.2 s = if s ∈ servers then (batchGroup sz fetches s).length else polls s := by
  have hempty : ∀ s, s ∉ servers → batchGroup sz fetches s = [] := fun s hs => by
    rw [List.eq_nil_iff_forall_not_mem]
    intro r hr
    obtain ⟨f, hf, rfl, -⟩ := mem_batchGroup hr
    exact hs (hin f hf)
  have hold : ∀ s ∈ servers, ∀ r ∈ batchGroup sz fetches s, ∀ s', ∀ r' ∈ (G s').flatten,
      Apart r r' := by
    intro s _ r hr s' r' hr'
    obtain ⟨f, hf, -, hbuf, -⟩ := mem_batchGroup hr
    have h₁ := hspaced.le f hf
    have h₂ := hbelow s' r' hr'
    exact Or.inr (by omega)
  have hservers : ∀ s s', s ≠ s' → ∀ r ∈ batchGroup sz fetches s,
      ∀ r' ∈ batchGroup sz fetches s', Apart r r' := by
    intro s s' hne r hr r' hr'
    obtain ⟨f, hf, rfl, hbuf, hlen⟩ := mem_batchGroup hr
    obtain ⟨f', hf', rfl, hbuf', hlen'⟩ := mem_batchGroup hr'
    have hle := sgeLength_le sz
    rcases hspaced.apart_of_ne hf hf' hne with hap | hap
    · exact Or.inl (by omega)
    · exact Or.inr (by omega)
  obtain ⟨hout, hsame, hpolls, hkeep⟩ := h.sendLoop hnd
    (fun s => pairwise_signalLast (hspaced.pairwise_requestsTo s)) hold hservers polls
  refine ⟨hout.addNil fun s => ?_, fun a ha hset => hsame a fun s r hr => ?_, fun s => ?_⟩
  · by_cases hs : s ∈ servers
    · simp only [if_pos hs, true_or]
    · simp only [if_neg hs, hempty s hs, or_true]
  · by_cases hs : s ∈ servers
    · simp only [if_pos hs, List.flatten_append, List.flatten_singleton] at hr
      rcases List.mem_append.mp hr with hr | hr
      · exact hset s r hr
      · obtain ⟨f, hf, -, hbuf, -⟩ := mem_batchGroup hr
        have h₁ := hspaced.le f hf
        exact Or.inl (by omega)
    · simp only [if_neg hs] at hr
      exact hset s r hr
  · split_ifs with hs
    · exact hpolls s hs
    · exact hkeep s hs

/-- The groups of a synchronous batch: every read is one. -/
def singleGroups (sz : ℕ) (fetches : List Fetch) (s : ServerId) : List (List Request) :=
  (fetches.filter (·.nid = s)).map fun f => [f.request sz true]

lemma mem_flatten_singleGroups {r : Request} :
    r ∈ (singleGroups sz fetches s).flatten ↔
      ∃ f ∈ fetches, f.nid = s ∧ f.request sz true = r := by
  rw [singleGroups, ← List.flatMap_def, List.mem_flatMap]
  simp only [List.mem_filter, List.mem_singleton, and_assoc, decide_eq_true_eq, @eq_comm _ r]

/-- Posting the reads of a synchronous batch one by one. -/
lemma Outstanding.postAll (h : Outstanding hw net G) (hbelow : Below G used)
    (hspaced : Spaced sz used fetches) :
    let posted := fetches.foldl (fun net f => RedAnns.postTo (RedAnns.progress hw net) f.nid
      [f.request sz true]) net
    Outstanding hw posted (fun s => G s ++ singleGroups sz fetches s) ∧
      ∀ a < used, Settled G a → posted.buffer a = net.buffer a := by
  induction fetches generalizing net G used with
  | nil => exact ⟨by simpa [singleGroups] using h, fun _ _ _ => rfl⟩
  | cons f fetches ih =>
      obtain ⟨hprog, hsame⟩ := h.progress
      have hle := hspaced.le f (by simp)
      have hpair := List.pairwise_cons.mp hspaced.pairwise
      have hpost := hprog.postTo (s := f.nid) (g := [f.request sz true])
        (fun init r heq => by
          obtain ⟨rfl, hr⟩ := List.append_inj' (heq.symm.trans (List.nil_append _).symm) rfl
          rw [(List.cons.inj hr).1]
          exact ⟨rfl, by simp⟩)
        (List.pairwise_singleton _ _) fun r hr s' r' hr' => by
          have hold := hbelow s' r' hr'
          rw [List.mem_singleton.mp hr]
          exact Or.inr (hold.trans hle)
      have hbelow' : Below (addGroup G f.nid [f.request sz true]) (f.localBuf + sz) := by
        intro s r hr
        rcases mem_flatten_addGroup.mp hr with hr | ⟨-, hr⟩
        · have := hbelow s r hr
          omega
        · rw [List.mem_singleton.mp hr]
          exact Nat.add_le_add_left (sgeLength_le sz) _
      obtain ⟨hrest, hbytes⟩ := ih hpost hbelow' ⟨hpair.1, hpair.2⟩
      rw [List.foldl_cons]
      have hG : (fun s => addGroup G f.nid [f.request sz true] s ++ singleGroups sz fetches s)
          = fun s => G s ++ singleGroups sz (f :: fetches) s := by
        funext s
        rw [addGroup, singleGroups, singleGroups]
        by_cases hs : s = f.nid
        · subst hs
          rw [Function.update_self, List.filter_cons_of_pos (by simp), List.map_cons,
            List.append_assoc, List.singleton_append]
        · rw [Function.update_of_ne hs, List.filter_cons_of_neg (by simpa using Ne.symm hs)]
      rw [← hG]
      refine ⟨hrest, fun a ha hset => ?_⟩
      have hset' : Settled (addGroup G f.nid [f.request sz true]) a := fun s r hr => by
        rcases mem_flatten_addGroup.mp hr with hr | ⟨-, hr⟩
        · exact hset s r hr
        · rw [List.mem_singleton.mp hr]
          exact Or.inl (ha.trans_le hle)
      exact (hbytes a (by omega) hset').trans (hsame a hset)

/-- **A synchronous batch.** On an idle thread it delivers all its reads, touches nothing
before them, and leaves the thread idle. -/
theorem Outstanding.readBatch {servers : List ServerId} (hnd : servers.Nodup) (hsz : sz < 2 ^ 31)
    (hidle : ∀ s, net.qps s = idle) (hspaced : Spaced sz used fetches)
    (hin : ∀ f ∈ fetches, f.nid ∈ servers) :
    ∃ net', rdmaReadBatch hw servers sz fetches net = .ok net' ∧
      (∀ s, net'.qps s = idle) ∧ (∀ a < used, net'.buffer a = net.buffer a) ∧
      ∀ f ∈ fetches, ∀ i < sz, net'.buffer (f.localBuf + i) = hw.kvstore f.nid (f.off + i) := by
  have hstart : Outstanding hw net fun _ => [] := outstanding_idle hidle
  have hbelow : Below (fun _ => []) used := fun s r hr => absurd hr (by simp)
  obtain ⟨hpost, hposted⟩ := hstart.postAll hbelow hspaced
  simp only [List.nil_append] at hpost
  have hround : ∀ net G s, s ∈ servers → Outstanding hw net G →
      G s = singleGroups sz fetches s ++ [] →
      ∃ net', (if (fetches.filter (·.nid = s)).length > 0 then
          RedAnns.pollCompletions hw s (fetches.filter (·.nid = s)).length net else .ok net)
          = .ok net' ∧
        Outstanding hw net' (Function.update G s []) ∧
        (∀ r ∈ (singleGroups sz fetches s).flatten, Delivered hw net'.buffer s r) ∧
        SameSettled G net net' := by
    intro net G s _ h hG
    have hpoll := h.pollCompletions hG fun g hg => by
      obtain ⟨f, -, rfl⟩ := List.mem_map.mp hg
      simp
    rw [singleGroups, List.length_map, ← singleGroups] at hpoll
    split_ifs with hpos
    · exact hpoll
    · rwa [Nat.eq_zero_of_not_pos hpos] at hpoll
  have hout : ∀ s, s ∉ servers → singleGroups sz fetches s = [] := by
    intro s hs
    rw [singleGroups, List.map_eq_nil_iff, List.filter_eq_nil_iff]
    intro f hf
    simpa using fun heq : f.nid = s => hs (heq ▸ hin f hf)
  obtain ⟨net', hrun, hend, hdel, hsame⟩ := hpost.foldlM (l := singleGroups sz fetches) hround hnd
    (fun s _ => (List.append_nil _).symm) hout
  refine ⟨net', hrun, fun s => hend.eq_idle rfl, fun a ha => ?_, fun f hf i hi => ?_⟩
  · refine (hsame a fun s r hr => ?_).trans (hposted a ha fun s r hr => absurd hr (by simp))
    obtain ⟨f, hf, -, rfl⟩ := mem_flatten_singleGroups.mp hr
    exact Or.inl (ha.trans_le (hspaced.le f hf))
  · exact hdel f.nid (hin f hf) (f.request sz true)
      (mem_flatten_singleGroups.mpr ⟨f, hf, rfl, rfl⟩) i (hi.trans_eq (sgeLength_eq hsz).symm)

end Batch

end RedAnns
