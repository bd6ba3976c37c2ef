import RedAnns.Lib.Tally
import RedAnns.Store.ReadVariants

/-!
The batched reads are in balance: what the seven routines of `Store/ReadVariants.lean` post, they
poll for.

* `pollEach_spec`: polling each server for the groups posted to it leaves it idle.
* `Groups`: how the requests of a batch may be grouped, every one by itself (`groups_signaled`) or
  all of them together (`groups_last`).
* `Variant.run_balanced`: all variants post the same reads and leave nothing behind.
* `net_rdmaReadBatch` and its like: on the queue pairs alone, three of the routines are those of
  `Store/Rdma.lean`.
-/

namespace RedAnns

open CompletionQueue

namespace RdmaThread

/-! ### Polling for a batch -/

section Polling

variable {hw : Hardware} {servers : List ServerId} {t : RdmaThread} {polls : Polls} {s : ServerId}
  {G l : ServerId → List (List Request)}

/-- What polling a server for its groups does to the counters. -/
structure Polled (s : ServerId) (n : ℕ) (t t' : RdmaThread) : Prop where
  posted : t'.posted = t.posted
  pendings : t'.pendings = Function.update t.pendings s 0
  polled : t'.polled = Function.update t.polled s (t.polled s + n)

/-- **One completion for one group.** -/
lemma pollCompletion_polled (h : Tracked t.net G) {g : List Request} (hG : G s = [g])
    (hne : g ≠ []) :
    ∃ t', pollCompletion hw s t = .ok t' ∧ Tracked t'.net (Function.update G s []) ∧
      Polled s 1 t t' := by
  obtain ⟨net, hrun, hnet⟩ := h.pollCompletion hG hne
  refine ⟨{ t with
    net
    pendings := Function.update t.pendings s 0
    polled := Function.update t.polled s (t.polled s + 1) }, ?_, hnet, ⟨rfl, rfl, rfl⟩⟩
  rw [pollCompletion, hrun]
  rfl

/-- **One completion for each group.** -/
lemma pollCompletions_polled (h : Tracked t.net G) (hne : ∀ g ∈ G s, g ≠ [])
    (hlen : (G s).length ≤ rcMaxSendSize) :
    ∃ t', pollCompletions hw s (G s).length t = .ok t' ∧ Tracked t'.net (Function.update G s []) ∧
      Polled s (G s).length t t' := by
  obtain ⟨net, hrun, hnet⟩ := h.pollCompletions (List.append_nil _).symm hne
  refine ⟨{ t with
    net
    pendings := Function.update t.pendings s 0
    polled := Function.update t.polled s (t.polled s + (G s).length) }, ?_, hnet, ⟨rfl, rfl, rfl⟩⟩
  rw [pollCompletions, if_neg (not_lt.mpr hlen), hrun]
  rfl

/-- **Polling every server** that something was posted to takes a completion for each group. -/
lemma pollEach_spec {due : ServerId → Bool}
    {poll : ServerId → RdmaThread → Except Stop RdmaThread} (hnd : servers.Nodup)
    (hdue : ∀ s ∈ servers, due s = true ↔ l s ≠ [])
    (hpoll : ∀ s ∈ servers, ∀ t G, Tracked t.net G → G s = l s → l s ≠ [] →
      ∃ t', poll s t = .ok t' ∧ Tracked t'.net (Function.update G s []) ∧
        Polled s (l s).length t t')
    (h : Tracked t.net G) (hin : ∀ s ∈ servers, G s = l s) (hout : ∀ s, s ∉ servers → G s = []) :
    ∃ t', pollEach due poll servers t = .ok t' ∧ Tracked t'.net (fun _ => []) ∧
      t'.posted = t.posted ∧
      (∀ s, t'.pendings s = if s ∈ servers ∧ l s ≠ [] then 0 else t.pendings s) ∧
      ∀ s, t'.polled s = if s ∈ servers then t.polled s + (l s).length else t.polled s := by
  induction servers generalizing t G with
  | nil =>
      have hG : G = fun _ => [] := funext fun s => hout s (List.not_mem_nil)
      exact ⟨t, rfl, hG ▸ h, rfl, by simp, by simp⟩
  | cons s servers ih =>
      obtain ⟨hs, hnd⟩ := List.nodup_cons.mp hnd
      -- a server that nothing was posted to is polled for no group
      have hround : ∃ t₁, (if due s then poll s t else .ok t) = .ok t₁ ∧
          Tracked t₁.net (Function.update G s []) ∧ t₁.posted = t.posted ∧
          (∀ s', t₁.pendings s' = if s' = s ∧ l s ≠ [] then 0 else t.pendings s') ∧
          t₁.polled = Function.update t.polled s (t.polled s + (l s).length) := by
        have hG := hin s (List.mem_cons_self ..)
        by_cases hnil : l s = []
        · have hnot : ¬ due s = true := fun hd => (hdue s (List.mem_cons_self ..)).mp hd hnil
          refine ⟨t, if_neg hnot, ?_, rfl, fun s' => ?_, ?_⟩
          · rw [hnil] at hG
            rwa [← hG, Function.update_eq_self]
          · rw [if_neg fun hand => hand.2 hnil]
          · rw [hnil, List.length_nil, Nat.add_zero, Function.update_eq_self]
        · obtain ⟨t₁, hrun, h₁, hpolled⟩ := hpoll s (List.mem_cons_self ..) t G h hG hnil
          refine ⟨t₁, ?_, h₁, hpolled.posted, fun s' => ?_, hpolled.polled⟩
          · rw [if_pos ((hdue s (List.mem_cons_self ..)).mpr hnil), hrun]
          · rw [hpolled.pendings, Function.update_apply]
            simp only [hnil, ne_eq, not_false_eq_true, and_true]
      obtain ⟨t₁, hrun₁, h₁, hposted₁, hpend₁, hpolled₁⟩ := hround
      have hne : ∀ s' ∈ servers, s' ≠ s := fun s' hs' heq => hs (heq ▸ hs')
      obtain ⟨t₂, hrun₂, h₂, hposted₂, hpend₂, hpolled₂⟩ := ih hnd
        (fun s' hs' => hdue s' (List.mem_cons_of_mem s hs'))
        (fun s' hs' => hpoll s' (List.mem_cons_of_mem s hs')) h₁
        (fun s' hs' => by
          rw [Function.update_of_ne (hne s' hs')]
          exact hin s' (List.mem_cons_of_mem s hs'))
        (fun s' hs' => by
          by_cases heq : s' = s
          · rw [heq, Function.update_self]
          · rw [Function.update_of_ne heq]
            exact hout s' fun hmem => (List.mem_cons.mp hmem).elim heq hs')
      refine ⟨t₂, ?_, h₂, hposted₂.trans hposted₁, fun s' => ?_, fun s' => ?_⟩
      · rw [pollEach, List.foldlM_cons, hrun₁]
        exact hrun₂
      · rw [hpend₂, hpend₁]
        by_cases heq : s' = s
        · subst heq
          simp [hs]
        · simp [heq]
      · rw [hpolled₂, hpolled₁]
        by_cases heq : s' = s
        · subst heq
          simp [hs]
        · simp [heq]

lemma pollEach_congr {due due' : ServerId → Bool}
    {poll poll' : ServerId → RdmaThread → Except Stop RdmaThread}
    (hdue : ∀ s ∈ servers, due s = due' s) (hpoll : ∀ s ∈ servers, poll s = poll' s) :
    pollEach due poll servers t = pollEach due' poll' servers t := by
  induction servers generalizing t with
  | nil => rfl
  | cons s servers ih =>
      rw [pollEach, pollEach, List.foldlM_cons, List.foldlM_cons, hdue s (List.mem_cons_self ..),
        hpoll s (List.mem_cons_self ..)]
      exact bind_congr fun t₁ => ih (fun s' hs' => hdue s' (List.mem_cons_of_mem s hs'))
        fun s' hs' => hpoll s' (List.mem_cons_of_mem s hs')

/-- A wait polls the servers that have an entry, and clears their entries. -/
lemma waitEach_eq {poll : ServerId → ℕ → RdmaThread → Except Stop RdmaThread}
    (hnd : servers.Nodup) :
    waitEach poll servers (t, polls)
      = (pollEach (fun sid => polls sid > 0) (fun sid => poll sid (polls sid)) servers t).map
          fun t => (t, fun s => if s ∈ servers then 0 else polls s) := by
  induction servers generalizing t polls with
  | nil => simp [waitEach, pollEach]; rfl
  | cons s servers ih =>
      obtain ⟨hs, hnd⟩ := List.nodup_cons.mp hnd
      rw [waitEach, pollEach, List.foldlM_cons, List.foldlM_cons]
      by_cases hpos : polls s > 0
      · rw [if_pos hpos, if_pos (decide_eq_true hpos)]
        cases poll s (polls s) t with
        | error e => rfl
        | ok t₁ =>
            have hne : ∀ s' ∈ servers, s' ≠ s := fun s' hs' heq => hs (heq ▸ hs')
            have hrest : waitEach poll servers (t₁, Function.update polls s 0) = _ := ih hnd
            have hsame : pollEach (fun sid => Function.update polls s 0 sid > 0)
                (fun sid => poll sid (Function.update polls s 0 sid)) servers t₁
                = pollEach (fun sid => polls sid > 0) (fun sid => poll sid (polls sid))
                  servers t₁ :=
              pollEach_congr (fun s' hs' => by rw [Function.update_of_ne (hne s' hs')])
                fun s' hs' => by rw [Function.update_of_ne (hne s' hs')]
            rw [ite_mem_update hs (fun _ => 0), hsame] at hrest
            exact hrest
      · rw [if_neg hpos, if_neg (by simpa using hpos)]
        have hzero : Function.update polls s 0 = polls := by
          rw [← Nat.eq_zero_of_not_pos hpos, Function.update_eq_self]
        have hentries := ite_mem_update hs (fun _ => 0) polls
        rw [hzero] at hentries
        rw [← hentries]
        exact ih hnd

end Polling

/-! ### All variants -/

section Balance

variable {hw : Hardware} {servers : List ServerId} {sz : ℕ} {fetches : List Fetch}
  {t t₁ : RdmaThread} {s : ServerId}

/-- What a request reads: destination, length and offset. -/
def read (r : Request) : ℕ × ℕ × ℕ := (r.localBuf, r.length, r.remoteOffset)

/-- **A batch in balance**: every server was posted its reads, in their order; as many completions
were polled as requests were signaled; and everything has completed, with nothing left to poll. -/
structure Balanced (sz : ℕ) (fetches : List Fetch) (t t' : RdmaThread) : Prop where
  posts : ∀ s, ∃ rs, t'.posted s = t.posted s ++ rs ∧
    rs.map read = (fetches.filter (·.nid = s)).map (fun f => (f.localBuf, sgeLength sz, f.off)) ∧
    t'.polled s = t.polled s + rs.countP Request.signaled
  idle : Idle t'

/-- How the requests of a batch to one server may be posted: in nonempty groups, each with its last
request signaled. -/
structure Groups (sz : ℕ) (fetches : List Fetch) (l : List (List Request)) (s : ServerId) :
    Prop where
  ne_nil : ∀ g ∈ l, g ≠ []
  groups : ∀ g ∈ l, IsGroup Request.signaled g
  signaled : l.flatten.countP Request.signaled = l.length
  reads : l.flatten.map read = (fetches.filter (·.nid = s)).map fun f =>
    (f.localBuf, sgeLength sz, f.off)

/-- Every request is a group, when all are signaled. -/
lemma groups_signaled (sz : ℕ) (fetches : List Fetch) (s : ServerId) :
    Groups sz fetches ((readsTo sz true fetches s).map fun r => [r]) s ∧
      ((readsTo sz true fetches s).map fun r => [r]).flatten = readsTo sz true fetches s := by
  have hflat : ((readsTo sz true fetches s).map fun r => [r]).flatten
      = readsTo sz true fetches s := by
    rw [← List.flatMap_def, List.flatMap_singleton']
  have hsig : ∀ r ∈ readsTo sz true fetches s, r.signaled = true := by
    intro r hr
    obtain ⟨f, -, rfl⟩ := List.mem_map.mp hr
    rfl
  refine ⟨⟨fun g hg => ?_, fun g hg => ?_, ?_, ?_⟩, hflat⟩
  · obtain ⟨r, -, rfl⟩ := List.mem_map.mp hg
    exact List.cons_ne_nil r []
  · obtain ⟨r, hr, rfl⟩ := List.mem_map.mp hg
    intro init r' heq
    obtain ⟨rfl, hlast⟩ := List.append_inj' (heq.symm.trans (List.nil_append [r]).symm) rfl
    rw [(List.cons.inj hlast).1]
    exact ⟨hsig r hr, fun r' hr' => absurd hr' (List.not_mem_nil)⟩
  · rw [hflat, List.countP_eq_length.mpr hsig, List.length_map]
  · rw [hflat, readsTo, List.map_map]
    rfl

/-- All requests are one group, when only the last is signaled. -/
def lastGroups (sz : ℕ) (fetches : List Fetch) (s : ServerId) : List (List Request) :=
  if requestsTo sz fetches s = [] then [] else [signalLast (requestsTo sz fetches s)]

lemma map_read_signalLast (rs : List Request) : (signalLast rs).map read = rs.map read := by
  induction rs using List.reverseRecOn with
  | nil => rfl
  | append_singleton rs r ih => rw [signalLast_append, List.map_append, List.map_append]; rfl

lemma groups_last (sz : ℕ) (fetches : List Fetch) (s : ServerId) :
    Groups sz fetches (lastGroups sz fetches s) s ∧
      (lastGroups sz fetches s).flatten = signalLast (requestsTo sz fetches s) := by
  have hunsig : ∀ r ∈ requestsTo sz fetches s, r.signaled = false := by
    intro r hr
    obtain ⟨f, -, -, rfl⟩ := mem_requestsTo.mp hr
    rfl
  have hgroup := isGroup_signalLast hunsig
  have hreads : (signalLast (requestsTo sz fetches s)).map read
      = (fetches.filter (·.nid = s)).map fun f => (f.localBuf, sgeLength sz, f.off) := by
    rw [map_read_signalLast, requestsTo, List.map_map]
    rfl
  rw [lastGroups]
  by_cases hnil : requestsTo sz fetches s = []
  · rw [if_pos hnil]
    rw [hnil] at hreads ⊢
    exact ⟨⟨by simp, by simp, rfl, hreads⟩, rfl⟩
  · have hne : signalLast (requestsTo sz fetches s) ≠ [] := fun h => hnil (by
      rw [← List.length_eq_zero_iff, ← length_signalLast, h, List.length_nil])
    obtain ⟨init, r, hg, hr, hinit⟩ := hgroup.exists_last hne
    rw [if_neg hnil, List.flatten_singleton]
    refine ⟨⟨fun g hg => by rwa [List.mem_singleton.mp hg],
      fun g hg => by rwa [List.mem_singleton.mp hg], ?_, ?_⟩, rfl⟩
    · rw [List.flatten_singleton, hg, List.countP_append, List.countP_singleton, if_pos hr,
        List.countP_eq_zero.mpr fun r' hr' => by simp [hinit r' hr'], List.length_singleton]
    · rwa [List.flatten_singleton]

/-- Server ids are one byte wide, so the indices of a batch fit an `int`. -/
lemma length_lt_of_max (hmax : ∀ s, (fetches.filter (·.nid = s)).length ≤ maxDoorbellSize) :
    fetches.length < 2 ^ 31 := by
  have hle : ∀ k ∈ Finset.range 256, fetches.countP (fun f => f.nid.toNat = k)
      ≤ maxDoorbellSize := by
    intro k hk
    refine le_trans (le_of_eq ?_) (hmax (UInt8.ofNat k))
    rw [List.countP_eq_length_filter]
    congr 1
    refine List.filter_congr fun f _ => ?_
    rw [decide_eq_decide, ← UInt8.toNat_inj, UInt8.toNat_ofNat_of_lt' (Finset.mem_range.mp hk)]
  have hsum :=
    sum_countP (fun f : Fetch => f.nid.toNat) 256 (l := fetches) fun f _ => f.nid.toNat_lt
  have hbound := Finset.sum_le_card_nsmul _ _ _ hle
  rw [hsum, Finset.card_range, smul_eq_mul, maxDoorbellSize] at hbound
  omega

lemma Groups.eq_nil {l : List (List Request)} (h : Groups sz fetches l s)
    (hs : fetches.filter (·.nid = s) = []) : l = [] := by
  have hreads := h.reads
  rw [hs, List.map_nil, List.map_eq_nil_iff] at hreads
  cases l with
  | nil => rfl
  | cons g l =>
      rw [List.flatten_cons, List.append_eq_nil_iff] at hreads
      exact absurd hreads.1 (h.ne_nil g (List.mem_cons_self ..))

/-- **Posting and polling are in balance** if every group that was posted is polled for. -/
lemma exists_balanced (hnd : servers.Nodup) (hin : ∀ f ∈ fetches, f.nid ∈ servers)
    {l : ServerId → List (List Request)} {rs : ServerId → List Request}
    (hl : ∀ s, Groups sz fetches (l s) s ∧ (l s).flatten = rs s) (h : Posted t rs t₁)
    {due : ServerId → Bool} {poll : ServerId → RdmaThread → Except Stop RdmaThread}
    (hdue : ∀ s ∈ servers, due s = true ↔ l s ≠ [])
    (hpoll : ∀ s ∈ servers, ∀ t G, Tracked t.net G → G s = l s → l s ≠ [] →
      ∃ t', poll s t = .ok t' ∧ Tracked t'.net (Function.update G s []) ∧
        Polled s (l s).length t t') :
    ∃ t', pollEach due poll servers t₁ = .ok t' ∧ Balanced sz fetches t t' := by
  have hout : ∀ s, s ∉ servers → l s = [] := fun s hs =>
    (hl s).1.eq_nil (List.filter_eq_nil_iff.mpr fun f hf => by
      simpa using fun heq : f.nid = s => hs (heq ▸ hin f hf))
  have htracked : Tracked t₁.net l := h.followed.tracked (fun s => (hl s).2.symm)
    fun s => (hl s).1.groups
  obtain ⟨t', hrun, hend, hposted, hpend, hpolled⟩ :=
    pollEach_spec hnd hdue hpoll htracked (fun _ _ => rfl) hout
  refine ⟨t', hrun, fun s => ⟨rs s, ?_, ?_, ?_⟩, fun s => hend.eq_idle rfl, fun s => ?_⟩
  · rw [hposted, h.posted]
  · rw [← (hl s).2]
    exact (hl s).1.reads
  · rw [← (hl s).2, (hl s).1.signaled, hpolled, h.polled]
    by_cases hs : s ∈ servers
    · rw [if_pos hs]
    · rw [if_neg hs, hout s hs, List.length_nil, Nat.add_zero]
  · rw [hpend]
    by_cases hs : s ∈ servers ∧ l s ≠ []
    · rw [if_pos hs]
    · rw [if_neg hs]
      refine h.pendings s ?_
      have hnil : l s = [] := by
        by_contra hne
        exact hs ⟨by_contra fun hmem => hne (hout s hmem), hne⟩
      rw [← (hl s).2, hnil, List.flatten_nil]

/-- Everything signaled is polled for by `poll_completions`. -/
lemma exists_balanced_signaled (hw : Hardware) (hnd : servers.Nodup)
    (hin : ∀ f ∈ fetches, f.nid ∈ servers)
    (hmax : ∀ s, (fetches.filter (·.nid = s)).length ≤ maxDoorbellSize)
    (h : Posted t (readsTo sz true fetches) t₁) {count : ServerId → ℕ}
    (hcount : ∀ s ∈ servers, count s = (readsTo sz true fetches s).length) :
    ∃ t', pollEach (fun sid => count sid > 0)
      (fun sid => pollCompletions hw sid (count sid)) servers
      t₁ = .ok t' ∧ Balanced sz fetches t t' := by
  have hlen : ∀ s ∈ servers, count s = ((readsTo sz true fetches s).map fun r => [r]).length :=
    fun s hs => by rw [hcount s hs, List.length_map]
  refine exists_balanced hnd hin (groups_signaled sz fetches) h (fun s hs => ?_)
    fun s hs t G ht hG _ => ?_
  · rw [hlen s hs, decide_eq_true_eq, gt_iff_lt, List.length_pos_iff]
  · rw [hlen s hs, ← hG]
    refine pollCompletions_polled ht (fun g hg => ?_) ?_
    · exact (groups_signaled sz fetches s).1.ne_nil g (hG ▸ hg)
    · rw [hG, List.length_map, readsTo, List.length_map]
      exact (hmax s).trans (by decide)

/-- The last request of every server is polled for by `poll_completion`. -/
lemma exists_balanced_last (hw : Hardware) (hnd : servers.Nodup)
    (hin : ∀ f ∈ fetches, f.nid ∈ servers)
    (h : Posted t (fun s => signalLast (requestsTo sz fetches s)) t₁) {due : ServerId → Bool}
    (hdue : ∀ s ∈ servers, due s = true ↔ requestsTo sz fetches s ≠ []) :
    ∃ t', pollEach due (pollCompletion hw) servers t₁ = .ok t' ∧ Balanced sz fetches t t' := by
  have hgroups : ∀ s, lastGroups sz fetches s ≠ [] ↔ requestsTo sz fetches s ≠ [] := by
    intro s
    rw [lastGroups]
    split_ifs with hnil <;> simp [hnil]
  refine exists_balanced hnd hin (groups_last sz fetches) h
    (fun s hs => (hdue s hs).trans (hgroups s).symm) fun s hs t G ht hG hne => ?_
  have hone : lastGroups sz fetches s = [signalLast (requestsTo sz fetches s)] :=
    if_neg ((hgroups s).mp hne)
  rw [hone] at hG ⊢
  exact pollCompletion_polled ht hG
    ((groups_last sz fetches s).1.ne_nil _ (hone ▸ List.mem_singleton_self _))

lemma readsTo_of_notMem (hin : ∀ f ∈ fetches, f.nid ∈ servers) (hs : s ∉ servers)
    (signaled : Bool) : readsTo sz signaled fetches s = [] := by
  rw [readsTo, List.map_eq_nil_iff, List.filter_eq_nil_iff]
  intro f hf
  simpa using fun heq : f.nid = s => hs (heq ▸ hin f hf)

/-- What the posts one by one with all requests signaled are. -/
lemma postEach_signaled (hw : Hardware) (sz : ℕ) (fetches : List Fetch) (ht : Idle t) :
    Posted t (readsTo sz true fetches) (postEach hw sz fetches (t, fun _ => 0)).1 ∧
      (postEach hw sz fetches (t, fun _ => 0)).2 = fun s => (readsTo sz true fetches s).length := by
  have hposted := postEach_posted hw sz fetches ht.posted fun _ => 0
  have hcount := postEach_snd hw sz fetches t fun _ => 0
  simp only [List.nil_append] at hposted
  simp only [Nat.zero_add] at hcount
  exact ⟨hposted, hcount⟩

/-- What the doorbells with signaled requests post. -/
lemma doorbellEach_signaled (hw : Hardware) (sz : ℕ) (hnd : servers.Nodup)
    (hin : ∀ f ∈ fetches, f.nid ∈ servers)
    (hmax : ∀ s, (fetches.filter (·.nid = s)).length ≤ maxDoorbellSize) (ht : Idle t) :
    ∃ t₁, doorbellEach (rcPostDoorbell hw) sz true servers fetches (t, fun _ => 0)
        = .ok (t₁, fun s => (readsTo sz true fetches s).length) ∧
      Posted t (readsTo sz true fetches) t₁ := by
  have hsig : ∀ s, ∀ r ∈ readsTo sz true fetches s, r.signaled = true := by
    intro s r hr
    obtain ⟨f, -, rfl⟩ := List.mem_map.mp hr
    rfl
  obtain ⟨t₁, hrun, hposted⟩ := doorbellEach_posted (g := readsTo sz true fetches)
    (fun _ => rfl) (fun s t rs h hs hne => rcPostDoorbell_posted h hs (hsig s)
      (by rw [readsTo, List.length_map]; exact hmax s) hne) hmax hnd ht.posted (fun _ _ => rfl)
    fun _ => 0
  have hnil : ∀ s, s ∉ servers → readsTo sz true fetches s = [] := fun s hs =>
    readsTo_of_notMem hin hs true
  rw [ite_mem_eq fun s hs => (hnil s hs).symm] at hposted
  rw [ite_mem_eq fun s hs => by rw [hnil s hs, List.length_nil]] at hrun
  exact ⟨t₁, hrun, hposted⟩

/-- What the doorbells with one signaled request post. -/
lemma doorbellEach_last (hw : Hardware) (sz : ℕ) (hnd : servers.Nodup)
    (hin : ∀ f ∈ fetches, f.nid ∈ servers)
    (hmax : ∀ s, (fetches.filter (·.nid = s)).length ≤ maxDoorbellSize) (ht : Idle t) :
    ∃ t₁, doorbellEach (rcPostDoorbellUnsignal hw) sz false servers fetches (t, fun _ => 0)
        = .ok (t₁, fun s => (requestsTo sz fetches s).length) ∧
      Posted t (fun s => signalLast (requestsTo sz fetches s)) t₁ := by
  obtain ⟨t₁, hrun, hposted⟩ := doorbellEach_posted
    (g := fun s => signalLast (requestsTo sz fetches s))
    (fun s => length_signalLast _) (fun s t rs h hs hne => rcPostDoorbellUnsignal_posted h hs
      (by rw [readsTo, List.length_map]; exact hmax s)) hmax hnd ht.posted (fun _ _ => rfl)
    fun _ => 0
  have hnil : ∀ s, s ∉ servers → requestsTo sz fetches s = [] := fun s hs =>
    readsTo_of_notMem hin hs false
  simp only [length_signalLast] at hrun
  rw [ite_mem_eq fun s hs => by rw [hnil s hs]; rfl] at hposted
  rw [ite_mem_eq fun s hs => by rw [hnil s hs, List.length_nil]] at hrun
  exact ⟨t₁, hrun, hposted⟩

/-- What the posts one by one with one signaled request are. -/
lemma unsignalEach_last (hw : Hardware) (sz : ℕ) (hnd : servers.Nodup)
    (hin : ∀ f ∈ fetches, f.nid ∈ servers)
    (hmax : ∀ s, (fetches.filter (·.nid = s)).length ≤ maxDoorbellSize) (ht : Idle t) :
    Posted t (fun s => signalLast (requestsTo sz fetches s))
        (unsignalEach hw sz servers fetches (t, fun _ => 0)).1 ∧
      (unsignalEach hw sz servers fetches (t, fun _ => 0)).2
        = fun s => (requestsTo sz fetches s).length := by
  obtain ⟨hposted, hpolls⟩ := unsignalEach_posted hw sz hnd ht.posted (fun _ _ => rfl)
    (length_lt_of_max hmax) fun _ => 0
  have hnil : ∀ s, s ∉ servers → requestsTo sz fetches s = [] := fun s hs =>
    readsTo_of_notMem hin hs false
  rw [ite_mem_eq fun s hs => by rw [hnil s hs]; rfl] at hposted
  simp only [Nat.zero_add] at hpolls
  rw [ite_mem_eq fun s hs => by rw [hnil s hs, List.length_nil]] at hpolls
  exact ⟨hposted, hpolls⟩

/-- After a wait no entry is left, if the entries of other servers were zero. -/
lemma waitEach_balanced {poll : ServerId → ℕ → RdmaThread → Except Stop RdmaThread} {polls : Polls}
    (hnd : servers.Nodup) (hpolls : ∀ s, s ∉ servers → polls s = 0)
    (h : ∃ t', pollEach (fun sid => polls sid > 0) (fun sid => poll sid (polls sid)) servers t₁
      = .ok t' ∧ Balanced sz fetches t t') :
    ∃ t', waitEach poll servers (t₁, polls) = .ok (t', fun _ => 0) ∧ Balanced sz fetches t t' := by
  obtain ⟨t', hrun, hbal⟩ := h
  refine ⟨t', ?_, hbal⟩
  rw [waitEach_eq hnd, hrun]
  change Except.ok (t', fun s => if s ∈ servers then 0 else polls s) = _
  rw [ite_mem_eq hpolls]

end Balance

/-- **All batched reads are in balance.** For a batch with at most `MAX_DOORBELL_SIZE` requests a
server, each routine, from an idle thread, posts the reads of every server in their order, returns
when all of them have completed, polls for exactly the signaled ones, and leaves the thread idle and
every entry of `polls` zero. -/
theorem Variant.run_balanced (hw : Hardware) {servers : List ServerId}
    (hnd : servers.Nodup) (sz : ℕ) {fetches : List Fetch} (hin : ∀ f ∈ fetches, f.nid ∈ servers)
    (hmax : ∀ s, (fetches.filter (·.nid = s)).length ≤ maxDoorbellSize) {t : RdmaThread}
    (ht : Idle t) (v : Variant) :
    ∃ t', v.run hw servers sz fetches t (fun _ => 0) = .ok (t', fun _ => 0) ∧
      Balanced sz fetches t t' := by
  have hcount : ∀ s, s ∉ servers → (readsTo sz true fetches s).length = 0 := fun s hs => by
    rw [readsTo_of_notMem hin hs, List.length_nil]
  have hlast : ∀ s, s ∉ servers → (requestsTo sz fetches s).length = 0 := fun s hs => by
    rw [show requestsTo sz fetches s = [] from readsTo_of_notMem hin hs false, List.length_nil]
  have hdue : ∀ s ∈ servers, decide ((requestsTo sz fetches s).length > 0) = true
      ↔ requestsTo sz fetches s ≠ [] := fun s _ => by
    rw [decide_eq_true_eq, gt_iff_lt, List.length_pos_iff]
  cases v with
  | readBatch =>
      obtain ⟨hposted, hsrCnt⟩ := postEach_signaled hw sz fetches ht
      obtain ⟨t', hrun, hbal⟩ := exists_balanced_signaled hw hnd hin hmax hposted
        fun s _ => congrFun hsrCnt s
      have hread : rdmaReadBatch hw servers sz fetches t = .ok t' := hrun
      exact ⟨t', by rw [run, hread]; rfl, hbal⟩
  | readBatchDoorbell =>
      obtain ⟨t₁, hsend, hposted⟩ := doorbellEach_signaled hw sz hnd hin hmax ht
      obtain ⟨t', hrun, hbal⟩ := exists_balanced_signaled hw hnd hin hmax hposted fun _ _ => rfl
      have hread : rdmaReadBatchDoorbell hw servers sz fetches t = .ok t' := by
        rw [rdmaReadBatchDoorbell, hsend]
        exact hrun
      exact ⟨t', by rw [run, hread]; rfl, hbal⟩
  | readBatchUnsignal =>
      obtain ⟨hposted, -⟩ := unsignalEach_last hw sz hnd hin hmax ht
      obtain ⟨t', hrun, hbal⟩ := exists_balanced_last hw hnd hin hposted
        fun s _ => decide_eq_true_iff.trans (lastSr_gt_iff (length_lt_of_max hmax))
      have hread : rdmaReadBatchUnsignal hw servers sz fetches t = .ok t' := hrun
      exact ⟨t', by rw [run, hread]; rfl, hbal⟩
  | asyncSend =>
      obtain ⟨hposted, hpolls⟩ := postEach_signaled hw sz fetches ht
      refine waitEach_balanced hnd (fun s hs => (congrFun hpolls s).trans (hcount s hs)) ?_
      exact exists_balanced_signaled hw hnd hin hmax hposted fun s _ => congrFun hpolls s
  | doorbellAsyncSend =>
      obtain ⟨t₁, hsend, hposted⟩ := doorbellEach_signaled hw sz hnd hin hmax ht
      obtain ⟨t', hrun, hbal⟩ := waitEach_balanced hnd hcount
        (exists_balanced_signaled hw hnd hin hmax hposted fun _ _ => rfl)
      refine ⟨t', ?_, hbal⟩
      rw [run, rdmaReadBatchDoorbellAsyncSend, hsend]
      exact hrun
  | unsignalAsyncSend =>
      obtain ⟨hposted, hpolls⟩ := unsignalEach_last hw sz hnd hin hmax ht
      obtain ⟨t', hrun, hbal⟩ : ∃ t', rdmaReadBatchUnsignalAsyncWait hw servers _ _ = _ ∧
          Balanced sz fetches t t' :=
        waitEach_balanced hnd (fun s hs => (congrFun hpolls s).trans (hlast s hs))
          (exists_balanced_last hw hnd hin hposted fun s hs => by
            rw [hpolls]
            exact hdue s hs)
      exact ⟨t', hrun, hbal⟩
  | doorbellUnsignalAsyncSend =>
      obtain ⟨t₁, hsend, hposted⟩ := doorbellEach_last hw sz hnd hin hmax ht
      obtain ⟨t', hrun, hbal⟩ : ∃ t', rdmaReadBatchUnsignalAsyncWait hw servers _ _ = _ ∧
          Balanced sz fetches t t' :=
        waitEach_balanced hnd hlast (exists_balanced_last hw hnd hin hposted hdue)
      refine ⟨t', ?_, hbal⟩
      rw [run, rdmaReadBatchDoorbellUnsignalAsyncSend, hsend]
      exact hrun

/-- Two servers and three reads, two of which go to the second server. -/
theorem Variant.run_balanced_threeReads : ∃ t',
    Variant.run ⟨fun _ _ => 0, fun _ => [0]⟩ [0, 1] 8 [⟨1, 0, 16⟩, ⟨0, 8, 0⟩, ⟨1, 16, 40⟩]
        ⟨⟨fun _ => idle, fun _ => 0, 0⟩, fun _ => 0, fun _ => [], fun _ => 0⟩ (fun _ => 0)
        .readBatchUnsignal = .ok (t', fun _ => 0) ∧
      Balanced 8 [⟨1, 0, 16⟩, ⟨0, 8, 0⟩, ⟨1, 16, 40⟩]
        ⟨⟨fun _ => idle, fun _ => 0, 0⟩, fun _ => 0, fun _ => [], fun _ => 0⟩ t' :=
  Variant.run_balanced _ (by decide) 8 (by decide)
    (fun s => (List.length_filter_le _ _).trans (by decide)) ⟨fun _ => rfl, fun _ => rfl⟩ _

/-! ### The queue pairs alone -/

section Projections

variable {hw : Hardware} {servers : List ServerId} {sz : ℕ} {fetches : List Fetch} {t : RdmaThread}
  {polls : Polls} {s : ServerId}

lemma net_foldlM {f : RdmaThread → ServerId → Except Stop RdmaThread}
    {g : Net → ServerId → Except Stop Net} (h : ∀ t, ∀ s ∈ servers, (f t s).map net = g t.net s) :
    (servers.foldlM f t).map net = servers.foldlM g t.net := by
  induction servers generalizing t with
  | nil => rfl
  | cons s servers ih =>
      have hs := h t s (List.mem_cons_self ..)
      rw [List.foldlM_cons, List.foldlM_cons, ← hs]
      cases f t s with
      | error e => rfl
      | ok t₁ => exact ih fun t s' hs' => h t s' (List.mem_cons_of_mem s hs')

lemma net_pollCompletion : (pollCompletion hw s t).map net = RedAnns.pollCompletion hw s t.net := by
  rw [pollCompletion]
  cases RedAnns.pollCompletion hw s t.net with
  | error e => rfl
  | ok n => rfl

lemma net_pollCompletions {n : ℕ} (hn : n ≤ rcMaxSendSize) :
    (pollCompletions hw s n t).map net = RedAnns.pollCompletions hw s n t.net := by
  rw [pollCompletions, if_neg (not_lt.mpr hn)]
  change ((RedAnns.pollCompletions hw s n t.net >>= _).map net) = _
  cases RedAnns.pollCompletions hw s n t.net with
  | error e => rfl
  | ok n => rfl

lemma net_postEach (hw : Hardware) (sz : ℕ) (fetches : List Fetch) (t : RdmaThread)
    (polls : Polls) :
    (postEach hw sz fetches (t, polls)).1.net
      = fetches.foldl (fun net f => postTo (progress hw net) f.nid [f.request sz true]) t.net := by
  induction fetches generalizing t polls with
  | nil => rfl
  | cons f fetches ih => exact ih _ _

/-- `RdmaReadBatch`, on the queue pairs alone. -/
theorem net_rdmaReadBatch (hmax : ∀ s, (fetches.filter (·.nid = s)).length ≤ maxDoorbellSize) :
    (rdmaReadBatch hw servers sz fetches t).map net
      = RedAnns.rdmaReadBatch hw servers sz fetches t.net := by
  have hcount := postEach_snd hw sz fetches t fun _ => 0
  have hread : rdmaReadBatch hw servers sz fetches t
      = pollEach (fun sid => (postEach hw sz fetches (t, fun _ => 0)).2 sid > 0)
        (fun sid => pollCompletions hw sid ((postEach hw sz fetches (t, fun _ => 0)).2 sid)) servers
        (postEach hw sz fetches (t, fun _ => 0)).1 := rfl
  rw [hread, hcount, RedAnns.rdmaReadBatch, ← net_postEach hw sz fetches t fun _ => 0, pollEach]
  refine net_foldlM fun t₁ s _ => ?_
  simp only [Nat.zero_add, readsTo, List.length_map, decide_eq_true_eq]
  split_ifs with hpos
  · exact net_pollCompletions ((hmax s).trans (by decide))
  · rfl

/-- `RdmaReadBatchDoorbellUnsignal_Async_Send`, on the queue pairs alone. -/
theorem net_rdmaReadBatchDoorbellUnsignalAsyncSend
    (hmax : ∀ s, (fetches.filter (·.nid = s)).length ≤ maxDoorbellSize) :
    (rdmaReadBatchDoorbellUnsignalAsyncSend hw servers sz fetches t polls).map
        (fun p => (p.1.net, p.2))
      = .ok (RedAnns.rdmaReadBatchDoorbellUnsignalAsyncSend hw servers sz fetches t.net polls) := by
  rw [rdmaReadBatchDoorbellUnsignalAsyncSend, doorbellEach,
    RedAnns.rdmaReadBatchDoorbellUnsignalAsyncSend]
  induction servers generalizing t polls with
  | nil => rfl
  | cons s servers ih =>
      have hlen : ¬ maxDoorbellSize < (requestsTo sz fetches s).length :=
        not_lt.mpr ((List.length_map _).trans_le (hmax s))
      have hstep : ∃ t₁, doorbellOne (rcPostDoorbellUnsignal hw) sz false fetches (t, polls) s
          = .ok (t₁, Function.update polls s (requestsTo sz fetches s).length) ∧
          t₁.net = if (requestsTo sz fetches s).length > 0
            then postTo (progress hw t.net) s (signalLast (requestsTo sz fetches s))
            else t.net := by
        rw [doorbellOne, fillReqs_eq false (hmax s)]
        change ∃ t₁, (if Function.update polls s (requestsTo sz fetches s).length s > 0
          then _ else _) = _ ∧ _
        rw [Function.update_self]
        by_cases hpos : (requestsTo sz fetches s).length > 0
        · refine ⟨postSend hw s (signalLast (requestsTo sz fetches s)) t, ?_, (if_pos hpos).symm⟩
          rw [if_pos hpos]
          change (rcPostDoorbellUnsignal hw s (requestsTo sz fetches s) t >>= _) = _
          rw [rcPostDoorbellUnsignal, if_neg hlen]
          rfl
        · exact ⟨t, if_neg hpos, (if_neg hpos).symm⟩
      obtain ⟨t₁, hrun, hnet⟩ := hstep
      rw [List.foldlM_cons, hrun, List.foldl_cons]
      refine (ih (t := t₁)).trans ?_
      rw [hnet]
      congr 2
      by_cases hpos : (requestsTo sz fetches s).length > 0
      · rw [if_pos hpos]
        exact (if_pos hpos).symm
      · rw [if_neg hpos]
        exact (if_neg hpos).symm

/-- `RdmaReadBatchUnsignal_Async_Wait`, on the queue pairs alone. -/
theorem net_rdmaReadBatchUnsignalAsyncWait (hnd : servers.Nodup) :
    (rdmaReadBatchUnsignalAsyncWait hw servers t polls).map (fun p => p.1.net)
      = RedAnns.rdmaReadBatchUnsignalAsyncWait hw servers polls t.net := by
  rw [rdmaReadBatchUnsignalAsyncWait, waitEach_eq hnd, RedAnns.rdmaReadBatchUnsignalAsyncWait]
  have hnet : (pollEach (fun sid => polls sid > 0) (fun sid => pollCompletion hw sid) servers
      t).map net = servers.foldlM (fun net sid =>
          if polls sid > 0 then RedAnns.pollCompletion hw sid net else .ok net) t.net := by
    refine net_foldlM fun t₁ s _ => ?_
    simp only [decide_eq_true_eq]
    split_ifs with hpos
    · exact net_pollCompletion
    · rfl
  rw [← hnet]
  cases pollEach (fun sid => polls sid > 0) (fun sid => pollCompletion hw sid) servers t with
  | error e => rfl
  | ok t' => rfl

end Projections

end RdmaThread

end RedAnns
