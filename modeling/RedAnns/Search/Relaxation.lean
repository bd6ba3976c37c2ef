import RedAnns.Search.Runs

/-!
The end of the main loop of the distributed search, with batches still in flight.

* `DistState.Left`: the main loop is left for good; `Moves.left` and `Moves.leaves` say how.
* `DistributedRun.leftFrom`: from there on no node is expanded, and what is scored are the
  vertices that were still to be scored; `DistributedRun.exists_left` finds the state in which
  the loop was left.
* `poolExpanded_iff`: the final pool is expanded exactly when the pool with which the main loop
  is left keeps out every remote vertex of the batches in flight; without relaxation there are
  none.
* `not_poolExpanded_threePoints`: with relaxation a search can end with an entry that was
  never expanded, and with an out-neighbour that was never visited.
-/

namespace RedAnns

open GStore Distributed

/-! ### Leaving the main loop -/

section Left

variable {δ : Type} [LinearOrder δ] [Inhabited δ]

/-- The main loop is left for good. -/
def DistState.Left (s : DistState δ) : Prop :=
  (s.point = .head ∧ s.bestLNodes.hasUnexpandedNode = false) ∨ s.point = .drain ∨
    (∃ rest, s.point = .scoreRemote true rest) ∨ s.point = .finished

/-- What the loop behind the main loop does to a state: it scores what was still to be
scored. -/
structure LeftFrom (sid : ServerId) (s s' : DistState δ) : Prop where
  left : s'.Left
  inserted : s'.insertedIntoPoolRs = s.insertedIntoPoolRs
  expanded : s'.expanded = s.expanded
  perm : (s'.evaluated ++ s'.point.pending sid s'.flight).Perm
    (s.evaluated ++ s.point.pending sid s.flight)

variable {ix : ServerIndex} {c : SearchCall δ} {s s' : DistState δ}
  {batches batches' : List Batch}

namespace Distributed

/-- The main loop is not entered again. -/
lemma Moves.left (hm : Moves ix c s batches s' batches') (h : s.Left) : s'.Left := by
  rcases h with ⟨hp', hc'⟩ | hp' | ⟨rest', hp'⟩ | hp'
  · cases hm with
    | expanded hp hc hlen => rw [hc'] at hc; exact absurd hc (by simp)
    | exhausted hp hc => exact Or.inr (Or.inl rfl)
    | awaited hp => rw [hp'] at hp; split_ifs at hp
    | _ hp => rw [hp'] at hp; exact absurd hp (by simp)
  · cases hm with
    | @awaited b bs draining ctx hp =>
        rw [hp'] at hp
        cases draining with
        | true => exact Or.inr (Or.inr (Or.inl ⟨b, rfl⟩))
        | false => exact absurd hp (by simp)
    | drained hp => exact Or.inr (Or.inr (Or.inr rfl))
    | _ hp => rw [hp'] at hp; exact absurd hp (by simp)
  · cases hm with
    | @scoredRemote _ draining x rest hp hsid =>
        rw [hp'] at hp
        obtain ⟨rfl, -⟩ := Point.scoreRemote.inj hp
        exact Or.inr (Or.inr (Or.inl ⟨rest, rfl⟩))
    | @passedLocal _ draining x rest hp hsid =>
        rw [hp'] at hp
        obtain ⟨rfl, -⟩ := Point.scoreRemote.inj hp
        exact Or.inr (Or.inr (Or.inl ⟨rest, rfl⟩))
    | @popped b _ draining hp =>
        rw [hp'] at hp
        obtain ⟨rfl, -⟩ := Point.scoreRemote.inj hp
        exact Or.inr (Or.inl rfl)
    | awaited hp => rw [hp'] at hp; split_ifs at hp
    | _ hp => rw [hp'] at hp; exact absurd hp (by simp)
  · cases hm with
    | awaited hp => rw [hp'] at hp; split_ifs at hp
    | _ hp => rw [hp'] at hp; exact absurd hp (by simp)

/-- The main loop is left at its head. -/
lemma Moves.leaves (hm : Moves ix c s batches s' batches') (h : ¬ s.Left) (h' : s'.Left) :
    s'.point = .head ∧ s'.bestLNodes.hasUnexpandedNode = false := by
  -- a step to another point inside the main loop does not leave it
  have hin : ∀ {p : Point}, s'.point = p → p ≠ .drain → (∀ rest, p ≠ .scoreRemote true rest) →
      p ≠ .finished → s'.point = .head ∧ s'.bestLNodes.hasUnexpandedNode = false := by
    rintro p rfl hdrain hremote hfinished
    rcases h' with h' | h' | ⟨rest, h'⟩ | h'
    · exact h'
    · exact absurd h' hdrain
    · exact absurd h' (hremote rest)
    · exact absurd h' hfinished
  cases hm with
  | expanded hp hc hlen => exact hin rfl (by simp [issued]) (by simp [issued]) (by simp [issued])
  | exhausted hp hc => exact absurd (Or.inl ⟨hp, hc⟩) h
  | drained hp => exact absurd (Or.inr (Or.inl hp)) h
  | @awaited b bs draining ctx hp =>
      cases draining with
      | true => exact absurd (Or.inr (Or.inl hp)) h
      | false => exact hin rfl (by simp) (by simp) (by simp)
  | @scoredRemote _ draining x rest hp hsid =>
      cases draining with
      | true => exact absurd (Or.inr (Or.inr (Or.inl ⟨_, hp⟩))) h
      | false => exact hin rfl (by simp) (by simp) (by simp)
  | @passedLocal _ draining x rest hp hsid =>
      cases draining with
      | true => exact absurd (Or.inr (Or.inr (Or.inl ⟨_, hp⟩))) h
      | false => exact hin rfl (by simp) (by simp) (by simp)
  | @popped b _ draining hp =>
      cases draining with
      | true => exact absurd (Or.inr (Or.inr (Or.inl ⟨_, hp⟩))) h
      | false => exact hin rfl (by simp) (by simp) (by simp)
  | _ => exact hin rfl (by simp) (by simp) (by simp)

/-- A state whose main loop is left expands no node. -/
lemma Moves.quiet_of_left (hm : Moves ix c s batches s' batches') (h : s.Left) :
    Quiet ix.gstore.sid s batches s' batches' := by
  rcases hm.expands_or_quiet with ⟨hp, hc, -⟩ | hq
  · rcases h with ⟨-, hc'⟩ | hp' | ⟨rest, hp'⟩ | hp'
    · rw [hc'] at hc
      exact absurd hc (by simp)
    · rw [hp] at hp'
      exact absurd hp' (by simp)
    · rw [hp] at hp'
      exact absurd hp' (by simp)
    · rw [hp] at hp'
      exact absurd hp' (by simp)
  · exact hq

end Distributed

end Left

/-! ### The vertices in flight when the main loop is left -/

namespace DistributedRun

variable {δ : Type} [LinearOrder δ] [Inhabited δ] {r : DistributedRun δ} {m n : ℕ}
  {s s' : DistState δ}

/-- From the end of the main loop on. -/
lemma leftFrom (hmn : m ≤ n) (h : r.search m = .ok s) (h' : r.search n = .ok s') (hl : s.Left) :
    LeftFrom r.ix.gstore.sid s s' := by
  refine rel_of_le (Q := fun s s' => s.Left → LeftFrom r.ix.gstore.sid s s')
    (fun s hl => ⟨hl, rfl, rfl, List.Perm.refl _⟩) (fun s t u hst htu hl => ?_)
    (fun s s' hinv hp hstep hl => ?_) hmn h h' hl
  · have ht := hst hl
    have hu := htu ht.left
    exact ⟨hu.left, hu.inserted.trans ht.inserted, hu.expanded.trans ht.expanded,
      hu.perm.trans ht.perm⟩
  · obtain ⟨t, ht, -, hm, -⟩ := step_spec hinv hp
    obtain rfl := Except.ok.inj (hstep.symm.trans ht)
    have hq := hm.quiet_of_left hl
    exact ⟨hm.left hl, hq.inserted, hq.expanded, hq.perm⟩

/-- A search whose main loop is left has left it at its head. -/
lemma exists_left (h : r.search n = .ok s) (hl : s.Left) :
    ∃ m s', r.search m = .ok s' ∧ s'.point = .head ∧ s'.bestLNodes.hasUnexpandedNode = false := by
  refine search_induction (P := fun s => s.Left → ∃ m s', r.search m = .ok s' ∧
    s'.point = .head ∧ s'.bestLNodes.hasUnexpandedNode = false) (fun s hs hl => ?_)
    (fun n s s' hn hp hstep ih hl => ?_) h hl
  · obtain ⟨-, -, -, -, -, ⟨rest, hp⟩, -⟩ :=
      inv_start serves r.thread.polls_nil r.thread.qps_idle hs
    rcases hl with ⟨hp', -⟩ | hp' | ⟨rest', hp'⟩ | hp'
    all_goals
      rw [hp] at hp'
      exact absurd hp' (by simp)
  · by_cases hs : s.Left
    · exact ih hs
    · obtain ⟨t, ht, -, hm, -⟩ := step_spec (inv_of_search hn) hp
      obtain rfl := Except.ok.inj (hstep.symm.trans ht)
      obtain ⟨hhead, hc⟩ := hm.leaves hs hl
      exact ⟨n + 1, s', search_succ hn hp hstep, hhead, hc⟩

/-- When the search has ended, no batch is in flight. -/
lemma flight_of_finished (h : r.search n = .ok s) (hp : s.point = .finished) : s.flight = [] := by
  have hcount := (inv_of_search h).countdown
  rw [hp] at hcount
  exact List.length_eq_zero_iff.mp hcount

/-- The search is at a loop head before it has ended. -/
lemma le_of_finished (h : r.search n = .ok s) (hp : s.point = .finished)
    (h' : r.search m = .ok s') (hp' : s'.point ≠ .finished) : m ≤ n := by
  by_contra hmn
  obtain ⟨k, rfl⟩ := Nat.exists_eq_add_of_le (not_le.mp hmn).le
  rw [search_add, h] at h'
  have heq : run r.ix r.call k s = .ok s' := h'
  rw [run_of_finished hp] at heq
  rw [Except.ok.inj heq] at hp
  exact hp' hp

end DistributedRun

/-! ### What the search ends with -/

section Ends

variable {δ : Type} [LinearOrder δ] [Inhabited δ]

/-- No entry of the pool is left unexpanded, and every out-neighbour of its entries was
visited. -/
structure PoolExpanded (ix : ServerIndex) (s : DistState δ) : Prop where
  expanded : ∀ n ∈ s.bestLNodes.live, n.expanded = true
  visited : ∀ n ∈ s.bestLNodes.live, ∀ w ∈ ix.store.neighbors (ix.store.getVertex n.id),
    w ∈ s.insertedIntoPoolRs

/-- The pool is full, and every remote vertex of the batches in flight lies behind all of it. -/
def LeftoversStayOut (ix : ServerIndex) (c : SearchCall δ) (s : DistState δ) : Prop :=
  ∀ w ∈ s.flight.flatMap (remotes ix.gstore.sid),
    s.bestLNodes.size = s.bestLNodes.capacity ∧
      ∀ n ∈ s.bestLNodes.live, n.key < ix.store.key c.distance c.query w

instance {ix : ServerIndex} {c : SearchCall δ} {s : DistState δ} :
    Decidable (LeftoversStayOut ix c s) :=
  inferInstanceAs (Decidable (∀ w ∈ s.flight.flatMap (remotes ix.gstore.sid),
    s.bestLNodes.size = s.bestLNodes.capacity ∧
      ∀ n ∈ s.bestLNodes.live, n.key < ix.store.key c.distance c.query w))

/-- A pool of expanded entries has had all out-neighbours visited. -/
lemma Distributed.Inv.poolExpanded {ix : ServerIndex} {R : Finset Item} {c : SearchCall δ} {L : ℕ}
    {s : DistState δ} {batches : List Batch} (h : Inv ix R c L s batches)
    (hexp : ∀ n ∈ s.bestLNodes.live, n.expanded = true) : PoolExpanded ix s := by
  refine ⟨hexp, fun n hn w hw => h.neighbors n.id ?_ w hw⟩
  obtain ⟨-, hkey, -⟩ := h.pool.exists_of_mem_live hn
  have hmem := (h.pool.holds.flags n hn).mp (hexp n hn)
  rw [hkey] at hmem
  exact mem_keys.mp hmem

variable {r : DistributedRun δ} {m n : ℕ} {s e : DistState δ}

/-- **The end of the search, from the end of the main loop**: what is scored there late keeps the
pool expanded exactly when none of it enters the pool. -/
lemma poolExpanded_iff_of_left (hmn : m ≤ n) (he : r.search m = .ok e) (hs : r.search n = .ok s)
    (hhead : e.point = .head) (hc : e.bestLNodes.hasUnexpandedNode = false)
    (hp : s.point = .finished) : PoolExpanded r.ix s ↔ LeftoversStayOut r.ix r.call e := by
  have hinve := DistributedRun.inv_of_search he
  have hinv := DistributedRun.inv_of_search hs
  have hfrom := DistributedRun.leftFrom hmn he hs (Or.inl ⟨hhead, hc⟩)
  have hcap := hinve.pool.capacity
  set W := e.flight.flatMap (remotes r.ix.gstore.sid) with hW
  -- the scored vertices at the end are those at the exit and those in flight there
  have hkeys : keys r.ix r.call s.evaluated
      = keys r.ix r.call e.evaluated ∪ keys r.ix r.call W := by
    rw [← keys_append]
    refine keys_eq_of_perm ?_
    have hperm := hfrom.perm
    rw [hp, hhead, DistributedRun.flight_of_finished hs hp] at hperm
    exact (List.append_nil s.evaluated).symm ▸ hperm
  have hdisj : Disjoint (keys r.ix r.call e.evaluated) (keys r.ix r.call W) := by
    refine disjoint_keys fun w hw hw' => ?_
    have hnodup := hinve.nodup
    rw [hhead] at hnodup
    exact (List.nodup_append.mp hnodup).2.2 w (List.mem_append_left _ hw) w hw' rfl
  have hsub : keys r.ix r.call e.expanded ⊆ keys r.ix r.call e.evaluated := fun k hk => by
    obtain ⟨item, hitem, rfl⟩ := exists_of_mem_keys hk
    exact mem_keys.mpr (hinve.pool.expanded_subset hitem)
  have hexit := hinve.pool.holds.hasUnexpandedNode_eq_false.mp hc
  have hend := hinv.pool.holds.expanded_iff
  rw [hcap] at hexit
  rw [hinv.pool.capacity, hfrom.expanded, hkeys] at hend
  have hiff := hend.trans (smallest_union_subset_iff hsub hexit hdisj)
  have hpool : PoolExpanded r.ix s ↔ ∀ n ∈ s.bestLNodes.live, n.expanded = true :=
    ⟨fun h => h.expanded, hinv.poolExpanded⟩
  rw [hpool, hiff, LeftoversStayOut]
  -- the list of the smallest pairs is the pool at the exit
  have hlist : smallest r.scratch.L (keys r.ix r.call e.evaluated)
      = e.bestLNodes.live.map Neighbor.key := by rw [hinve.pool.holds.keys, hcap]
  rw [hlist, List.length_map, hinve.pool.holds.length_live, hcap]
  constructor
  · intro h w hw
    obtain ⟨hfull, hlt⟩ := h _ (mem_keys.mpr hw)
    exact ⟨hfull, fun n hn => hlt _ (List.mem_map_of_mem hn)⟩
  · intro h k hk
    obtain ⟨w, hw, rfl⟩ := exists_of_mem_keys hk
    obtain ⟨hfull, hlt⟩ := h w hw
    exact ⟨hfull, List.forall_mem_map.mpr hlt⟩

/-- Without relaxation no batch is in flight when the main loop is left, and the final pool is
expanded. -/
lemma poolExpanded_of_relax_eq_zero (hrelax : r.call.relax = 0) (hs : r.search n = .ok s)
    (hp : s.point = .finished) : PoolExpanded r.ix s := by
  obtain ⟨m, e, he, hhead, hc⟩ := DistributedRun.exists_left hs (Or.inr (Or.inr (Or.inr hp)))
  have hle := DistributedRun.le_of_finished hs hp he (by rw [hhead]; simp)
  have hcount := (DistributedRun.inv_of_search he).countdown
  rw [hhead] at hcount
  have hlen : e.flight.length + e.relax = r.call.relax := hcount
  have hflight : e.flight = [] := List.length_eq_zero_iff.mp (by omega)
  refine (poolExpanded_iff_of_left hle he hs hhead hc hp).mpr fun w hw => ?_
  rw [hflight] at hw
  exact absurd hw (by simp)

/-- **When relaxation does not stop the search early.** A started search ends. No entry of its
final pool is then unexpanded if and only if the main loop was left with a full pool that lies
before every remote vertex of the batches still in flight, or with none in flight; without
relaxation none ever is. -/
theorem poolExpanded_iff {s₀ : DistState δ} (h₀ : r.start = .ok s₀) (hn : r.bound ≤ n) :
    ∃ s, r.search n = .ok s ∧ s.point = .finished ∧
      (PoolExpanded r.ix s ↔ ∀ m e, r.search m = .ok e → e.point = .head →
        e.bestLNodes.hasUnexpandedNode = false → LeftoversStayOut r.ix r.call e) ∧
      (r.call.relax = 0 → PoolExpanded r.ix s) := by
  obtain ⟨s, hs⟩ := DistributedRun.search_total h₀ n
  have hp := DistributedRun.point_eq_finished hn hs
  have hiff : ∀ {m : ℕ} {e : DistState δ}, r.search m = .ok e → e.point = .head →
      e.bestLNodes.hasUnexpandedNode = false →
        (PoolExpanded r.ix s ↔ LeftoversStayOut r.ix r.call e) := by
    intro m e he hhead hc
    have hle := DistributedRun.le_of_finished hs hp he (by rw [hhead]; simp)
    exact poolExpanded_iff_of_left hle he hs hhead hc hp
  refine ⟨s, hs, hp, ⟨fun hall m e he hhead hc => (hiff he hhead hc).mp hall, fun hall => ?_⟩,
    fun hrelax => poolExpanded_of_relax_eq_zero hrelax hs hp⟩
  obtain ⟨m, e, he, hhead, hc⟩ := DistributedRun.exists_left hs (Or.inr (Or.inr (Or.inr hp)))
  exact (hiff he hhead hc).mpr (hall m e he hhead hc)

end Ends

/-- The second of the three points is on the second server, and the entry point is adaptive as
well. -/
def threePointsRun : DistributedRun ℚ where
  d :=
    { b := threePoints
      bucketCount := 2
      baseInBucket := [0, 1, 0]
      elementSize_lt := by decide
      assigns := ⟨by decide, by decide⟩
      malloc := fun _ _ => 0
      mem := fun _ _ => 0
      sid := 0
      rdmaCache := ⟨fun _ => 0, fun _ => none⟩
      copies := by simp
      learnProjectionInBase := [[0]]
      projection_lt := by decide
      schedule := fun _ => [1] }
  thread := idleThread
  call := { twoServersCall with adaptiveEpNum := 1, relax := 1, relax_lt := by decide }
  scratch := .reserve 2 Nat.two_pos
  stats := none

/-- A search for what lies next to the entry point, with a pool of one entry. -/
def nearRun : DistributedRun ℚ :=
  { threePointsRun with
    call := { threePointsRun.call with query := [0] }
    scratch := .reserve 1 Nat.one_pos }

/-- The main loop is left with the second point in flight, which stays out of the pool. -/
theorem poolExpanded_nearRun :
    (∃ e, nearRun.search 5 = .ok e ∧ e.point = .head ∧ e.bestLNodes.hasUnexpandedNode = false ∧
      e.flight.flatMap (remotes nearRun.ix.gstore.sid) ≠ []) ∧
    ∃ s, nearRun.search nearRun.bound = .ok s ∧ s.point = .finished ∧
      PoolExpanded nearRun.ix s := by
  have hcheck : ∀ m < nearRun.bound, (match nearRun.search m with
      | .ok e => decide (e.point = .head → e.bestLNodes.hasUnexpandedNode = false →
          LeftoversStayOut nearRun.ix nearRun.call e)
      | .error _ => true) = true := by decide +kernel
  refine ⟨exists_of_check (by decide +kernel), ?_⟩
  obtain ⟨s₀, h₀⟩ := exists_start DistributedRun.serves nearRun.thread.polls_nil
    nearRun.thread.qps_idle nearRun.scratch nearRun.stats
    (show initIds nearRun.ix nearRun.call = .ok [⟨0, 0⟩, ⟨0, 0⟩] by decide) (by decide)
  obtain ⟨s, hs, hp, hiff, -⟩ := poolExpanded_iff h₀ le_rfl
  refine ⟨s, hs, hp, hiff.mpr fun m e he hhead hc => ?_⟩
  by_cases hm : m < nearRun.bound
  · have hm := hcheck m hm
    rw [he] at hm
    exact of_decide_eq_true hm hhead hc
  · rw [DistributedRun.point_eq_finished (not_lt.mp hm) he] at hhead
    cases hhead

/-- **With relaxation the search can stop early**: it ends with the second point in its pool,
unexpanded, and has never visited the third one. -/
theorem not_poolExpanded_threePoints :
    ∃ s, threePointsRun.search 12 = .ok s ∧ s.point = .finished ∧
      ∃ n ∈ s.bestLNodes.live, n.expanded = false ∧
        ∃ w ∈ threePointsRun.ix.store.neighbors (threePointsRun.ix.store.getVertex n.id),
          w ∉ s.insertedIntoPoolRs :=
  exists_of_check (by decide +kernel)

end RedAnns
