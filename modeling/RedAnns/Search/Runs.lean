import RedAnns.Search.Deployment
import RedAnns.Search.Flight

/-!
Whole runs of the distributed search on a deployment.

A `DistributedRun` is a deployment, a thread with nothing in flight (`IdleThread`) and a call;
`search n` is the state it has reached after `n` steps.

* `search_induction`: what holds of the state before the loop over the entry points and is
  kept by every step holds of every reached state.
* `inv_of_search`: every reached state satisfies the invariant; `moves_induction` is the
  induction over what the steps do.
* `search_total`, `point_eq_finished`: a search that has started never fails, and it ends,
  after a number of steps that the size of the base set bounds.
-/

namespace RedAnns

open GStore Distributed CompletionQueue

section Start

variable {δ : Type} [LinearOrder δ] [Inhabited δ] {ix : ServerIndex} {c : SearchCall δ}
  {R : Finset Item} {ids : List Item}

omit [LinearOrder δ] [Inhabited δ] in
/-- The entry points are items of the cluster. -/
lemma mem_of_initIds (hs : Serves ix R) (h : initIds ix c = .ok ids) : ∀ t ∈ ids, t ∈ R := by
  rw [initIds] at h
  split_ifs at h with hnum
  · cases hadd : addAdaptiveEp ix.baseInBucket ix.baseToLid ix.learnProjectionInBase
        c.learnIndexRes c.adaptiveEpNum [ix.membktEP] with
    | error e =>
        rw [hadd] at h
        exact absurd h (by simp [Except.mapError])
    | ok items =>
        rw [hadd] at h
        have hids : items = ids := Except.ok.inj h
        rw [← hids, addAdaptiveEp_eq hadd]
        intro t ht
        rcases List.mem_append.mp ht with ht | ht
        · rw [List.mem_singleton.mp ht]
          exact hs.entry_mem
        · obtain ⟨v, hv, rfl⟩ := List.mem_map.mp ht
          have hv := List.mem_of_mem_take hv
          rw [List.getD_eq_getElem?_getD] at hv
          cases hres : ix.learnProjectionInBase[c.learnIndexRes]? with
          | none =>
              rw [hres] at hv
              exact absurd hv (by simp)
          | some vs =>
              rw [hres] at hv
              exact hs.adaptive_mem vs (List.mem_of_getElem? hres) v hv
  · rw [← Except.ok.inj h]
    intro t ht
    rw [List.mem_singleton.mp ht]
    exact hs.entry_mem

/-- **The state before the loop over the entry points**: nothing is scored, and the entry
points are marked and have arrived. -/
theorem inv_start (hs : Serves ix R) {ctx : ThdCtx} (hpolls : ctx.thdPolls = [])
    (hidle : ∀ s, ctx.net.qps s = idle) {scratch : InMemQueryScratch Item δ}
    {stats : Option QueryStats} {s : DistState δ} (h : start ix c ctx scratch stats = .ok s) :
    Inv ix R c scratch.L s [] ∧ s.pushed = [] ∧ s.evaluated = [] ∧ s.expanded = [] ∧
      s.pruned = [] ∧ (∃ rest, s.point = .entry rest) ∧
      ∃ ids, initIds ix c = .ok ids ∧ s.insertedIntoPoolRs = ids.toFinset := by
  rw [start] at h
  cases hids : initIds ix c with
  | error e =>
      rw [hids] at h
      exact absurd h (by simp [bind, Except.bind])
  | ok ids =>
      rw [hids] at h
      simp only [bind, Except.bind] at h
      split_ifs at h with hlen
      obtain ⟨hins, hnodup, hset⟩ := visitAll_spec ∅ ids
      rw [Finset.empty_union] at hins
      rw [Finset.sdiff_empty] at hset
      have hmem : ∀ t ∈ (visitAll ∅ ids).2, t ∈ R := fun t ht =>
        mem_of_initIds hs hids t (by
          rw [← List.mem_toFinset, ← hset]
          exact List.mem_toFinset.mpr ht)
      have hstore : ix.gstore.StoreInv (resetThdCtx ctx) [] := storeInv_of_idle hpolls hidle
      obtain ⟨ptrs, ctx', hread, hlen', hstore', -, hcache, harr⟩ := hstore.read hs.servers_le
        (visitAll ∅ ids).2 fun t ht => hs.server_mem t (hmem t ht)
      rw [hread] at h
      have hfst : ((visitAll ∅ ids).2.zip ptrs).map Prod.fst = (visitAll ∅ ids).2 :=
        List.map_fst_zip hlen'.ge
      have hpend : (Point.entry ((visitAll ∅ ids).2.zip ptrs)).pending ix.gstore.sid []
          = (visitAll ∅ ids).2 := by
        rw [Point.pending, Point.current, hfst]
        exact List.append_nil _
      have heq := Except.ok.inj h
      rw [← heq]
      refine ⟨?_, rfl, rfl, rfl, rfl, ⟨_, rfl⟩, ids, rfl, hins⟩
      exact
        { items := rfl
          vertices := rfl
          log := rfl
          countdown := ⟨rfl, rfl⟩
          store := hstore'
          pool :=
            { capacity := rfl
              holds := NeighborPriorityQueue.holds_clear scratch.room _
              expanded_subset := List.Subset.refl _
              recorded := fun item ptr hptr => by
                rw [hcache] at hptr
                exact absurd hptr (by simp [resetThdCtx])
              cached := fun item hitem => absurd hitem (by simp [keys]) }
          ready := harr
          visited := fun w => by
            simp only [hpend, List.nil_append]
            rw [hins, ← hset, List.mem_toFinset]
          nodup := by
            simp only [hpend, List.nil_append]
            exact hnodup
          inserted_subset := fun t ht => mem_of_initIds hs hids t (by
            rw [hins] at ht
            exact List.mem_toFinset.mp ht)
          neighbors := by simp
          expanded_nodup := List.nodup_nil }

omit [LinearOrder δ] [Inhabited δ] in
/-- **A search starts** when there are enough entry points for the batches in flight. -/
theorem exists_start (hs : Serves ix R) {ctx : ThdCtx} (hpolls : ctx.thdPolls = [])
    (hidle : ∀ s, ctx.net.qps s = idle) (scratch : InMemQueryScratch Item δ)
    (stats : Option QueryStats) (hids : initIds ix c = .ok ids)
    (hlen : c.relax + 1 ≤ ids.length) : ∃ s, start ix c ctx scratch stats = .ok s := by
  obtain ⟨-, -, hset⟩ := visitAll_spec ∅ ids
  rw [Finset.sdiff_empty] at hset
  have hmem : ∀ t ∈ (visitAll ∅ ids).2, t.first ∈ ix.gstore.servers := fun t ht =>
    hs.server_mem t (mem_of_initIds hs hids t (by
      rw [← List.mem_toFinset, ← hset]
      exact List.mem_toFinset.mpr ht))
  have hstore : ix.gstore.StoreInv (resetThdCtx ctx) [] := storeInv_of_idle hpolls hidle
  obtain ⟨ptrs, ctx', hread, -⟩ := hstore.read hs.servers_le (visitAll ∅ ids).2 hmem
  rw [start, hids]
  simp only [bind, Except.bind]
  rw [if_neg (not_lt.mpr hlen), hread]
  exact ⟨_, rfl⟩

end Start

/-- A thread between two searches: no polls are queued, and its queue pairs are idle. -/
structure IdleThread where
  ctx : ThdCtx
  polls_nil : ctx.thdPolls = []
  qps_idle : ∀ s, ctx.net.qps s = idle

/-- A call of `search_base_index_distributed` by a thread of a server. -/
structure DistributedRun (δ : Type) where
  d : Deployment
  thread : IdleThread
  call : SearchCall δ
  scratch : InMemQueryScratch Item δ
  stats : Option QueryStats

/-- The batches that are pushed and not done with. -/
def DistState.flight {δ : Type} (s : DistState δ) : List Batch := s.pushed.drop s.scored.length

namespace DistributedRun

variable {δ : Type} [LinearOrder δ] [Inhabited δ] (r : DistributedRun δ)

/-- The index of the server. -/
def ix : ServerIndex := r.d.serverIndex

/-- The state before the loop over the entry points. -/
def start : Except Stop (DistState δ) :=
  Distributed.start r.ix r.call r.thread.ctx r.scratch r.stats

/-- The search, cut off after `n` steps. -/
def search (n : ℕ) : Except Stop (DistState δ) :=
  searchBaseIndexDistributed r.ix r.call r.thread.ctx r.scratch r.stats n

/-- As many steps as a search can make. -/
def bound : ℕ :=
  r.d.b.baseNum * (2 * r.d.b.baseNum + 5) + r.d.b.baseNum + 3

variable {r} {m n : ℕ} {s s' : DistState δ} {batches : List Batch}

omit [LinearOrder δ] [Inhabited δ] in
lemma serves : Serves r.ix r.d.items := Deployment.serves

omit [LinearOrder δ] [Inhabited δ] in
lemma card_items_le : r.d.items.card ≤ r.d.b.baseNum := r.d.card_items_le

lemma search_eq (h : r.start = .ok s) (n : ℕ) : r.search n = run r.ix r.call n s := by
  rw [search, searchBaseIndexDistributed, show Distributed.start _ _ _ _ _ = Except.ok s from h]
  rfl

lemma search_zero : r.search 0 = r.start := by
  rw [search, searchBaseIndexDistributed, start]
  cases Distributed.start r.ix r.call r.thread.ctx r.scratch r.stats <;> rfl

lemma search_add (m n : ℕ) : r.search (m + n) = r.search m >>= run r.ix r.call n := by
  cases h : r.start with
  | error e =>
      have herr : ∀ k, r.search k = .error e := fun k => by
        rw [search, searchBaseIndexDistributed,
          show Distributed.start _ _ _ _ _ = Except.error e from h]
        rfl
      rw [herr, herr]
      rfl
  | ok s => rw [search_eq h, search_eq h, run, whileLoopM_add]; rfl

/-- Starting is a matter of the entry points. -/
lemma start_of_search (h : r.search n = .ok s) : ∃ s₀, r.start = .ok s₀ := by
  rw [search, searchBaseIndexDistributed] at h
  cases hstart : Distributed.start r.ix r.call r.thread.ctx r.scratch r.stats with
  | error e =>
      rw [hstart] at h
      exact absurd h (by simp [bind, Except.bind])
  | ok s₀ => exact ⟨s₀, hstart⟩

lemma run_one (h : s.point ≠ .finished) : run r.ix r.call 1 s = step r.ix r.call s := by
  rw [run, whileLoopM, if_pos (by simpa using h)]
  cases step r.ix r.call s <;> rfl

lemma run_of_finished (h : s.point = .finished) (n : ℕ) : run r.ix r.call n s = .ok s :=
  whileLoopM_of_false (by simp [h]) n

lemma search_succ (h : r.search n = .ok s) (hp : s.point ≠ .finished)
    (hstep : step r.ix r.call s = .ok s') : r.search (n + 1) = .ok s' := by
  rw [search_add, h]
  exact (run_one hp).trans hstep

/-- **Induction on the run**: what holds before the loop over the entry points and is kept by
every step holds of every state that is reached. -/
theorem search_induction {P : DistState δ → Prop} (hstart : ∀ s, r.start = .ok s → P s)
    (hstep : ∀ n s s', r.search n = .ok s → s.point ≠ .finished →
      step r.ix r.call s = .ok s' → P s → P s')
    (h : r.search n = .ok s) : P s := by
  induction n generalizing s with
  | zero =>
      rw [search_zero] at h
      exact hstart s h
  | succ n ih =>
      rw [search_add] at h
      cases hn : r.search n with
      | error e =>
          rw [hn] at h
          exact absurd h (by simp [bind, Except.bind])
      | ok s₁ =>
          rw [hn] at h
          change run r.ix r.call 1 s₁ = .ok s at h
          by_cases hfin : s₁.point = .finished
          · rw [run_of_finished hfin] at h
            rw [← Except.ok.inj h]
            exact ih hn
          · rw [run_one hfin] at h
            exact hstep n s₁ s hn hfin h (ih hn)

omit [LinearOrder δ] [Inhabited δ] in
lemma flight_eq (h : s.pushed = s.scored ++ batches) : s.flight = batches := by
  rw [DistState.flight, h, List.drop_left]

/-- What one step does to a state with the invariant. -/
lemma step_spec (h : Inv r.ix r.d.items r.call r.scratch.L s s.flight)
    (hp : s.point ≠ .finished) :
    ∃ s', step r.ix r.call s = .ok s' ∧ Inv r.ix r.d.items r.call r.scratch.L s' s'.flight ∧
      Moves r.ix r.call (tick r.ix s) s.flight s' s'.flight ∧ Records s s' ∧
      stepsLeft r.d.items s'.flight s' < stepsLeft r.d.items s.flight s := by
  obtain ⟨s', hrun, batches', hmoves, hinv, hlt, hrec⟩ := h.step serves r.scratch.pos hp
  obtain rfl := flight_eq hinv.log
  exact ⟨s', hrun, hinv, hmoves, hrec, hlt⟩

/-- **Every reached state satisfies the invariant.** -/
theorem inv_of_search (h : r.search n = .ok s) :
    Inv r.ix r.d.items r.call r.scratch.L s s.flight := by
  refine search_induction (P := fun s => Inv r.ix r.d.items r.call r.scratch.L s s.flight)
    (fun s hs => ?_) (fun n s s' _ hp hstep hinv => ?_) h
  · obtain ⟨hinv, -⟩ := inv_start serves r.thread.polls_nil r.thread.qps_idle hs
    rwa [flight_eq hinv.log]
  · obtain ⟨t, ht, hinv', -⟩ := step_spec hinv hp
    rw [hstep] at ht
    rwa [Except.ok.inj ht]

/-- **Induction on the moves**: what holds before the loop over the entry points and is kept by
every move, from where the progress of the hardware has led, holds of every reached state. -/
theorem moves_induction {P : DistState δ → Prop} (hstart : ∀ s, r.start = .ok s → P s)
    (hmoves : ∀ n s s', r.search n = .ok s →
      Inv r.ix r.d.items r.call r.scratch.L (tick r.ix s) s.flight →
      Inv r.ix r.d.items r.call r.scratch.L s' s'.flight →
      Moves r.ix r.call (tick r.ix s) s.flight s' s'.flight → P s → P s')
    (h : r.search n = .ok s) : P s := by
  refine search_induction hstart (fun n s s' hn hp hstep hP => ?_) h
  have hinv := inv_of_search hn
  obtain ⟨t, ht, hinv', hm, -⟩ := step_spec hinv hp
  obtain rfl := Except.ok.inj (hstep.symm.trans ht)
  exact hmoves n s s' hn hinv.tick hinv' hm hP

/-- What the steps from a state on relate to it. -/
lemma rel_of_le {Q : DistState δ → DistState δ → Prop} (hrefl : ∀ s, Q s s)
    (htrans : ∀ s t u, Q s t → Q t u → Q s u)
    (hstep : ∀ s s', Inv r.ix r.d.items r.call r.scratch.L s s.flight → s.point ≠ .finished →
      step r.ix r.call s = .ok s' → Q s s')
    (hmn : m ≤ n) (h : r.search m = .ok s) (h' : r.search n = .ok s') : Q s s' := by
  obtain ⟨k, rfl⟩ := Nat.exists_eq_add_of_le hmn
  rw [search_add, h] at h'
  refine whileLoopM_rel (I := fun s => Inv r.ix r.d.items r.call r.scratch.L s s.flight) hrefl
    htrans (fun s hinv hc => ?_) (inv_of_search h) h'
  have hp : s.point ≠ .finished := by simpa using hc
  obtain ⟨t, ht, hinv', -⟩ := step_spec hinv hp
  exact ⟨t, ht, hinv', hstep s t hinv hp ht⟩

/-- **A search that has started never fails.** -/
theorem search_total (h : r.start = .ok s) (n : ℕ) : ∃ s', r.search n = .ok s' := by
  rw [search_eq h]
  have h₀ : r.search 0 = .ok s := search_zero.trans h
  obtain ⟨s', hrun, -⟩ := whileLoopM_total
    (I := fun s => Inv r.ix r.d.items r.call r.scratch.L s s.flight)
    (fun s hinv (hc : decide (s.point ≠ .finished) = true) => by
      obtain ⟨t, ht, hinv', -⟩ := step_spec hinv (of_decide_eq_true hc)
      exact ⟨t, ht, hinv'⟩) (inv_of_search h₀) n
  exact ⟨s', hrun⟩

/-- **The search ends.** -/
theorem point_eq_finished (hn : r.bound ≤ n) (h : r.search n = .ok s) : s.point = .finished := by
  obtain ⟨s₀, hs₀⟩ := start_of_search h
  obtain ⟨hinv, hpushed, -, hexp, -, ⟨rest, hrest⟩, -⟩ :=
    inv_start serves r.thread.polls_nil r.thread.qps_idle hs₀
  have hflight : s₀.flight = [] := flight_eq hinv.log
  -- the entry points are different items of the cluster
  have hlen : rest.length ≤ r.d.items.card := by
    have hnodup := (List.nodup_append.mp hinv.nodup).2.1
    rw [hrest, Point.pending, Point.current] at hnodup
    have hnd : (rest.map Prod.fst).Nodup := (List.nodup_append.mp hnodup).1
    rw [← List.length_map (f := Prod.fst), ← List.toFinset_card_of_nodup hnd]
    refine Finset.card_le_card fun w hw => hinv.inserted_subset ((hinv.visited w).mpr ?_)
    rw [hrest, Point.pending, Point.current]
    exact List.mem_append_right _ (List.mem_append_left _ (List.mem_toFinset.mp hw))
  have hle : stepsLeft r.d.items s₀.flight s₀ ≤ n := by
    refine le_trans ?_ hn
    rw [stepsLeft, hflight, hrest, hexp]
    show r.d.items.card * (2 * r.d.items.card + 5) + (rest.length + 3) + 0 ≤ _
    have hcard := card_items_le (r := r)
    have hmul : r.d.items.card * (2 * r.d.items.card + 5)
        ≤ r.d.b.baseNum * (2 * r.d.b.baseNum + 5) := Nat.mul_le_mul hcard (by omega)
    rw [bound]
    omega
  rw [search_eq hs₀] at h
  have hexit := whileLoopM_exits
    (I := fun s => Inv r.ix r.d.items r.call r.scratch.L s s.flight)
    (fun s => stepsLeft r.d.items s.flight s) 
    (fun s hinv (hc : decide (s.point ≠ .finished) = true) => by
      obtain ⟨t, ht, hinv', -, -, hlt⟩ := step_spec hinv (of_decide_eq_true hc)
      exact ⟨t, ht, hinv', hlt⟩) (by rw [hflight]; exact hinv) hle h
  simpa using hexit

end DistributedRun

/-- A property of what a search reaches, by evaluation. -/
lemma exists_of_check {ε σ : Type} {x : Except ε σ} {p : σ → Prop} [DecidablePred p]
    (h : (match x with | .ok s => decide (p s) | .error _ => false) = true) :
    ∃ s, x = .ok s ∧ p s := by
  cases x with
  | error stop => exact absurd h (by simp)
  | ok s => exact ⟨s, rfl, of_decide_eq_true h⟩

/-- The two points on two servers, run by the first one, for examples. -/
def twoServers : Deployment where
  b := twoPoints
  bucketCount := 2
  baseInBucket := [0, 1]
  elementSize_lt := by decide
  assigns := ⟨by decide, by decide⟩
  malloc _ := fun _ => 0
  mem _ := fun _ => 0
  sid := 0
  rdmaCache := ⟨fun _ => 0, fun _ => none⟩
  copies := by simp
  learnProjectionInBase := []
  projection_lt := by simp
  schedule _ := [1]

/-- A thread that has not run a search yet, for examples. -/
def idleThread : IdleThread :=
  ⟨⟨0, fun _ => none, [], ⟨fun _ => CompletionQueue.idle, fun _ => 0, 0⟩⟩, rfl, fun _ => rfl⟩

/-- A search of the two points on two servers, for examples. -/
def twoServersRun (c : SearchCall ℚ) : DistributedRun ℚ where
  d := twoServers
  thread := idleThread
  call := c
  scratch := .reserve 2 Nat.two_pos
  stats := none

/-- A call with neither relaxation nor adaptive entry points nor PQ data, for examples. -/
def twoServersCall : SearchCall ℚ where
  distance := distanceL2 fun w => (w.toNat : ℚ)
  query := [5]
  learnIndexRes := 0
  adaptiveEpNum := 0
  relax := 0
  relax_lt := by decide
  passes := (⟨false, fun _ => 0⟩ : Pq ℚ).passes

lemma exists_start_twoServers : ∃ s, (twoServersRun twoServersCall).start = .ok s :=
  exists_start DistributedRun.serves rfl (fun _ => rfl) _ _ rfl le_rfl

end RedAnns
