import RedAnns.Search.Refinement

/-!
What a distributed search counts and answers.

* `QueryStats.counting`: the record after some calls of `update_stats`; `stats_of_search`: at every
  loop head the record counts the expanded nodes, and the vertices that were scored or are still to
  be scored, with any relaxation and pruning.
* `Cluster.beam`: the best-first search over the buckets, from several entry points.
* `DistributedRun.follows_beam`: without relaxation a search follows it, whichever server runs it.
* `answer_eq`: so the labels, and all counters but the local and remote ones, depend on the query
  only.
-/

namespace RedAnns

open GStore Distributed

/-! ### The counters -/

/-- The record after `hops` calls of `update_stats` for the items of a list. -/
def QueryStats.counting (stats : QueryStats) (sid : ServerId) (hops : ℕ) (items : List Item) :
    QueryStats where
  nHops := stats.nHops + UInt32.ofNat hops
  nCmps := stats.nCmps + UInt32.ofNat items.length
  nCmpsLocal := stats.nCmpsLocal + UInt32.ofNat (items.filter (·.first = sid)).length
  nCmpsRemote := stats.nCmpsRemote + UInt32.ofNat (items.filter (·.first ≠ sid)).length

section Counting

variable (stats : QueryStats) (sid : ServerId) {hops : ℕ} {items items' : List Item}

lemma QueryStats.update_counting : (stats.counting sid hops items).update sid items'
    = stats.counting sid (hops + 1) (items ++ items') := by
  simp [QueryStats.update, QueryStats.counting, UInt32.add_assoc]

lemma QueryStats.counting_perm (h : items.Perm items') :
    stats.counting sid hops items = stats.counting sid hops items' := by
  simp only [QueryStats.counting, h.length_eq, (h.filter _).length_eq]

end Counting

section Stats

variable {δ : Type} [LinearOrder δ] [Inhabited δ]

namespace Distributed

variable {ix : ServerIndex} {c : SearchCall δ} {s s' : DistState δ} {batches batches' : List Batch}

/-- Only an expansion updates the record. -/
lemma Moves.stats_eq (hm : Moves ix c s batches s' batches') (h : s'.expanded = s.expanded) :
    s'.stats = s.stats := by
  cases hm with
  | expanded hp hc hlen => exact absurd (congrArg List.length h) (by simp [issued])
  | _ => rfl

omit [LinearOrder δ] in
/-- The vertices that are scored or still to be scored, after an expansion. -/
lemma perm_issued {ptrs : List Ptr} (ctx : ThdCtx) (batches : List Batch) (hp : s.point = .head)
    (hlen : ptrs.length = (traversal ix c s).itemScratch.length) :
    ((issued ix c s ptrs ctx).evaluated ++ (issued ix c s ptrs ctx).point.pending ix.gstore.sid
        (batches ++ [(traversal ix c s).itemScratch.zip ptrs])).Perm
      (s.evaluated ++ s.point.pending ix.gstore.sid batches ++ (traversal ix c s).itemScratch) := by
  set b : Batch := (traversal ix c s).itemScratch.zip ptrs with hb
  have hsplit := locals_append_remotes ix.gstore.sid b
  rw [show b.map Prod.fst = _ from List.map_fst_zip hlen.ge] at hsplit
  have hnew : (issued ix c s ptrs ctx).point.pending ix.gstore.sid (batches ++ [b])
      = locals ix.gstore.sid b
        ++ (batches.flatMap (remotes ix.gstore.sid) ++ remotes ix.gstore.sid b) := by
    show locals ix.gstore.sid b ++ (batches ++ [b]).flatMap (remotes ix.gstore.sid) = _
    rw [List.flatMap_append, List.flatMap_singleton]
  have hold : s.point.pending ix.gstore.sid batches
      = batches.flatMap (remotes ix.gstore.sid) := by
    rw [hp]
    rfl
  rw [hnew, hold, List.perm_iff_count]
  intro w
  have hcount := hsplit.count_eq w
  show (s.evaluated ++ _).count w = _
  simp only [List.count_append] at hcount ⊢
  omega

end Distributed

namespace DistributedRun

variable {r : DistributedRun δ} {n : ℕ} {s : DistState δ}

/-- The vertices that are scored or still to be scored. -/
def kept (r : DistributedRun δ) (s : DistState δ) : List Item :=
  s.evaluated ++ s.point.pending r.ix.gstore.sid s.flight

/-- The record before the loop over the entry points. -/
lemma stats_start (h : r.start = .ok s) :
    s.stats = r.stats.map fun stats => stats.counting r.ix.gstore.sid 1 (r.kept s) := by
  obtain ⟨hinv, hpushed, heval, -, hpruned, -, ids, hids, hins⟩ :=
    inv_start serves r.thread.polls_nil r.thread.qps_idle h
  obtain ⟨hset, hnodup, hfresh⟩ := visitAll_spec ∅ ids
  rw [Finset.sdiff_empty] at hfresh
  -- the marked entry points are the ones still to be scored
  have hflight : s.flight = [] := flight_eq hinv.log
  have hperm : (visitAll ∅ ids).2.Perm (r.kept s) := by
    have hvisited := hinv.visited
    have hpending := hinv.nodup
    rw [hpruned, List.append_nil, ← hflight] at hpending hvisited
    refine (List.perm_ext_iff_of_nodup hnodup hpending).mpr fun w => ?_
    rw [← hvisited w, hins, ← hfresh, List.mem_toFinset]
  have hstats : s.stats = r.stats.map fun stats =>
      stats.update r.ix.gstore.sid (visitAll ∅ ids).2 := by
    rw [start, Distributed.start, hids] at h
    simp only [bind, Except.bind] at h
    split_ifs at h with hlen
    cases hread : r.ix.gstore.getVertexBatch (resetThdCtx r.thread.ctx) (visitAll ∅ ids).2
        false with
    | error stop =>
        rw [hread] at h
        cases h
    | ok x =>
        rw [hread] at h
        exact congrArg DistState.stats (Except.ok.inj h).symm
  rw [hstats]
  refine congrArg (Option.map · r.stats) (funext fun stats => ?_)
  have hzero : stats = stats.counting r.ix.gstore.sid 0 [] := by simp [QueryStats.counting]
  conv_lhs => rw [hzero]
  rw [QueryStats.update_counting]
  exact stats.counting_perm _ hperm

/-- **The counters count**, at every loop head: the expanded nodes and the entry points as hops, and
the vertices that are scored or still to be scored as comparisons. -/
theorem stats_of_search (h : r.search n = .ok s) : s.stats = r.stats.map fun stats =>
    stats.counting r.ix.gstore.sid (s.expanded.length + 1) (r.kept s) := by
  refine moves_induction (P := fun s => s.stats = r.stats.map fun stats =>
    stats.counting r.ix.gstore.sid (s.expanded.length + 1) (r.kept s)) (fun s hs => ?_)
    (fun n s s' hn hinv hinv' hm ih => ?_) h
  · obtain ⟨-, -, -, hexp, -⟩ := inv_start serves r.thread.polls_nil r.thread.qps_idle hs
    rw [stats_start hs, hexp]
    rfl
  · rcases hm.expands_or_quiet with ⟨hp, hc, ptrs, ctx, hlen, rfl, hbatches⟩ | hq
    · have hperm := perm_issued ctx s.flight hp hlen
      rw [← hbatches] at hperm
      show s.stats.map _ = _
      rw [ih, Option.map_map]
      refine congrArg (Option.map · r.stats) (funext fun stats => ?_)
      show ((stats.counting r.ix.gstore.sid (s.expanded.length + 1) (r.kept s)).update _ _) = _
      have hexp : (issued r.ix r.call (tick r.ix s) ptrs ctx).expanded.length
          = s.expanded.length + 1 := by simp [issued, tick]
      rw [QueryStats.update_counting, hexp]
      exact (stats.counting_perm _ hperm).symm
    · rw [hm.stats_eq hq.expanded, hq.expanded]
      refine ih.trans (congrArg (Option.map · r.stats) (funext fun stats => ?_))
      exact (stats.counting_perm _ hq.perm).symm

end DistributedRun

end Stats

/-! ### One answer on all servers -/

namespace Cluster

variable {δ : Type} [LinearOrder δ] (cl : Cluster) (distance : Distance δ) (query : List UInt32)
  (L : ℕ) (ids : List Item)

/-- The end of the best-first search over the buckets, from some entry points. -/
def beam : Beam (δ ×ₗ Item) :=
  (Beam.step L ((bucketStore cl.index).nbr distance query))^[cl.b.baseNum]
    (Beam.start (ids.toFinset.image ((bucketStore cl.index).key distance query)))

/-- The labels of the `K` nearest vertices that it has seen. -/
def answer (K : ℕ) : List VertexId :=
  ((smallest L (cl.beam distance query L ids).seen).take K).map fun k =>
    (bucketStore cl.index).label ((bucketStore cl.index).getVertex (ofLex k).2)

/-- What it adds to the record of a query on a server: a hop for the entry points and every expanded
vertex, and a comparison for every seen one. -/
def count (sid : ServerId) (stats : QueryStats) : QueryStats where
  nHops := stats.nHops + UInt32.ofNat ((cl.beam distance query L ids).expanded.card + 1)
  nCmps := stats.nCmps + UInt32.ofNat (cl.beam distance query L ids).seen.card
  nCmpsLocal := stats.nCmpsLocal + UInt32.ofNat
    ((cl.beam distance query L ids).seen.filter fun k => (ofLex k).2.first = sid).card
  nCmpsRemote := stats.nCmpsRemote + UInt32.ofNat
    ((cl.beam distance query L ids).seen.filter fun k => (ofLex k).2.first ≠ sid).card

variable {cl distance query L ids}

/-- The search over the buckets has ended. -/
lemma frontier_beam (hids : ∀ t ∈ ids, t ∈ cl.items)
    (hcl : ∀ v ∈ cl.items,
      ∀ w ∈ (bucketStore cl.index).neighbors ((bucketStore cl.index).getVertex v), w ∈ cl.items)
    (hcard : cl.items.card ≤ cl.b.baseNum) :
    (cl.beam distance query L ids).frontier L = none := by
  refine Beam.frontier_iterate_eq_none
    (R := cl.items.image ((bucketStore cl.index).key distance query))
    (fun k hk => hk.mem_of_closed ?_ (RecordStore.nbr_subset hcl))
    (Finset.card_image_le.trans hcard)
  exact Finset.image_subset_image fun t ht => hids t (List.mem_toFinset.mp ht)

end Cluster

section Keys

variable {δ : Type} [LinearOrder δ] {ix : ServerIndex} {c : SearchCall δ} {l ids : List Item}

lemma card_keys (h : l.Nodup) : (keys ix c l).card = l.length := by
  rw [keys, Finset.card_image_of_injective _ RecordStore.key_injective,
    List.toFinset_card_of_nodup h]

lemma card_filter_keys (h : l.Nodup) (p : Item → Prop) [DecidablePred p] :
    ((keys ix c l).filter fun k => p (ofLex k).2).card = (l.filter (p ·)).length := by
  have himage : (keys ix c l).filter (fun k => p (ofLex k).2) = keys ix c (l.filter (p ·)) := by
    rw [keys, keys, Finset.filter_image]
    refine congrArg (Finset.image _) ?_
    ext t
    rw [Finset.mem_filter, List.mem_toFinset, List.mem_toFinset, List.mem_filter,
      RecordStore.id_key, decide_eq_true_iff]
  rw [himage, card_keys (h.filter _)]

omit [LinearOrder δ] in
/-- There is always an entry point. -/
lemma length_pos_of_initIds (h : initIds ix c = .ok ids) : 0 < ids.length := by
  rw [initIds] at h
  split_ifs at h with hnum
  · cases hadd : addAdaptiveEp ix.baseInBucket ix.baseToLid ix.learnProjectionInBase
        c.learnIndexRes c.adaptiveEpNum [ix.membktEP] with
    | error e =>
        rw [hadd] at h
        exact absurd h (by simp [Except.mapError])
    | ok items =>
        rw [hadd] at h
        have hids : items = ids := Except.ok.inj h
        rw [← hids, addAdaptiveEp_eq hadd]
        simp
  · rw [← Except.ok.inj h]
    exact Nat.one_pos

end Keys

namespace DistributedRun

variable {δ : Type} [LinearOrder δ] [Inhabited δ] {r : DistributedRun δ} {n : ℕ} {s : DistState δ}
  {ids : List Item}

/-- **Every reached state follows the abstract search** from the entry points, when the test passes
and there is no relaxation. -/
lemma follows_beam (hrelax : r.call.relax = 0) (htest : r.TestPasses)
    (hids : initIds r.ix r.call = .ok ids) (h : r.search n = .ok s) :
    ∃ m, Follows r s (r.beamStep^[m] (Beam.start
      (ids.toFinset.image (r.ix.store.key r.call.distance r.call.query)))) := by
  refine moves_induction (P := fun s => ∃ m, Follows r s (r.beamStep^[m] (Beam.start
    (ids.toFinset.image (r.ix.store.key r.call.distance r.call.query))))) (fun s hs => ?_)
    (fun n s s' hn hinv _ hm hs => ?_) h
  · obtain ⟨-, -, -, hexp, -, -, ids', hids', hins⟩ :=
      inv_start serves r.thread.polls_nil r.thread.qps_idle hs
    obtain rfl := Except.ok.inj (hids.symm.trans hids')
    refine ⟨0, ?_, ?_⟩
    · rw [hins]
      rfl
    · rw [hexp]
      rfl
  · obtain ⟨m, hfollows⟩ := hs
    have htick : Follows r (tick r.ix s) _ := ⟨hfollows.seen, hfollows.expanded⟩
    rcases hm.expands_or_quiet with ⟨hp, hc, ptrs, ctx, -, rfl, -⟩ | hq
    · refine ⟨m + 1, ?_⟩
      rw [Function.iterate_succ_apply']
      have hpruned : s.pruned = [] := pruned_eq_nil htest hn
      exact htick.issued hinv hpruned hrelax hp hc ptrs ctx
    · exact ⟨m, hq.inserted ▸ hfollows.seen, hq.expanded ▸ hfollows.expanded⟩

omit [Inhabited δ] in
/-- The abstract search over the cluster is that over the buckets. -/
lemma iterate_beamStep_image (r : DistributedRun δ) (hids : ∀ t ∈ ids, t ∈ r.d.items) (m : ℕ) :
    r.beamStep^[m] (Beam.start (ids.toFinset.image (r.ix.store.key r.call.distance r.call.query)))
      = (Beam.step r.scratch.L ((bucketStore r.d.index).nbr r.call.distance r.call.query))^[m]
          (Beam.start (ids.toFinset.image
            ((bucketStore r.d.index).key r.call.distance r.call.query))) := by
  have himage : ids.toFinset.image ((bucketStore r.d.index).key r.call.distance r.call.query)
      = ids.toFinset.image (r.ix.store.key r.call.distance r.call.query) :=
    Finset.image_congr fun t ht => r.d.key_eq _ _ (hids t (List.mem_toFinset.mp ht))
  rw [himage]
  refine (Beam.iterate_congr (fun k hk => ?_) (RecordStore.nbr_subset r.d.neighbors_mem)
    (Finset.image_subset_image fun t ht => hids t (List.mem_toFinset.mp ht)) m).symm
  obtain ⟨v, hv, rfl⟩ := Finset.mem_image.mp hk
  rw [RecordStore.nbr, RecordStore.nbr, RecordStore.id_key, ← Deployment.neighbors_store hv]
  refine Finset.image_congr fun w hw => r.d.key_eq _ _ ?_
  exact r.d.neighbors_mem v hv w (List.mem_toFinset.mp hw)

/-- At the end nothing is still to be scored. -/
lemma pending_of_finished (h : r.search n = .ok s) (hp : s.point = .finished) :
    s.point.pending r.ix.gstore.sid s.flight = [] := by
  rw [hp, flight_of_finished h hp]
  rfl

lemma kept_of_finished (h : r.search n = .ok s) (hp : s.point = .finished) :
    r.kept s = s.evaluated := by
  rw [kept, pending_of_finished h hp, List.append_nil]

/-- **Without relaxation a search follows the search over the buckets**, to its end. -/
lemma follows_of_finished (hrelax : r.call.relax = 0) (htest : r.TestPasses)
    (hids : initIds r.ix r.call = .ok ids) (h : r.search n = .ok s) (hp : s.point = .finished) :
    Follows r s (r.d.beam r.call.distance r.call.query r.scratch.L ids) := by
  have hmem : ∀ t ∈ ids, t ∈ r.d.items := mem_of_initIds serves hids
  obtain ⟨m, hfollows⟩ := follows_beam hrelax htest hids h
  have hinv := inv_of_search h
  have hseen := hfollows.seen_eq hinv (pruned_eq_nil htest h) (pending_of_finished h hp)
  -- both are halted
  have hhalted : (r.beamStep^[m] (Beam.start (ids.toFinset.image
      (r.ix.store.key r.call.distance r.call.query)))).frontier r.scratch.L = none := by
    rw [Beam.frontier_eq_none, hseen, hfollows.expanded, ← hinv.pool.capacity]
    exact hinv.pool.holds.expanded_iff.mp (poolExpanded_of_relax_eq_zero hrelax h hp).expanded
  have hend : (r.d.beam r.call.distance r.call.query r.scratch.L ids).frontier r.scratch.L = none :=
    Cluster.frontier_beam hmem r.d.neighborsOnBuckets_mem r.d.card_items_le
  rw [iterate_beamStep_image r hmem] at hfollows hhalted
  have heq := Beam.iterate_eq_of_halted hhalted hend
  rwa [heq] at hfollows

/-- What the search over the buckets has seen and expanded, from the vertices of a search. -/
lemma beam_of_finished (hrelax : r.call.relax = 0) (htest : r.TestPasses)
    (hids : initIds r.ix r.call = .ok ids) (h : r.search n = .ok s) (hp : s.point = .finished) :
    (r.d.beam r.call.distance r.call.query r.scratch.L ids).seen = keys r.ix r.call s.evaluated ∧
      (r.d.beam r.call.distance r.call.query r.scratch.L ids).expanded
        = keys r.ix r.call s.expanded := by
  have hfollows := follows_of_finished hrelax htest hids h hp
  exact ⟨hfollows.seen_eq (inv_of_search h) (pruned_eq_nil htest h) (pending_of_finished h hp),
    hfollows.expanded⟩

lemma nodup_evaluated (h : r.search n = .ok s) : s.evaluated.Nodup :=
  (List.nodup_append.mp (List.nodup_append.mp (inv_of_search h).nodup).1).1

/-- **The answer of a search without relaxation** depends on the cluster, the query and the entry
points, whichever server runs it, with whatever cache, thread, history and hardware; and so does
what it counts, up to which comparisons are local. -/
theorem answer_eq (hrelax : r.call.relax = 0) (htest : r.TestPasses)
    (hids : initIds r.ix r.call = .ok ids) (hn : r.bound ≤ n) :
    ∃ s, r.search n = .ok s ∧ s.point = .finished ∧
      s.bestLNodes.size = min r.scratch.L
        (r.d.beam r.call.distance r.call.query r.scratch.L ids).seen.card ∧
      (∀ K ≤ s.bestLNodes.size, writeLabels r.ix s K
        = (r.d.answer r.call.distance r.call.query r.scratch.L ids K, none)) ∧
      s.stats = r.stats.map
        (r.d.count r.call.distance r.call.query r.scratch.L ids r.d.sid) := by
  obtain ⟨s₀, h₀⟩ := exists_start serves r.thread.polls_nil r.thread.qps_idle r.scratch r.stats hids
    (by rw [hrelax]; exact length_pos_of_initIds hids)
  obtain ⟨s, hs⟩ := search_total h₀ n
  have hp := point_eq_finished hn hs
  have hinv := inv_of_search hs
  obtain ⟨hseen, hexpanded⟩ := beam_of_finished hrelax htest hids hs hp
  have hholds := hinv.pool.holds
  rw [← hseen, ← hexpanded] at hholds
  refine ⟨s, hs, hp, by rw [hholds.size_eq, hinv.pool.capacity], fun K hK => ?_, ?_⟩
  · rw [hinv.writeLabels_eq serves hK, Cluster.answer]
    have hkeys := hholds.keys
    rw [hinv.pool.capacity] at hkeys
    rw [← hkeys, ← List.map_take, List.map_map]
    refine congrArg (·, none) (List.map_congr_left fun e he => ?_)
    obtain ⟨hev, -⟩ := hinv.pool.exists_of_mem_live (List.mem_of_mem_take he)
    exact Deployment.label_store (hinv.inserted_subset (hinv.mem_inserted hev))
  · rw [stats_of_search hs]
    have hnodup := nodup_evaluated hs
    rw [kept_of_finished hs hp]
    refine congrArg (Option.map · r.stats) (funext fun stats => ?_)
    rw [QueryStats.counting, Cluster.count, QueryStats.mk.injEq, hseen, hexpanded, card_keys hnodup,
      card_keys hinv.expanded_nodup, card_filter_keys hnodup (·.first = r.d.sid),
      card_filter_keys hnodup (·.first ≠ r.d.sid)]
    exact ⟨rfl, rfl, rfl, rfl⟩

/-- **The counters of a search**, with any relaxation and pruning: when it has ended, they count
every expanded node and every scored vertex once, and what was visited but not counted was
pruned. -/
theorem counters_of_finished {s₀ : DistState δ} (h₀ : r.start = .ok s₀) (hn : r.bound ≤ n) :
    ∃ s, r.search n = .ok s ∧ s.point = .finished ∧
      s.stats = r.stats.map (fun stats =>
        stats.counting r.d.sid (s.expanded.length + 1) s.evaluated) ∧
      s.expanded.Nodup ∧ (s.evaluated ++ s.pruned).Nodup ∧
      ∀ w, w ∈ s.insertedIntoPoolRs ↔ w ∈ s.evaluated ∨ w ∈ s.pruned := by
  obtain ⟨s, hs⟩ := search_total h₀ n
  have hp := point_eq_finished hn hs
  have hinv := inv_of_search hs
  have hvisited := hinv.visited
  have hnodup := hinv.nodup
  rw [pending_of_finished hs hp, List.append_nil] at hvisited hnodup
  refine ⟨s, hs, hp, ?_, hinv.expanded_nodup, hnodup, fun w => (hvisited w).trans List.mem_append⟩
  rw [stats_of_search hs, kept_of_finished hs hp]
  rfl

/-- The two points on two servers. -/
theorem counters_of_finished_twoServers :
    ∃ s, (twoServersRun twoServersCall).search (twoServersRun twoServersCall).bound = .ok s ∧
      (s.evaluated ++ s.pruned).Nodup := by
  obtain ⟨s₀, h₀⟩ := exists_start_twoServers
  obtain ⟨s, hs, -, -, -, hnodup, -⟩ := counters_of_finished h₀ le_rfl
  exact ⟨s, hs, hnodup⟩

/-- Two runs of one search, on any servers of a cluster, by any threads. -/
structure SameSearch (r r' : DistributedRun δ) : Prop where
  cluster : r.d.toCluster = r'.d.toCluster
  projection : r.d.learnProjectionInBase = r'.d.learnProjectionInBase
  call : r.call = r'.call
  width : r.scratch.L = r'.scratch.L

omit [LinearOrder δ] [Inhabited δ] in
lemma SameSearch.initIds_eq {r' : DistributedRun δ} (h : r.SameSearch r') :
    initIds r.ix r.call = initIds r'.ix r'.call := by
  have hep : r.ix.membktEP = r'.ix.membktEP := congrArg (fun cl => cl.index.membktEP) h.cluster
  have hbucket : r.ix.baseInBucket = r'.ix.baseInBucket :=
    congrArg (fun cl => cl.index.baseInBucket) h.cluster
  have hlid : r.ix.baseToLid = r'.ix.baseToLid := congrArg (fun cl => cl.index.baseToLid) h.cluster
  have hproj : r.ix.learnProjectionInBase = r'.ix.learnProjectionInBase := h.projection
  rw [initIds, initIds, hep, hbucket, hlid, hproj, h.call]

/-- **Every server of a cluster gives the same answer** to a search without relaxation, with the
same numbers of hops and comparisons. -/
theorem answer_on_servers {r' : DistributedRun δ} {n' : ℕ} (h : r.SameSearch r')
    (hrelax : r.call.relax = 0) (htest : r.TestPasses) (htest' : r'.TestPasses)
    (hids : initIds r.ix r.call = .ok ids) (hn : r.bound ≤ n) (hn' : r'.bound ≤ n') :
    ∃ s s', r.search n = .ok s ∧ r'.search n' = .ok s' ∧ s.point = .finished ∧
      s'.point = .finished ∧ s.bestLNodes.size = s'.bestLNodes.size ∧
      (∀ K ≤ s.bestLNodes.size, writeLabels r.ix s K = writeLabels r'.ix s' K) ∧
      s.expanded.length = s'.expanded.length ∧ s.evaluated.length = s'.evaluated.length := by
  have hids' : initIds r'.ix r'.call = .ok ids := h.initIds_eq ▸ hids
  obtain ⟨s, hs, hp, hsize, hlabels, -⟩ := answer_eq hrelax htest hids hn
  obtain ⟨s', hs', hp', hsize', hlabels', -⟩ := answer_eq (h.call ▸ hrelax) htest' hids' hn'
  obtain ⟨hseen, hexpanded⟩ := beam_of_finished hrelax htest hids hs hp
  obtain ⟨hseen', hexpanded'⟩ := beam_of_finished (h.call ▸ hrelax) htest' hids' hs' hp'
  rw [← h.cluster, ← h.call, ← h.width] at hsize' hlabels' hseen' hexpanded'
  refine ⟨s, s', hs, hs', hp, hp', hsize.trans hsize'.symm, fun K hK => ?_, ?_, ?_⟩
  · rw [hlabels K hK, hlabels' K (by rw [hsize', ← hsize]; exact hK)]
  · have hcard : (keys r.ix r.call s.expanded).card = s.expanded.length :=
      card_keys (inv_of_search hs).expanded_nodup
    rw [← hexpanded, hexpanded', card_keys (inv_of_search hs').expanded_nodup] at hcard
    exact hcard.symm
  · have hcard : (keys r.ix r.call s.evaluated).card = s.evaluated.length :=
      card_keys (nodup_evaluated hs)
    rw [← hseen, hseen', card_keys (nodup_evaluated hs')] at hcard
    exact hcard.symm

/-- The two points on two servers, searched by the first and by the second. -/
theorem answer_on_servers_twoServers :
    let r := twoServersRun twoServersCall.withoutTest
    let r' : DistributedRun ℚ := { r with d := { twoServers with sid := 1 } }
    ∃ s s', r.search r.bound = .ok s ∧ r'.search r'.bound = .ok s' ∧
      ∀ K ≤ s.bestLNodes.size, writeLabels r.ix s K = writeLabels r'.ix s' K := by
  intro r r'
  have hids : initIds r.ix r.call = .ok [r.ix.membktEP] := rfl
  have hsame : r.SameSearch r' := ⟨rfl, rfl, rfl, rfl⟩
  obtain ⟨s, s', hs, hs', -, -, -, hlabels, -⟩ := answer_on_servers hsame rfl
    (fun _ _ _ _ _ _ _ => rfl) (fun _ _ _ _ _ _ _ => rfl) hids le_rfl le_rfl
  exact ⟨s, s', hs, hs', hlabels⟩

end DistributedRun

end RedAnns
