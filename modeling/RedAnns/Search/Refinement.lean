import RedAnns.Search.Pruning
import RedAnns.Search.Relaxation
import RedAnns.Search.Safety

/-!
The distributed search without relaxation, against the search over the buckets.

Both follow the same best-first search on sets: a step of the distributed search that expands a
node is a step of it, all other steps are none (`DistributedRun.follows`). Which records are
local, cached or read, and in which order the vertices of an expansion are scored, is not seen
there. `searchBaseIndexDistributed_refines` draws the conclusion for the two pools and for the
labels.
-/

namespace RedAnns

open GStore Distributed

section

variable {δ : Type} [LinearOrder δ] [Inhabited δ]

/-- The abstract search of a run: the step of the best-first search over the records of the
cluster. -/
def DistributedRun.beamStep (r : DistributedRun δ) : Beam (δ ×ₗ Item) → Beam (δ ×ₗ Item) :=
  Beam.step r.scratch.L (r.ix.store.nbr r.call.distance r.call.query)

/-- What a state of the distributed search stands for. -/
structure Follows (r : DistributedRun δ) (s : DistState δ) (t : Beam (δ ×ₗ Item)) : Prop where
  seen : t.seen = s.insertedIntoPoolRs.image (r.ix.store.key r.call.distance r.call.query)
  expanded : t.expanded = keys r.ix r.call s.expanded

variable {r : DistributedRun δ} {n : ℕ} {s : DistState δ} {t : Beam (δ ×ₗ Item)}

/-- Where nothing is left to be scored, the pool is that of the abstract search. -/
lemma Follows.seen_eq (h : Follows r s t) {batches : List Batch}
    (hinv : Inv r.ix r.d.items r.call r.scratch.L s batches) (hpruned : s.pruned = [])
    (hpend : s.point.pending r.ix.gstore.sid batches = []) :
    t.seen = keys r.ix r.call s.evaluated := by
  have hset : s.insertedIntoPoolRs = s.evaluated.toFinset := by
    ext w
    rw [hinv.visited w, hpruned, hpend, List.append_nil, List.append_nil, List.mem_toFinset]
  rw [h.seen, hset]
  rfl

/-- **An expansion is a step of the abstract search.** -/
lemma Follows.issued (h : Follows r s t) {batches : List Batch}
    (hinv : Inv r.ix r.d.items r.call r.scratch.L s batches) (hpruned : s.pruned = [])
    (hrelax : r.call.relax = 0) (hp : s.point = .head)
    (hc : s.bestLNodes.hasUnexpandedNode = true) (ptrs : List Ptr) (ctx : ThdCtx) :
    Follows r (issued r.ix r.call s ptrs ctx) (r.beamStep t) := by
  have hcount := hinv.countdown
  rw [hp, hrelax] at hcount
  have hlen : batches.length + s.relax = 0 := hcount
  obtain rfl : batches = [] := List.length_eq_zero_iff.mp (by omega)
  have hseen := h.seen_eq hinv hpruned (by rw [hp]; rfl)
  obtain ⟨-, -, hfind, -⟩ := hinv.pool.expand hc
  have hfront : t.frontier r.scratch.L
      = some (r.ix.store.key r.call.distance r.call.query (nextNode s)) := by
    rw [Beam.frontier, hseen, h.expanded]
    exact hfind
  obtain ⟨-, hall⟩ := traversed_traversal r.ix r.call s
  rw [DistributedRun.beamStep, Beam.step_of_some hfront]
  refine ⟨?_, ?_⟩
  · have hset : (traversal r.ix r.call s).inserted = s.insertedIntoPoolRs
        ∪ (r.ix.store.neighbors (r.ix.store.getVertex (nextNode s))).toFinset := by
      ext w
      rw [hall w, Finset.mem_union, List.mem_toFinset]
      rfl
    show t.seen ∪ _ = (traversal r.ix r.call s).inserted.image _
    rw [hset, Finset.image_union, h.seen]
    rfl
  · show insert _ t.expanded = keys r.ix r.call (s.expanded ++ [nextNode s])
    rw [keys_append_singleton, h.expanded]

/-- **Every reached state follows the abstract search**, when the test passes and there is
neither relaxation nor an adaptive entry point. -/
lemma DistributedRun.follows (hrelax : r.call.relax = 0) (hnum : r.call.adaptiveEpNum = 0)
    (htest : r.TestPasses) (h : r.search n = .ok s) :
    ∃ m, Follows r s (r.beamStep^[m] (Beam.start
      {r.ix.store.key r.call.distance r.call.query r.ix.membktEP})) := by
  refine moves_induction (P := fun s => ∃ m, Follows r s (r.beamStep^[m] (Beam.start
    {r.ix.store.key r.call.distance r.call.query r.ix.membktEP}))) (fun s hs => ?_)
    (fun n s s' hn hinv _ hm hs => ?_) h
  · obtain ⟨-, -, -, hexp, -, -, ids, hids, hins⟩ :=
      inv_start serves r.thread.polls_nil r.thread.qps_idle hs
    rw [initIds, if_neg (by omega)] at hids
    refine ⟨0, ?_, ?_⟩
    · rw [hins, ← Except.ok.inj hids]
      rfl
    · rw [hexp]
      rfl
  · obtain ⟨m, hfollows⟩ := hs
    have htick : Follows r (tick r.ix s) _ := ⟨hfollows.seen, hfollows.expanded⟩
    rcases hm.expands_or_quiet with ⟨hp, hc, ptrs, ctx, -, rfl, -⟩ | hq
    · refine ⟨m + 1, ?_⟩
      rw [Function.iterate_succ_apply']
      have hpruned : s.pruned = [] := pruned_eq_nil htest hn
      exact htick.issued hinv hpruned hrelax hp hc ptrs ctx
    · exact ⟨m, hq.inserted ▸ hfollows.seen, hq.expanded ▸ hfollows.expanded⟩

/-! ### The two searches -/

omit [LinearOrder δ] [Inhabited δ] in
/-- On the items of the cluster both searches order the vertices alike. -/
lemma Deployment.key_eq (d : Deployment) (distance : Distance δ) (query : List UInt32) {w : Item}
    (hw : w ∈ d.items) :
    (bucketStore d.index).key distance query w = d.serverIndex.store.key distance query w := by
  rw [RecordStore.key, RecordStore.key, Deployment.dist_store distance query hw]

/-- The items of the cluster are closed under out-neighbours. -/
lemma Deployment.neighbors_mem (d : Deployment) : ∀ v ∈ d.items,
    ∀ w ∈ d.serverIndex.store.neighbors (d.serverIndex.store.getVertex v), w ∈ d.items := by
  intro v hv w hw
  obtain ⟨e, he, rfl⟩ := List.mem_map.mp hw
  exact Deployment.serves.neighbor_mem v hv e he

omit [Inhabited δ] in
/-- **The abstract search over the buckets is that over the cluster.** -/
lemma DistributedRun.iterate_beamStep (r : DistributedRun δ) (m : ℕ) :
    (Beam.step r.scratch.L ((bucketStore r.d.index).nbr r.call.distance r.call.query))^[m]
        (Beam.start {(bucketStore r.d.index).key r.call.distance r.call.query
          r.d.index.membktEP})
      = r.beamStep^[m] (Beam.start
          {r.ix.store.key r.call.distance r.call.query r.ix.membktEP}) := by
  have hep : r.d.index.membktEP ∈ r.d.items := Deployment.serves.entry_mem
  rw [r.d.key_eq _ _ hep]
  refine Beam.iterate_congr (fun k hk => ?_) (RecordStore.nbr_subset r.d.neighbors_mem)
    (Finset.singleton_subset_iff.mpr (Finset.mem_image_of_mem _ hep)) m
  obtain ⟨v, hv, rfl⟩ := Finset.mem_image.mp hk
  rw [RecordStore.nbr, RecordStore.nbr, RecordStore.id_key, ← Deployment.neighbors_store hv]
  refine Finset.image_congr fun w hw => r.d.key_eq _ _ ?_
  exact r.d.neighbors_mem v hv w (List.mem_toFinset.mp hw)

/-- **The distributed search refines the search over the buckets.** Without relaxation and
adaptive entry points, and with a test that passes for every remote neighbour, both searches
end, with the same pool, and they write the same labels as far as the pool reaches. -/
theorem searchBaseIndexDistributed_refines (hrelax : r.call.relax = 0)
    (hnum : r.call.adaptiveEpNum = 0) (htest : r.TestPasses)
    (scratch' : InMemQueryScratch Item δ) (hL : scratch'.L = r.scratch.L) {fuel : ℕ}
    (hn : r.bound ≤ n) (hfuel : r.d.b.baseNum ≤ fuel) :
    ∃ s, r.search n = .ok s ∧ s.point = .finished ∧
      (greedySearch (bucketStore r.d.index) r.call.distance r.call.query r.d.index.membktEP
        scratch' fuel).bestLNodes.hasUnexpandedNode = false ∧
      s.bestLNodes.live = (greedySearch (bucketStore r.d.index) r.call.distance r.call.query
        r.d.index.membktEP scratch' fuel).bestLNodes.live ∧
      ∀ K, (writeLabels r.ix s K).1.take (min K s.bestLNodes.size)
        = (searchBaseIndexOnBuckets r.d.index r.call.distance r.call.query K scratch' fuel).take
            (min K s.bestLNodes.size) := by
  -- the distributed search starts, ends, and its pool is expanded
  have hids : initIds r.ix r.call = .ok [r.ix.membktEP] := by rw [initIds, if_neg (by omega)]
  obtain ⟨s₀, h₀⟩ := exists_start DistributedRun.serves r.thread.polls_nil r.thread.qps_idle
    r.scratch r.stats hids (by rw [hrelax]; rfl)
  obtain ⟨s, hs⟩ := DistributedRun.search_total h₀ n
  have hp := DistributedRun.point_eq_finished hn hs
  have hinv := DistributedRun.inv_of_search hs
  have hexpanded := (poolExpanded_of_relax_eq_zero hrelax hs hp).expanded
  -- what it stands for is halted
  obtain ⟨m, hfollows⟩ := DistributedRun.follows hrelax hnum htest hs
  set t := r.beamStep^[m] (Beam.start
    {r.ix.store.key r.call.distance r.call.query r.ix.membktEP}) with ht
  have hflight := DistributedRun.flight_of_finished hs hp
  have hseen := hfollows.seen_eq hinv (DistributedRun.pruned_eq_nil htest hs)
    (by rw [hp, hflight]; rfl)
  have hcap := hinv.pool.capacity
  have hhalted : t.frontier r.scratch.L = none := by
    rw [Beam.frontier_eq_none, hseen, hfollows.expanded, ← hcap]
    exact hinv.pool.holds.expanded_iff.mp hexpanded
  -- the search over the buckets is halted where it is
  set u := greedySearch (bucketStore r.d.index) r.call.distance r.call.query r.d.index.membktEP
    scratch' fuel with hu
  have hsim := simulates_greedySearch (bucketStore r.d.index) r.call.distance r.call.query
    r.d.index.membktEP scratch' fuel
  rw [← hu, hL, r.iterate_beamStep fuel] at hsim
  have hend : u.bestLNodes.hasUnexpandedNode = false :=
    hasUnexpandedNode_greedySearch Deployment.serves.entry_mem r.d.neighborsOnBuckets_mem
      (r.d.card_items_le.trans hfuel)
  have heq : r.beamStep^[fuel] (Beam.start
      {r.ix.store.key r.call.distance r.call.query r.ix.membktEP}) = t :=
    Beam.iterate_eq_of_halted (hsim.hasUnexpandedNode_eq_false.mp hend) hhalted
  rw [heq] at hsim
  have hlive : s.bestLNodes.live = u.bestLNodes.live := by
    rw [hinv.pool.holds.live_eq, hsim.holds.live_eq, hcap, hsim.capacity, hseen,
      hfollows.expanded]
  refine ⟨s, hs, hp, hend, hlive, fun K => ?_⟩
  have hsize : s.bestLNodes.size = u.bestLNodes.size := by
    rw [← hinv.pool.holds.length_live, hlive, hsim.holds.length_live]
  rw [hinv.take_writeLabels DistributedRun.serves K, searchBaseIndexOnBuckets, ← hu,
    ← List.map_take, take_output _ _ (min_le_left _ _),
    hsim.output_eq (by rw [← hsize]; exact min_le_right _ _), List.map_map]
  have htake : smallest (min K s.bestLNodes.size) t.seen
      = (s.bestLNodes.live.take K).map Neighbor.key := by
    have hle := hinv.pool.holds.size_le
    have hlen : (smallest r.scratch.L t.seen).length = s.bestLNodes.size := by
      rw [hseen, ← hcap, ← hinv.pool.holds.keys, List.length_map, hinv.pool.holds.length_live]
    rw [← take_smallest (show min K s.bestLNodes.size ≤ r.scratch.L by omega), ← hlen,
      ← List.take_eq_take_min, hseen, List.map_take, hinv.pool.holds.keys, hcap]
  rw [htake, List.map_map]
  refine List.map_congr_left fun e he => ?_
  obtain ⟨hev, -⟩ := hinv.pool.exists_of_mem_live (List.mem_of_mem_take he)
  exact Deployment.label_store (hinv.inserted_subset (hinv.mem_inserted hev))

end

/-- The two points on two servers, without the test. -/
theorem searchBaseIndexDistributed_refines_twoServers :
    ∃ s, (twoServersRun twoServersCall.withoutTest).search
        (twoServersRun twoServersCall.withoutTest).bound = .ok s ∧
      s.bestLNodes.live = (greedySearch (bucketStore twoServers.index)
        twoServersCall.distance twoServersCall.query twoServers.index.membktEP
        (.reserve 2 (by decide)) 2).bestLNodes.live := by
  have htest : (twoServersRun twoServersCall.withoutTest).TestPasses := fun _ _ _ _ _ _ _ => rfl
  obtain ⟨s, hs, -, -, hlive, -⟩ := searchBaseIndexDistributed_refines
    (r := twoServersRun twoServersCall.withoutTest) rfl rfl htest (.reserve 2 (by decide)) rfl
    (le_refl (twoServersRun twoServersCall.withoutTest).bound)
    (show twoPoints.baseNum ≤ 2 by decide)
  exact ⟨s, hs, hlive⟩

end RedAnns
