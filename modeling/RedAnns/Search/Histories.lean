import Mathlib.Data.Set.Card
import RedAnns.Search.Buckets
import RedAnns.Search.Runs

/-!
What a thread's scratch object carries from one query to the next.

`clear` resets the counters of the pool and keeps its slots, and the output loops write `K`
slots whatever the pool holds, so the slots behind the pool are part of an answer.

* `RecordStore.reachable`, `size_greedySearch`: at its exit the pool is as full as the vertices
  reachable from the entry point can make it, whatever the query.
* `leave`, `EarlierQuery`, `Deployment.leave`: the scratch object after a query. Searches of one
  kind never write behind the pool they all end with (`slot_leave`), but
  `search_base_index_distributed` shares its scratch object with `search_base_index_on_buckets`
  and may start from more entry points.
* `sameAnswer_iff`: when two histories lead to the same answer.
-/

namespace RedAnns

open GStore Distributed

section Leave

variable {ι δ : Type*} [LinearOrder ι] [LinearOrder δ] [Inhabited ι] [Inhabited δ]

/-- The vertices reachable from the entry point. -/
def RecordStore.reachable {ι : Type*} (g : RecordStore ι) (ep : ι) : Set ι :=
  {v | Relation.ReflTransGen (fun a b => b ∈ g.neighbors (g.getVertex a)) ep v}

variable {g : RecordStore ι} {ep : ι} {fuel : ℕ} {R : Finset ι} (distance : Distance δ)
  (query : List UInt32) (scratch : InMemQueryScratch ι δ)

omit [LinearOrder ι] [Inhabited ι] in
lemma RecordStore.reachable_subset (hep : ep ∈ R)
    (hcl : ∀ v ∈ R, ∀ w ∈ g.neighbors (g.getVertex v), w ∈ R) : g.reachable ep ⊆ R := by
  intro v hv
  induction hv with
  | refl => exact hep
  | tail _ hbc ih => exact hcl _ ih _ hbc

/-- **At its exit the pool is as full as the reachable vertices can make it.** -/
theorem size_greedySearch (hep : ep ∈ R)
    (hcl : ∀ v ∈ R, ∀ w ∈ g.neighbors (g.getVertex v), w ∈ R) (hfuel : R.card ≤ fuel) :
    (greedySearch g distance query ep scratch fuel).bestLNodes.size
      = min scratch.L (g.reachable ep).ncard := by
  have h := simulates_greedySearch g distance query ep scratch fuel
  have hinv := Beam.inv_iterate scratch.L (g.nbr distance query) {g.key distance query ep} fuel
  have hexit : (greedySearch g distance query ep scratch fuel).bestLNodes.hasUnexpandedNode
      = false := hasUnexpandedNode_greedySearch hep hcl hfuel
  have hfin : (g.reachable ep).Finite :=
    R.finite_toSet.subset (RecordStore.reachable_subset hep hcl)
  have hreach : ∀ k, k ∈ hfin.toFinset.image (g.key distance query) ↔
      Beam.Reach (g.nbr distance query) {g.key distance query ep} k := fun k => by
    rw [reach_iff, Finset.mem_image]
    refine exists_congr fun v => ?_
    rw [Set.Finite.mem_toFinset, and_comm, eq_comm]
    rfl
  rw [h.holds.size_eq, h.capacity,
    Beam.min_card_seen_of_halted hreach hinv (h.hasUnexpandedNode_eq_false.mp hexit),
    Finset.card_image_of_injective _ RecordStore.key_injective, Set.ncard_eq_toFinset_card _ hfin]

/-- The scratch object as a search leaves it. -/
def leave (g : RecordStore ι) (distance : Distance δ) (ep : ι) (fuel : ℕ)
    (scratch : InMemQueryScratch ι δ) (query : List UInt32) : InMemQueryScratch ι δ where
  bestLNodes := (greedySearch g distance query ep scratch fuel).bestLNodes
  room := (simulates_greedySearch g distance query ep scratch fuel).holds.room
  pos := by
    rw [(simulates_greedySearch g distance query ep scratch fuel).capacity]
    exact scratch.pos

lemma L_leave : (leave g distance ep fuel scratch query).L = scratch.L :=
  (simulates_greedySearch g distance query ep scratch fuel).capacity

/-- **A search leaves every slot behind its pool as it was.** -/
theorem slot_leave (hep : ep ∈ R)
    (hcl : ∀ v ∈ R, ∀ w ∈ g.neighbors (g.getVertex v), w ∈ R) (hfuel : R.card ≤ fuel) {i : ℕ}
    (hi : min scratch.L (g.reachable ep).ncard ≤ i) (hL : i < scratch.L) :
    (leave g distance ep fuel scratch query).bestLNodes.slot i = scratch.bestLNodes.slot i := by
  have hgrows := grows_greedySearch g distance query ep scratch fuel
  exact hgrows.slot i (by rwa [size_greedySearch distance query scratch hep hcl hfuel]) hL

/-- **Searches of one kind leave every slot behind their pool fresh**, however many there are. -/
theorem slot_foldl_leave (hep : ep ∈ R)
    (hcl : ∀ v ∈ R, ∀ w ∈ g.neighbors (g.getVertex v), w ∈ R) (hfuel : R.card ≤ fuel) {i : ℕ}
    (earlier : List (List UInt32)) (hi : min scratch.L (g.reachable ep).ncard ≤ i)
    (hL : i < scratch.L) :
    (earlier.foldl (leave g distance ep fuel) scratch).bestLNodes.slot i
      = scratch.bestLNodes.slot i := by
  induction earlier generalizing scratch with
  | nil => rfl
  | cons query earlier ih =>
      have hcap : (leave g distance ep fuel scratch query).L = scratch.L :=
        L_leave distance query scratch
      rw [List.foldl_cons, ih _ (by rwa [hcap]) (by rwa [hcap])]
      exact slot_leave distance query scratch hep hcl hfuel hi hL

/-- **When two scratch objects lead to the same answer**: when the slots that are written out
from behind the pool agree. -/
lemma output_map_eq_iff {β : Type*} (f : VertexId × δ → β)
    {scratch scratch' : InMemQueryScratch ι δ} (hL : scratch'.L = scratch.L)
    (hep : ep ∈ R) (hcl : ∀ v ∈ R, ∀ w ∈ g.neighbors (g.getVertex v), w ∈ R)
    (hfuel : R.card ≤ fuel) {K : ℕ} (hK : K ≤ scratch.L) :
    (output g (greedySearch g distance query ep scratch fuel) K).map f
        = (output g (greedySearch g distance query ep scratch' fuel) K).map f ↔
      ∀ i < K, min scratch.L (g.reachable ep).ncard ≤ i →
        f (g.label (g.getVertex (scratch.bestLNodes.slot i).id),
            (scratch.bestLNodes.slot i).distance)
          = f (g.label (g.getVertex (scratch'.bestLNodes.slot i).id),
            (scratch'.bestLNodes.slot i).distance) := by
  have h := simulates_greedySearch g distance query ep scratch fuel
  have h' := simulates_greedySearch g distance query ep scratch' fuel
  have hsize := size_greedySearch distance query scratch hep hcl hfuel
  have hleave := fun i => slot_leave (i := i) distance query scratch hep hcl hfuel
  have hleave' := fun i => slot_leave (i := i) distance query scratch' hep hcl hfuel
  simp only [leave] at hleave hleave'
  rw [hL] at h' hleave'
  rw [output, output, List.map_map, List.map_map, List.map_inj_left]
  simp only [List.mem_range, Function.comp]
  refine forall₂_congr fun i hi => ?_
  rcases Nat.lt_or_ge i (min scratch.L (g.reachable ep).ncard) with hlt | hge
  · -- a live slot
    rw [h.holds.slot_eq h'.holds (h'.capacity.trans h.capacity.symm) (by rwa [hsize])]
    exact ⟨fun _ hge => absurd hge (not_le.mpr hlt), fun _ => rfl⟩
  · -- a slot behind the pool
    rw [hleave i hge (by omega), hleave' i hge (by omega)]
    exact ⟨fun heq _ => heq, fun heq => heq hge⟩

lemma L_foldl_leave (earlier : List (List UInt32)) :
    (earlier.foldl (leave g distance ep fuel) scratch).L = scratch.L := by
  induction earlier generalizing scratch with
  | nil => rfl
  | cons query earlier ih => exact (ih _).trans (L_leave distance query scratch)

end Leave

/-! ### Histories -/

section Histories

variable {δ : Type} [LinearOrder δ] [Inhabited δ]

/-- The scratch object as a distributed search leaves it; one that is refused has cleared it. -/
def DistributedRun.leave (r : DistributedRun δ) : InMemQueryScratch Item δ :=
  match h : r.search r.bound with
  | .ok s =>
      { bestLNodes := s.bestLNodes
        room := (DistributedRun.inv_of_search h).pool.holds.room
        pos := by
          rw [(DistributedRun.inv_of_search h).pool.capacity]
          exact r.scratch.pos }
  | .error _ => ⟨r.scratch.bestLNodes.clear, r.scratch.room, r.scratch.pos⟩

lemma DistributedRun.L_leave (r : DistributedRun δ) : r.leave.L = r.scratch.L := by
  rw [DistributedRun.leave]
  split
  · next s h => exact (DistributedRun.inv_of_search h).pool.capacity
  · rfl

/-- What a thread may have run on its scratch object: a search over the buckets, or one of the
distributed index. -/
inductive EarlierQuery (δ : Type)
  | onBuckets (query : List UInt32)
  | distributed (thread : IdleThread) (call : SearchCall δ) (stats : Option QueryStats)

/-- The scratch object of a thread after one more query; the metric is that of the index. -/
def Deployment.leave (d : Deployment) (distance : Distance δ)
    (scratch : InMemQueryScratch Item δ) : EarlierQuery δ → InMemQueryScratch Item δ
  | .onBuckets query =>
      RedAnns.leave (bucketStore d.index) distance d.index.membktEP d.b.baseNum scratch query
  | .distributed thread call stats =>
      DistributedRun.leave ⟨d, thread, { call with distance := distance }, scratch, stats⟩

lemma Deployment.L_foldl_leave (d : Deployment) (distance : Distance δ)
    (scratch : InMemQueryScratch Item δ) (earlier : List (EarlierQuery δ)) :
    (earlier.foldl (d.leave distance) scratch).L = scratch.L := by
  induction earlier generalizing scratch with
  | nil => rfl
  | cons e earlier ih =>
      refine (ih _).trans ?_
      cases e with
      | onBuckets query => exact RedAnns.L_leave distance query scratch
      | distributed thread call stats => exact DistributedRun.L_leave _

lemma Deployment.foldl_onBuckets (d : Deployment) (distance : Distance δ)
    (scratch : InMemQueryScratch Item δ) (earlier : List (List UInt32)) :
    (earlier.map .onBuckets).foldl (d.leave distance) scratch
      = earlier.foldl (RedAnns.leave (bucketStore d.index) distance d.index.membktEP d.b.baseNum)
          scratch := by
  rw [List.foldl_map]
  rfl

/-- The label that the output loop writes for a slot from behind the pool, after `earlier`. -/
def staleLabel (d : Deployment) (distance : Distance δ) (scratch : InMemQueryScratch Item δ)
    (earlier : List (EarlierQuery δ)) (i : ℕ) : VertexId :=
  d.index.layout.label
    (d.index.getVertex ((earlier.foldl (d.leave distance) scratch).bestLNodes.slot i).id)

/-- **Searches over the buckets alone leave nothing behind**: after them, as on a fresh scratch
object, the slots behind the pool are those of the item zero. -/
theorem staleLabel_onBuckets (d : Deployment) (distance : Distance δ) {L : ℕ} (hL : 0 < L)
    (earlier : List (List UInt32)) {i : ℕ} (hi : i < L)
    (hge : min L ((bucketStore d.index).reachable d.index.membktEP).ncard ≤ i) :
    staleLabel d distance (.reserve L hL) (earlier.map .onBuckets) i
      = staleLabel d distance (.reserve L hL) [] i := by
  have hep : d.index.membktEP ∈ d.items := Deployment.serves.entry_mem
  have hslot := slot_foldl_leave distance (.reserve L hL) hep d.neighborsOnBuckets_mem
    (show d.items.card ≤ d.b.baseNum from d.card_items_le) earlier hge hi
  rw [staleLabel, d.foldl_onBuckets, hslot]
  rfl

/-- There are no more vertex ids than fit into a word. -/
lemma exists_allVertices : ∃ R : Finset VertexId, (∀ v, v ∈ R) ∧ R.card ≤ UInt32.size :=
  ⟨idsBelow UInt32.size, fun v => mem_idsBelow v.toNat_lt_size, card_idsBelow_le _⟩

/-- **When an answer depends on earlier queries.** The answer of `search_base_index` never does.
That of `search_base_index_on_buckets` is the same after two histories exactly when the slots
that are written out from behind the pool have the same labels: those from the number of
vertices reachable from the entry point on. -/
theorem sameAnswer_iff (d : Deployment) (distance : Distance δ) (query : List UInt32) {L K : ℕ}
    (hL : 0 < L) (hK : K ≤ L) :
    (∀ (lay : Layout) (baseIndex : Bytes) (ep : VertexId) (fuel : ℕ), UInt32.size ≤ fuel →
      ∀ earlier earlier' : List (List UInt32),
        searchBaseIndex lay baseIndex ep distance query K
            (earlier.foldl (leave (flatStore lay baseIndex) distance ep fuel) (.reserve L hL)) fuel
          = searchBaseIndex lay baseIndex ep distance query K
            (earlier'.foldl (leave (flatStore lay baseIndex) distance ep fuel) (.reserve L hL))
            fuel) ∧
      ∀ fuel, d.b.baseNum ≤ fuel → ∀ earlier earlier' : List (EarlierQuery δ),
        (searchBaseIndexOnBuckets d.index distance query K
            (earlier.foldl (d.leave distance) (.reserve L hL)) fuel
          = searchBaseIndexOnBuckets d.index distance query K
            (earlier'.foldl (d.leave distance) (.reserve L hL)) fuel ↔
        ∀ i < K, min L ((bucketStore d.index).reachable d.index.membktEP).ncard ≤ i →
          staleLabel d distance (.reserve L hL) earlier i
            = staleLabel d distance (.reserve L hL) earlier' i) := by
  refine ⟨fun lay baseIndex ep fuel hfuel earlier earlier' => ?_,
    fun fuel hfuel earlier earlier' => ?_⟩
  · obtain ⟨R, hR, hcard⟩ := exists_allVertices
    have hcl : ∀ v ∈ R, ∀ w ∈ (flatStore lay baseIndex).neighbors
        ((flatStore lay baseIndex).getVertex v), w ∈ R := fun _ _ w _ => hR w
    have hcap : ∀ e : List (List UInt32), (e.foldl (leave (flatStore lay baseIndex) distance ep
        fuel) (.reserve L hL)).L = L := L_foldl_leave distance (.reserve L hL)
    have hslot := fun e i => slot_foldl_leave (i := i) distance (.reserve L hL) (hR ep) hcl
      (hcard.trans hfuel) e
    have hslot := fun e i (hi : i < L) hge => slot_foldl_leave distance (.reserve L hL) (hR ep)
      hcl (hcard.trans hfuel) (i := i) e hge hi
    have heq := (output_map_eq_iff distance query id ((hcap earlier').trans (hcap earlier).symm)
      (hR ep) hcl (hcard.trans hfuel) (K := K) ((hcap earlier).symm ▸ hK)).mpr
        fun i hi hge => by
          rw [hcap] at hge
          rw [hslot earlier i (hi.trans_le hK) hge, hslot earlier' i (hi.trans_le hK) hge]
    rwa [List.map_id, List.map_id] at heq
  · have hep : d.index.membktEP ∈ d.items := Deployment.serves.entry_mem
    have hcap : ∀ e : List (EarlierQuery δ), (e.foldl (d.leave distance) (.reserve L hL)).L = L :=
      d.L_foldl_leave distance (.reserve L hL)
    have hiff := output_map_eq_iff distance query Prod.fst
      ((hcap earlier').trans (hcap earlier).symm) hep d.neighborsOnBuckets_mem
      (d.card_items_le.trans hfuel) (K := K) ((hcap earlier).symm ▸ hK)
    rwa [hcap] at hiff

end Histories

/-! ### An answer that depends on an earlier query -/

/-- The two points on one server, with the second one as the projection of a learn vertex. -/
def oneServer : Deployment where
  b := oneWay
  bucketCount := 1
  baseInBucket := [0, 0]
  elementSize_lt := by decide
  assigns := ⟨by decide, by decide⟩
  malloc _ := fun _ => 0
  mem _ := fun _ => 0
  sid := 0
  rdmaCache := ⟨fun _ => 0, fun _ => none⟩
  copies := by simp
  learnProjectionInBase := [[1]]
  projection_lt := by decide
  schedule _ := []

/-- A search of the distributed index that starts from both points. -/
def fromBoth : EarlierQuery ℚ :=
  .distributed idleThread { twoServersCall with query := [1], adaptiveEpNum := 1 } none

/-- The two answers depend on the second slot alone. -/
theorem sameAnswer_iff_oneServer :
    searchBaseIndexOnBuckets oneServer.index twoServersCall.distance [5] 2
        (List.foldl (oneServer.leave twoServersCall.distance) (.reserve 2 (by decide)) []) 2
      = searchBaseIndexOnBuckets oneServer.index twoServersCall.distance [5] 2
        (List.foldl (oneServer.leave twoServersCall.distance) (.reserve 2 (by decide)) [fromBoth])
        2 ↔
    ∀ i < 2, min 2 ((bucketStore oneServer.index).reachable oneServer.index.membktEP).ncard ≤ i →
      staleLabel oneServer twoServersCall.distance (.reserve 2 (by decide)) [] i
        = staleLabel oneServer twoServersCall.distance (.reserve 2 (by decide)) [fromBoth] i :=
  (sameAnswer_iff oneServer twoServersCall.distance [5] (by decide) le_rfl).2 2 (by decide) []
    [fromBoth]

/-- On a fresh scratch object the second slot holds the item zero, and after the distributed
search the second point. -/
theorem not_sameAnswer_oneServer :
    searchBaseIndexOnBuckets oneServer.index twoServersCall.distance [5] 2
        (List.foldl (oneServer.leave twoServersCall.distance) (.reserve 2 (by decide)) []) 2
      ≠ searchBaseIndexOnBuckets oneServer.index twoServersCall.distance [5] 2
        (List.foldl (oneServer.leave twoServersCall.distance) (.reserve 2 (by decide)) [fromBoth])
        2 := by
  decide +kernel

end RedAnns
