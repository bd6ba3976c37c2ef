import RedAnns.Core.RobinTables
import RedAnns.Search.Histories

/-!
The hash tables in which a search marks the vertices it has visited.

`search_base_index` keeps one `tsl::robin_set` of vertices, `search_base_index_on_buckets` one of
local ids for every server; a thread keeps them from one query to the next and clears them.

* `VisitedSet`: what a search does with them; `hopIn`, `expandIn`, `searchIn`: the search of
  `Search.Greedy` over such a set, which may fail.
* `VisitedSet.Marks`: when a representation behaves as a finite set. `answersIn_eq`: then a thread
  answers a sequence of queries as it would with a finite set.
* `robinSet`, `robinSets`: the two instances, with `marks_robinSet` and `marks_robinSets`.
* `searchBaseIndex_robinSet`, `searchBaseIndexOnBuckets_robinSets`: the searches.
-/

namespace RedAnns

open RobinHash

/-! ### The search over a set that is kept somewhere -/

/-- A set to mark visited vertices in. -/
structure VisitedSet (σ ι : Type*) where
  find : σ → ι → Option Bool
  insert : σ → ι → Option σ
  clear : σ → σ

/-- The state of a search, with the set of visited vertices as it is kept. -/
structure HashedState (σ ι δ : Type*) where
  bestLNodes : NeighborPriorityQueue ι δ
  insertedIntoPoolRs : σ
  idScratch : List ι
  nHops : ℕ
  nCmps : ℕ

section Model

variable {σ ι δ : Type*} [LinearOrder ι] [LinearOrder δ] [Inhabited ι] [Inhabited δ]
  (V : VisitedSet σ ι)

/-- One round of the loop over neighbours. -/
def visitIn (s : σ × List ι) (id : ι) : Option (σ × List ι) :=
  (V.find s.1 id).bind fun visited =>
    if visited then some s else (V.insert s.1 id).map fun t => (t, s.2 ++ [id])

variable (g : RecordStore ι) (distance : Distance δ) (query : List UInt32)

/-- Visiting a list of vertices. -/
def hopIn (s : HashedState σ ι δ) (ids : List ι) : Option (HashedState σ ι δ) :=
  (ids.foldlM (visitIn V) (s.insertedIntoPoolRs, [])).map fun v =>
    { bestLNodes := score g distance query s.bestLNodes v.2
      insertedIntoPoolRs := v.1
      idScratch := v.2
      nHops := s.nHops + 1
      nCmps := s.nCmps + v.2.length }

/-- The body of the main loop. -/
def expandIn (s : HashedState σ ι δ) : Option (HashedState σ ι δ) :=
  let (n, q) := s.bestLNodes.closestUnexpanded
  hopIn V g distance query { s with bestLNodes := q } (g.neighbors (g.getVertex n.id))

/-- The main loop. -/
def runIn : ℕ → HashedState σ ι δ → Option (HashedState σ ι δ)
  | 0, s => some s
  | fuel + 1, s =>
      if s.bestLNodes.hasUnexpandedNode then
        (expandIn V g distance query s).bind (runIn fuel)
      else some s

/-- A search with what an earlier one has left: the scratch object is cleared first. -/
def searchIn (ep : ι) (pool : NeighborPriorityQueue ι δ) (visited : σ) (fuel : ℕ) :
    Option (HashedState σ ι δ) :=
  (hopIn V g distance query ⟨pool.clear, V.clear visited, [], 0, 0⟩ [ep]).bind
    (runIn V g distance query fuel)

/-- The output loop. -/
def HashedState.output (s : HashedState σ ι δ) (K : ℕ) : List (VertexId × δ) :=
  (List.range K).map fun i =>
    (g.label (g.getVertex (s.bestLNodes.slot i).id), (s.bestLNodes.slot i).distance)

variable (ep : ι) (fuel : ℕ)

/-- The answers of a thread to some queries, each written out as `out` says. -/
def answersIn {β : Type*} (out : HashedState σ ι δ → β) :
    List (List UInt32) → NeighborPriorityQueue ι δ → σ → Option (List β)
  | [], _, _ => some []
  | query :: queries, pool, visited =>
      (searchIn V g distance query ep pool visited fuel).bind fun s =>
        (answersIn out queries s.bestLNodes s.insertedIntoPoolRs).map (out s :: ·)

/-- The answers of a thread whose searches mark their vertices in a finite set. -/
def answers {β : Type*} (search : List UInt32 → InMemQueryScratch ι δ → β) :
    List (List UInt32) → InMemQueryScratch ι δ → List β
  | [], _ => []
  | query :: queries, scratch =>
      search query scratch :: answers search queries (leave g distance ep fuel scratch query)

/-- The sets of vertices that its searches visit satisfy a condition. -/
def VisitsWithin (Fits : Finset ι → Prop) : List (List UInt32) → InMemQueryScratch ι δ → Prop
  | [], _ => True
  | query :: queries, scratch =>
      Fits (greedySearch g distance query ep scratch fuel).insertedIntoPool ∧
        VisitsWithin Fits queries (leave g distance ep fuel scratch query)

end Model

/-! ### Representations of finite sets -/

section Marks

variable {σ ι δ : Type*} [LinearOrder ι] [LinearOrder δ] [Inhabited ι] [Inhabited δ]

/-- **A representation that behaves as a finite set**, as long as the set satisfies a condition that
its subsets satisfy too. -/
structure VisitedSet.Marks (V : VisitedSet σ ι) (Fits : Finset ι → Prop)
    (marks : σ → Finset ι → Prop) : Prop where
  anti : ∀ {S T}, S ⊆ T → Fits T → Fits S
  find : ∀ {s S} (id : ι), marks s S → Fits (Insert.insert id S) →
    V.find s id = some (decide (id ∈ S))
  insert : ∀ {s S} (id : ι), marks s S → Fits (Insert.insert id S) →
    ∃ s', V.insert s id = some s' ∧ marks s' (Insert.insert id S)
  clear : ∀ {s S}, marks s S → marks (V.clear s) ∅

variable {V : VisitedSet σ ι} {Fits : Finset ι → Prop} {marks : σ → Finset ι → Prop}
  {g : RecordStore ι} {distance : Distance δ} {query : List UInt32}

omit [Inhabited ι] in
lemma foldl_visit_fst (ids : List ι) (s : Finset ι × List ι) :
    (ids.foldl visit s).1 = s.1 ∪ ids.toFinset := by
  induction ids generalizing s with
  | nil => simp
  | cons id ids ih =>
      rw [List.foldl_cons, ih, List.toFinset_cons, Finset.union_insert, ← Finset.insert_union]
      congr 1
      rw [visit]
      split_ifs with hid
      · exact (Finset.insert_eq_of_mem hid).symm
      · rfl

omit [Inhabited ι] in
/-- The loop over neighbours. -/
lemma foldlM_visitIn (hV : V.Marks Fits marks) {t : σ} {s : Finset ι × List ι} (ids : List ι)
    (ht : marks t s.1) (hfits : Fits (ids.foldl visit s).1) :
    ∃ t', ids.foldlM (visitIn V) (t, s.2) = some (t', (ids.foldl visit s).2) ∧
      marks t' (ids.foldl visit s).1 := by
  induction ids generalizing t s with
  | nil => exact ⟨t, rfl, ht⟩
  | cons id ids ih =>
      have hid : Fits (Insert.insert id s.1) := by
        refine hV.anti ?_ hfits
        rw [foldl_visit_fst, List.toFinset_cons, Finset.union_insert, ← Finset.insert_union]
        exact Finset.subset_union_left
      rw [List.foldl_cons] at hfits ⊢
      rw [List.foldlM_cons, visitIn, hV.find id ht hid, Option.bind_some]
      by_cases hmem : id ∈ s.1
      · rw [visit, if_pos hmem] at hfits ⊢
        rw [decide_eq_true hmem, if_pos rfl]
        exact ih ht hfits
      · obtain ⟨t', hinsert, ht'⟩ := hV.insert id ht hid
        rw [visit, if_neg hmem] at hfits ⊢
        rw [decide_eq_false hmem, if_neg Bool.false_ne_true, hinsert]
        exact ih (s := (Insert.insert id s.1, s.2 ++ [id])) ht' hfits

/-- A state with the set kept somewhere, and one with the set itself. -/
structure HashedState.Follows (marks : σ → Finset ι → Prop) (h : HashedState σ ι δ)
    (s : GreedyState ι δ) : Prop where
  bestLNodes : h.bestLNodes = s.bestLNodes
  marks : marks h.insertedIntoPoolRs s.insertedIntoPool
  idScratch : h.idScratch = s.idScratch
  nHops : h.nHops = s.nHops
  nCmps : h.nCmps = s.nCmps

variable {h : HashedState σ ι δ} {s : GreedyState ι δ}

lemma HashedState.Follows.hop (hV : V.Marks Fits marks) (hs : h.Follows marks s) (ids : List ι)
    (hfits : Fits (hop g distance query s ids).insertedIntoPool) :
    ∃ h', hopIn V g distance query h ids = some h' ∧
      h'.Follows marks (RedAnns.hop g distance query s ids) := by
  obtain ⟨t', hrun, ht'⟩ :=
    foldlM_visitIn hV (s := (s.insertedIntoPool, [])) ids hs.marks hfits
  refine ⟨_, by rw [hopIn, hrun]; rfl, ?_, ht', rfl, ?_, ?_⟩
  · show score g distance query h.bestLNodes _ = _
    rw [hs.bestLNodes]
    rfl
  · show h.nHops + 1 = s.nHops + 1
    rw [hs.nHops]
  · show h.nCmps + _ = _
    rw [hs.nCmps]
    rfl

lemma HashedState.Follows.expand (hV : V.Marks Fits marks) (hs : h.Follows marks s)
    (hfits : Fits (expand g distance query s).insertedIntoPool) :
    ∃ h', expandIn V g distance query h = some h' ∧
      h'.Follows marks (RedAnns.expand g distance query s) := by
  have hmarked : HashedState.Follows marks { h with bestLNodes := s.bestLNodes.closestUnexpanded.2 }
      { s with bestLNodes := s.bestLNodes.closestUnexpanded.2 } :=
    ⟨rfl, hs.marks, hs.idScratch, hs.nHops, hs.nCmps⟩
  rw [expandIn, hs.bestLNodes]
  exact hmarked.hop hV _ hfits

/-- The set of visited vertices only grows. -/
lemma subset_whileLoop (s : GreedyState ι δ) (fuel : ℕ) :
    s.insertedIntoPool ⊆ (whileLoop (fun s => s.bestLNodes.hasUnexpandedNode)
      (expand g distance query) fuel s).insertedIntoPool := by
  refine whileLoop_invariant
    (I := fun t : GreedyState ι δ => s.insertedIntoPool ⊆ t.insertedIntoPool)
    (fun t ht _ => ht.trans ?_) (Finset.Subset.refl _) fuel
  show t.insertedIntoPool ⊆ (visitAll t.insertedIntoPool _).1
  rw [visitAll, foldl_visit_fst]
  exact Finset.subset_union_left

/-- The main loop. -/
lemma HashedState.Follows.run (hV : V.Marks Fits marks) (hs : h.Follows marks s) (fuel : ℕ)
    (hfits : Fits (whileLoop (fun s => s.bestLNodes.hasUnexpandedNode)
      (RedAnns.expand g distance query) fuel s).insertedIntoPool) :
    ∃ h', runIn V g distance query fuel h = some h' ∧
      h'.Follows marks (whileLoop (fun s => s.bestLNodes.hasUnexpandedNode)
        (RedAnns.expand g distance query) fuel s) := by
  induction fuel generalizing h s with
  | zero => exact ⟨h, rfl, hs⟩
  | succ fuel ih =>
      rw [runIn, hs.bestLNodes]
      cases hc : s.bestLNodes.hasUnexpandedNode with
      | false =>
          rw [whileLoop, hc, if_neg Bool.false_ne_true, if_neg Bool.false_ne_true]
          exact ⟨h, rfl, hs⟩
      | true =>
          rw [whileLoop, hc, if_pos rfl] at hfits ⊢
          obtain ⟨h', hexpand, hs'⟩ := hs.expand hV (hV.anti (subset_whileLoop _ fuel) hfits)
          rw [if_pos rfl, hexpand, Option.bind_some]
          exact ih hs' hfits

/-- A search visits what is reachable from its entry point. -/
lemma insertedIntoPool_subset {ep : ι} {R : Finset ι} (hep : ep ∈ R)
    (hcl : ∀ v ∈ R, ∀ w ∈ g.neighbors (g.getVertex v), w ∈ R) (scratch : InMemQueryScratch ι δ)
    (fuel : ℕ) : (greedySearch g distance query ep scratch fuel).insertedIntoPool ⊆ R := by
  intro v hv
  have hs := simulates_greedySearch g distance query ep scratch fuel
  have hinv := Beam.inv_iterate scratch.L (g.nbr distance query) {g.key distance query ep} fuel
  have hseen : g.key distance query v ∈ R.image (g.key distance query) :=
    (hinv.reach _ (hs.seen ▸ Finset.mem_image_of_mem _ hv)).mem_of_closed
      (Finset.singleton_subset_iff.mpr (Finset.mem_image_of_mem _ hep)) (RecordStore.nbr_subset hcl)
  obtain ⟨w, hw, heq⟩ := Finset.mem_image.mp hseen
  exact RecordStore.key_injective heq ▸ hw

/-- Searches from an entry point that reaches few vertices visit few of them. -/
lemma visitsWithin_of_closed {ep : ι} {R : Finset ι} (hep : ep ∈ R)
    (hcl : ∀ v ∈ R, ∀ w ∈ g.neighbors (g.getVertex v), w ∈ R)
    (hanti : ∀ {S T}, S ⊆ T → Fits T → Fits S) (hR : Fits R) (fuel : ℕ)
    (queries : List (List UInt32)) (scratch : InMemQueryScratch ι δ) :
    VisitsWithin g distance ep fuel Fits queries scratch := by
  induction queries generalizing scratch with
  | nil => trivial
  | cons query queries ih =>
      exact ⟨hanti (insertedIntoPool_subset hep hcl scratch fuel) hR, ih _⟩

/-- **A search** finds the same with the set kept somewhere. -/
theorem searchIn_follows (hV : V.Marks Fits marks) {visited : σ} {S : Finset ι}
    (hvisited : marks visited S) (ep : ι) (scratch : InMemQueryScratch ι δ) (fuel : ℕ)
    (hfits : Fits (greedySearch g distance query ep scratch fuel).insertedIntoPool) :
    ∃ h, searchIn V g distance query ep scratch.bestLNodes visited fuel = some h ∧
      h.Follows marks (greedySearch g distance query ep scratch fuel) := by
  have hclear : HashedState.Follows marks
      (⟨scratch.bestLNodes.clear, V.clear visited, [], 0, 0⟩ : HashedState σ ι δ)
      ⟨scratch.bestLNodes.clear, ∅, [], 0, 0, []⟩ := ⟨rfl, hV.clear hvisited, rfl, rfl, rfl⟩
  obtain ⟨h, hstart, hs⟩ := hclear.hop hV [ep] (hV.anti (subset_whileLoop _ fuel) hfits)
  rw [searchIn, hstart, Option.bind_some]
  exact hs.run hV fuel hfits

/-- **A thread answers its queries as it would with finite sets.** -/
theorem answersIn_eq {β : Type*} (hV : V.Marks Fits marks) {ep : ι} {fuel : ℕ}
    {out : HashedState σ ι δ → β} {search : List UInt32 → InMemQueryScratch ι δ → β}
    (hout : ∀ query scratch (h : HashedState σ ι δ),
      h.Follows marks (greedySearch g distance query ep scratch fuel) →
        out h = search query scratch)
    {queries : List (List UInt32)} {scratch : InMemQueryScratch ι δ} {visited : σ} {S : Finset ι}
    (hvisited : marks visited S)
    (hfits : VisitsWithin g distance ep fuel Fits queries scratch) :
    answersIn V g distance ep fuel out queries scratch.bestLNodes visited
      = some (answers g distance ep fuel search queries scratch) := by
  induction queries generalizing scratch visited S with
  | nil => rfl
  | cons query queries ih =>
      obtain ⟨hfits, hrest⟩ := hfits
      obtain ⟨h, hsearch, hs⟩ := searchIn_follows hV hvisited ep scratch fuel hfits
      rw [answersIn, hsearch, Option.bind_some, answers, hs.bestLNodes,
        show (greedySearch g distance query ep scratch fuel).bestLNodes
          = (leave g distance ep fuel scratch query).bestLNodes from rfl, ih hs.marks hrest,
        hout query scratch h hs]
      rfl

omit [LinearOrder ι] [LinearOrder δ] in
/-- The output loops write the same. -/
lemma HashedState.Follows.output (hs : h.Follows marks s) (K : ℕ) :
    h.output g K = RedAnns.output g s K := by
  rw [HashedState.output, hs.bestLNodes]
  rfl

end Marks

/-! ### One table -/

section Table

variable {κ : Type*} [LinearOrder κ] (hash : κ → ℕ) (maxSize : ℕ)

/-- `inserted_into_pool_rs` as one `tsl::robin_set`. Entries of four-byte keys store no hash. -/
def robinSet : VisitedSet (RobinHash κ) κ where
  find t id := (t.findImpl (setHashing hash false maxSize) id).map Option.isSome
  insert t id := (t.insertImpl (setHashing hash false maxSize) id).map Prod.fst
  clear := RobinHash.clear

/-- The sets for which distances of 16 bits suffice. -/
def FitsTable (S : Finset κ) : Prop := S.card ≤ maxDistance

variable {hash maxSize}

omit [LinearOrder κ] in
lemma FitsTable.anti {S T : Finset κ} (hST : S ⊆ T) (hT : FitsTable T) : FitsTable S :=
  (Finset.card_le_card hST).trans hT

lemma RobinHash.IsSet.find_robinSet (hsize : roomyCount ≤ maxSize) {t : RobinHash κ} {S : Finset κ}
    (ht : t.IsSet (setHashing hash false maxSize) S) (hS : FitsTable S) (id : κ) :
    (robinSet hash maxSize).find t id = some (decide (id ∈ S)) := by
  obtain ⟨t', hfind, -⟩ := ht.setOp hsize hS (.find id)
  obtain ⟨r, hr, heq⟩ := Option.map_eq_some_iff.mp hfind
  show (t.findImpl _ id).map Option.isSome = _
  rw [hr]
  exact congrArg (fun p : RobinHash κ × Bool => some p.2) heq

lemma RobinHash.IsSet.insert_robinSet (hsize : roomyCount ≤ maxSize) {t : RobinHash κ}
    {S : Finset κ} (ht : t.IsSet (setHashing hash false maxSize) S) (hS : FitsTable S) (id : κ) :
    ∃ t', (robinSet hash maxSize).insert t id = some t' ∧
      t'.IsSet (setHashing hash false maxSize) (Insert.insert id S) := by
  obtain ⟨t', hinsert, ht'⟩ := ht.setOp hsize hS (.insert id)
  obtain ⟨r, hr, heq⟩ := Option.map_eq_some_iff.mp hinsert
  refine ⟨t', ?_, ht'⟩
  show (t.insertImpl _ id).map Prod.fst = _
  rw [hr]
  exact congrArg (fun p : RobinHash κ × Bool => some p.1) heq

omit [LinearOrder κ] in
lemma RobinHash.IsSet.clear_robinSet {t : RobinHash κ} {S : Finset κ}
    (ht : t.IsSet (setHashing hash false maxSize) S) :
    t.clear.IsSet (setHashing hash false maxSize) ∅ :=
  ⟨(clear_spec ht.wellFormed).1, (clear_spec ht.wellFormed).2⟩

/-- **A table behaves as a finite set.** -/
theorem marks_robinSet (hsize : roomyCount ≤ maxSize) :
    (robinSet hash maxSize).Marks FitsTable fun t S =>
      t.IsSet (setHashing hash false maxSize) S where
  anti := FitsTable.anti
  find id ht hfits := ht.find_robinSet hsize (hfits.anti (Finset.subset_insert _ _)) id
  insert id ht hfits := ht.insert_robinSet hsize (hfits.anti (Finset.subset_insert _ _)) id
  clear := RobinHash.IsSet.clear_robinSet

end Table

/-! ### A table for every server -/

section Tables

variable (hash : LocalId → ℕ) (maxSize : ℕ)

/-- `inserted_into_pool_rs` as a `std::vector` of tables, one for the local ids of every server. -/
def robinSets : VisitedSet (List (RobinHash LocalId)) Item where
  find ts item := ts[item.first.toNat]?.bind fun t => (robinSet hash maxSize).find t item.second
  insert ts item := ts[item.first.toNat]?.bind fun t =>
    ((robinSet hash maxSize).insert t item.second).map fun t' => ts.set item.first.toNat t'
  clear ts := ts.map RobinHash.clear

/-- The local ids on a server. -/
def localIds (S : Finset Item) (i : ℕ) : Finset LocalId :=
  (S.filter fun item => item.first.toNat = i).image Item.second

/-- The sets of items on some servers for which distances of 16 bits suffice. -/
def FitsTables (numServers : ℕ) (S : Finset Item) : Prop :=
  (∀ item ∈ S, item.first.toNat < numServers) ∧ ∀ i, FitsTable (localIds S i)

/-- Tables that stand for a set of items. -/
structure AreSets (numServers : ℕ) (ts : List (RobinHash LocalId)) (S : Finset Item) : Prop where
  length : ts.length = numServers
  table : ∀ i (hi : i < ts.length), ts[i].IsSet (setHashing hash false maxSize) (localIds S i)

lemma localIds_mono {S T : Finset Item} (hST : S ⊆ T) (i : ℕ) : localIds S i ⊆ localIds T i :=
  Finset.image_subset_image (Finset.filter_subset_filter _ hST)

lemma mem_localIds {S : Finset Item} {item : Item} :
    item.second ∈ localIds S item.first.toNat ↔ item ∈ S := by
  simp only [localIds, Finset.mem_image, Finset.mem_filter, UInt8.toNat_inj]
  constructor
  · rintro ⟨a, ⟨ha, hfirst⟩, hsecond⟩
    exact Item.ext hfirst hsecond ▸ ha
  · exact fun hitem => ⟨item, ⟨hitem, rfl⟩, rfl⟩

lemma localIds_insert_self (S : Finset Item) (item : Item) :
    localIds (insert item S) item.first.toNat
      = insert item.second (localIds S item.first.toNat) := by
  rw [localIds, Finset.filter_insert, if_pos rfl, Finset.image_insert, localIds]

lemma localIds_insert_of_ne (S : Finset Item) {item : Item} {i : ℕ} (hi : item.first.toNat ≠ i) :
    localIds (insert item S) i = localIds S i := by
  rw [localIds, Finset.filter_insert, if_neg hi, localIds]

variable {hash maxSize} {numServers : ℕ}

lemma FitsTables.of_card {S : Finset Item} (hfirst : ∀ item ∈ S, item.first.toNat < numServers)
    (hcard : S.card ≤ maxDistance) : FitsTables numServers S :=
  ⟨hfirst, fun _ =>
    (Finset.card_image_le.trans (Finset.card_filter_le _ _)).trans hcard⟩

lemma FitsTables.anti {S T : Finset Item} (hST : S ⊆ T) (hT : FitsTables numServers T) :
    FitsTables numServers S :=
  ⟨fun item hitem => hT.1 item (hST hitem), fun i => (hT.2 i).anti (localIds_mono hST i)⟩

/-- **Tables for the servers behave as a finite set of items.** -/
theorem marks_robinSets (hsize : roomyCount ≤ maxSize) :
    (robinSets hash maxSize).Marks (FitsTables numServers)
      (AreSets hash maxSize numServers) where
  anti := FitsTables.anti
  find {ts S} item hts hfits := by
    have hi : item.first.toNat < ts.length :=
      hts.length ▸ hfits.1 item (Finset.mem_insert_self _ _)
    have hS : FitsTable (localIds S item.first.toNat) :=
      (hfits.2 _).anti (localIds_mono (Finset.subset_insert _ _) _)
    show ts[item.first.toNat]?.bind _ = _
    rw [List.getElem?_eq_getElem hi, Option.bind_some, (hts.table _ hi).find_robinSet hsize hS]
    simp only [mem_localIds]
  insert {ts S} item hts hfits := by
    have hi : item.first.toNat < ts.length :=
      hts.length ▸ hfits.1 item (Finset.mem_insert_self _ _)
    have hS : FitsTable (localIds S item.first.toNat) :=
      (hfits.2 _).anti (localIds_mono (Finset.subset_insert _ _) _)
    obtain ⟨t', hinsert, ht'⟩ := (hts.table _ hi).insert_robinSet hsize hS item.second
    refine ⟨ts.set item.first.toNat t', ?_, (List.length_set ..).trans hts.length,
      fun i hlt => ?_⟩
    · show ts[item.first.toNat]?.bind _ = _
      rw [List.getElem?_eq_getElem hi, Option.bind_some, hinsert]
      rfl
    · rw [List.getElem_set]
      split_ifs with hfirst
      · subst hfirst
        rwa [localIds_insert_self]
      · rw [localIds_insert_of_ne S hfirst]
        exact hts.table i _
  clear {ts S} hts := by
    have hlen : (ts.map RobinHash.clear).length = ts.length := List.length_map _
    have hclear : AreSets hash maxSize numServers (ts.map RobinHash.clear) ∅ := by
      refine ⟨hlen.trans hts.length, fun i hi => ?_⟩
      rw [List.getElem_map]
      exact (hts.table i (hlen ▸ hi)).clear_robinSet
    exact hclear

end Tables

/-! ### The searches -/

section Searches

variable {δ : Type*} [LinearOrder δ] [Inhabited δ]

/-- `_inserted_into_pool_rs` as the constructor of `diskann::InMemQueryScratch` leaves it. -/
def freshTable (hash : VertexId → ℕ) (maxSize searchL : ℕ) : Option (RobinHash VertexId) :=
  (new (setHashing hash false maxSize) defaultInitBucketsSize).bind fun t =>
    t.reserve (setHashing hash false maxSize) (UInt32.ofNat (20 * searchL)).toNat

/-- `_inserted_into_pool_rs` as the constructor of `dsmann::InMemQueryScratch` leaves it: the vector
is still empty when `resize_for_new_L` reserves room in its tables. -/
def freshTables (hash : LocalId → ℕ) (maxSize numServers : ℕ) : Option (List (RobinHash LocalId)) :=
  (new (setHashing hash false maxSize) defaultInitBucketsSize).map (List.replicate numServers)

/-- **`search_base_index` with its hash table.** Whatever the hash function, a thread that clears
one `robin_set` between its queries gives to each of them the answer of a search with a finite set,
from the pool that its earlier queries have left. -/
theorem searchBaseIndex_robinSet (L : Layout) (baseIndex : Bytes) (ep : VertexId)
    (distance : Distance δ) (hash : VertexId → ℕ) {maxSize : ℕ} (hsize : roomyCount ≤ maxSize)
    {searchL : ℕ} (hL : 0 < searchL) (K fuel : ℕ) (queries : List (List UInt32))
    (hfits : VisitsWithin (flatStore L baseIndex) distance ep fuel FitsTable queries
      (.reserve searchL hL)) :
    (freshTable hash maxSize searchL).bind
        (answersIn (robinSet hash maxSize) (flatStore L baseIndex) distance ep fuel
          (fun s => s.output (flatStore L baseIndex) K) queries
          (InMemQueryScratch.reserve searchL hL).bestLNodes)
      = some (answers (flatStore L baseIndex) distance ep fuel
          (fun query scratch => searchBaseIndex L baseIndex ep distance query K scratch fuel)
          queries (.reserve searchL hL)) := by
  obtain ⟨t₀, hnew, ht₀⟩ := exists_new_isSet hash hsize
  obtain ⟨t, hreserve, ht⟩ :=
    ht₀.setOp hsize (Nat.zero_le _) (.reserve (UInt32.ofNat (20 * searchL)))
  obtain ⟨t', hreserve', heq⟩ := Option.map_eq_some_iff.mp hreserve
  obtain rfl : t' = t := congrArg Prod.fst heq
  rw [freshTable, hnew, Option.bind_some, hreserve', Option.bind_some]
  exact answersIn_eq (marks_robinSet hsize) (fun _ _ h hs => hs.output K) ht hfits

/-- Two queries over the two points, with the identity for a hash function. -/
theorem searchBaseIndex_robinSet_twoPoints :
    (freshTable UInt32.toNat roomyCount 2).bind
        (answersIn (robinSet UInt32.toNat roomyCount)
          (flatStore twoPoints.flatLayout (generateBaseIndex twoPoints fun _ => 0))
          (distanceL2 fun w => (w.toNat : ℚ)) 0 2
          (fun s => s.output
            (flatStore twoPoints.flatLayout (generateBaseIndex twoPoints fun _ => 0)) 2)
          [[5], [0]] (InMemQueryScratch.reserve 2 (by decide)).bestLNodes)
      = some (answers (flatStore twoPoints.flatLayout (generateBaseIndex twoPoints fun _ => 0))
          (distanceL2 fun w => (w.toNat : ℚ)) 0 2
          (fun query scratch => searchBaseIndex twoPoints.flatLayout
            (generateBaseIndex twoPoints fun _ => 0) 0 (distanceL2 fun w => (w.toNat : ℚ)) query 2
            scratch 2)
          [[5], [0]] (.reserve 2 (by decide))) := by
  have hg := storedGraph_generateBaseIndex twoPoints (by decide) fun _ => 0
  refine searchBaseIndex_robinSet _ _ _ _ _ le_rfl _ _ _ _ (visitsWithin_of_closed
    (mem_idsBelow hg.entry_lt) (fun v hv w hw =>
      mem_idsBelow (hg.neighbor_lt v (lt_of_mem_idsBelow hv) w hw)) FitsTable.anti ?_ _ _ _)
  exact (card_idsBelow_le _).trans (by decide)

/-- **`search_base_index_on_buckets` with its hash tables.** -/
theorem searchBaseIndexOnBuckets_robinSets (idx : BucketIndex) (distance : Distance δ)
    (hash : LocalId → ℕ) {maxSize : ℕ} (hsize : roomyCount ≤ maxSize) (numServers : ℕ)
    {searchL : ℕ} (hL : 0 < searchL) (K fuel : ℕ) (queries : List (List UInt32))
    (hfits : VisitsWithin (bucketStore idx) distance idx.membktEP fuel (FitsTables numServers)
      queries (.reserve searchL hL)) :
    (freshTables hash maxSize numServers).bind
        (answersIn (robinSets hash maxSize) (bucketStore idx) distance idx.membktEP fuel
          (fun s => (s.output (bucketStore idx) K).map Prod.fst) queries
          (InMemQueryScratch.reserve searchL hL).bestLNodes)
      = some (answers (bucketStore idx) distance idx.membktEP fuel
          (fun query scratch => searchBaseIndexOnBuckets idx distance query K scratch fuel)
          queries (.reserve searchL hL)) := by
  obtain ⟨t₀, hnew, ht₀⟩ := exists_new_isSet hash hsize
  have ht : AreSets hash maxSize numServers (List.replicate numServers t₀) ∅ := by
    refine ⟨List.length_replicate, fun i hi => ?_⟩
    rw [List.getElem_replicate]
    exact ht₀
  rw [freshTables, hnew, Option.map_some, Option.bind_some]
  exact answersIn_eq (marks_robinSets hsize)
    (fun _ _ h hs => congrArg (List.map Prod.fst) (hs.output K)) ht hfits

/-- Two queries over the two points on two buckets. -/
theorem searchBaseIndexOnBuckets_robinSets_twoPoints :
    (freshTables UInt32.toNat roomyCount 2).bind
        (answersIn (robinSets UInt32.toNat roomyCount)
          (bucketStore (arrange twoPoints 2 [0, 1] fun _ _ => 0))
          (distanceL2 fun w => (w.toNat : ℚ)) (arrange twoPoints 2 [0, 1] fun _ _ => 0).membktEP 2
          (fun s => (s.output (bucketStore (arrange twoPoints 2 [0, 1] fun _ _ => 0)) 2).map
            Prod.fst)
          [[5], [0]] (InMemQueryScratch.reserve 2 (by decide)).bestLNodes)
      = some (answers (bucketStore (arrange twoPoints 2 [0, 1] fun _ _ => 0))
          (distanceL2 fun w => (w.toNat : ℚ)) (arrange twoPoints 2 [0, 1] fun _ _ => 0).membktEP 2
          (fun query scratch => searchBaseIndexOnBuckets
            (arrange twoPoints 2 [0, 1] fun _ _ => 0) (distanceL2 fun w => (w.toNat : ℚ)) query 2
            scratch 2)
          [[5], [0]] (.reserve 2 (by decide))) := by
  have hclosed : ∀ v ∈ ({⟨0, 0⟩, ⟨1, 0⟩} : Finset Item),
      ∀ w ∈ (bucketStore (arrange twoPoints 2 [0, 1] fun _ _ => 0)).neighbors
        ((bucketStore (arrange twoPoints 2 [0, 1] fun _ _ => 0)).getVertex v),
      w ∈ ({⟨0, 0⟩, ⟨1, 0⟩} : Finset Item) := by decide +kernel
  exact searchBaseIndexOnBuckets_robinSets _ _ _ le_rfl 2 _ _ _ _ (visitsWithin_of_closed
    (by decide +kernel) hclosed FitsTables.anti (.of_card (by decide +kernel) (by decide +kernel))
    _ _ _)

end Searches

end RedAnns
