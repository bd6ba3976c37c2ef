import RedAnns.Core.Distance
import RedAnns.Lib.Beam
import RedAnns.Lib.Best
import RedAnns.Search.SortedPool

/-!
The search of the learn graph, `beam_search_learn_graph` of `src/index.cpp`, over
`numaann::InsertIntoPool` of `include/neighbor.h`.

The list of candidates grows from the entry point to `L` entries, and the position `k` jumps back
to the first place where something was inserted. Every access to the `L + 1` slots, to the marks
and to the graph is checked, so that a run that leaves them fails. The positions are of type `int`
and the number of candidates is narrowed to `unsigned` on the way to the insertion, as in the
source.

* `LearnIndex.visit`, `LearnIndex.learnStep`, `LearnIndex.learnLoop`: the source.
* `LearnIndex.Inv`: what holds at the head of the loop; the retained candidates are a best
  selection (`Best`) of the evaluated vertices.
* `LearnIndex.FitsInt`: at most `2 ^ 30 + 1` candidates are retained when another one is inserted.
* `LearnIndex.ReturnsBest`: the search ends, and returns a vertex at minimum distance among the
  evaluated ones.
* `LearnIndex.beamSearchLearnGraph_best_iff`: it does on all graphs with up to `R` reachable
  vertices exactly if `L` or `R` keeps the positions small; `not_returnsBest_star`: a graph where it
  fails.
-/

namespace RedAnns

/-! ### The search -/

/-- What `beam_search_learn_graph` reads of the index: the learn vectors, the learn graph with a
list for every vertex (`load_learn_graph` refuses any other size, and the lengths in the file are
`unsigned`), and the entry point. -/
structure LearnIndex where
  learnNum : ℕ
  dimension : ℕ
  learnData : List UInt32
  learnGraph : List (List VertexId)
  learnGraphEP : VertexId
  length_eq : learnGraph.length = learnNum
  degree_lt : ∀ ids ∈ learnGraph, ids.length < 2 ^ 32
  neighbor_lt : ∀ ids ∈ learnGraph, ∀ id ∈ ids, id.toNat < learnNum
  entry_lt : learnGraphEP.toNat < learnNum

/-- The state at the head of the loop. The last two fields are not in the source: they record the
vertices whose distance was computed and those that were expanded. -/
structure LearnState (δ : Type) where
  retset : List (Numaann.Neighbor δ)
  L : ℕ
  k : ℤ
  flags : List Bool
  evaluated : List VertexId
  expanded : List VertexId

/-- The candidates that are retained. -/
def LearnState.retained {δ : Type} (s : LearnState δ) : List (Numaann.Neighbor δ) :=
  s.retset.take s.L

/-- What the loop over the neighbours of a vertex works on. -/
structure LearnScan (δ : Type) where
  retset : List (Numaann.Neighbor δ)
  L : ℕ
  nk : ℤ
  flags : List Bool
  evaluated : List VertexId

namespace LearnIndex

/-- What the source does not check: inside the insertion, which has its own faults, or an access to
a slot; and an access to a vertex. -/
inductive Stop
  | pool (fault : SortedPool.Fault)
  | vertex
  deriving DecidableEq

/-- `retset[i]`. -/
def slotAt {δ : Type} (retset : List (Numaann.Neighbor δ)) (i : ℕ) :
    Except Stop (Numaann.Neighbor δ) :=
  (SortedPool.entryAt retset i).mapError .pool

/-- An access by a vertex id. -/
def vertexAt {α : Type} (l : List α) (id : VertexId) : Except Stop α :=
  match l[id.toNat]? with
  | some a => .ok a
  | none => .error .vertex

/-- A number of candidates as an `int`. -/
def intOf (n : ℕ) : ℤ := SortedPool.toInt (UInt32.ofNat n)

section Model

variable {δ : Type} [LinearOrder δ] [Inhabited δ] (g : LearnIndex) (distance : Distance δ)
  (query : List UInt32)

omit [LinearOrder δ] [Inhabited δ] in
/-- The vector of a learn vertex. -/
def vector (id : VertexId) : List UInt32 :=
  (g.learnData.drop (g.dimension * id.toNat)).take g.dimension

omit [LinearOrder δ] [Inhabited δ] in
/-- The distance of a vertex to the query, as it is computed: that of the entry point with the
arguments the other way round. -/
def dist (id : VertexId) : δ :=
  if id = g.learnGraphEP then distance.compare (g.vector id) query
  else distance.compare query (g.vector id)

omit [Inhabited δ] in
/-- Whether a candidate is refused: all slots but the spare one are taken, and it is at least as far
as the last entry. -/
def refuses (t : LearnScan δ) (dist : δ) : Except Stop Bool :=
  if t.L + 1 = t.retset.length then do
    let last ← slotAt t.retset (t.L - 1)
    return decide (last.distance ≤ dist)
  else return false

omit [Inhabited δ] in
/-- One round of the loop over neighbours. -/
def visit (t : LearnScan δ) (id : VertexId) : Except Stop (LearnScan δ) := do
  let flag ← vertexAt t.flags id
  if flag then return t
  let flags := t.flags.set id.toNat true
  let dist := distance.compare query (g.vector id)
  let evaluated := t.evaluated ++ [id]
  if ← refuses t dist then return { t with flags := flags, evaluated := evaluated }
  let (r, retset) ← (SortedPool.insertIntoPool t.retset (UInt32.ofNat t.L)
    ⟨id, dist, true⟩).mapError .pool
  .ok
    { retset := retset
      L := if t.L + 1 < retset.length then t.L + 1 else t.L
      nk := if r < t.nk then r else t.nk
      flags := flags
      evaluated := evaluated }

omit [Inhabited δ] in
/-- One round of the main loop. -/
def learnStep (s : LearnState δ) : Except Stop (LearnState δ) := do
  let k ← (SortedPool.position s.k).mapError .pool
  let nk := intOf s.L
  let entry ← slotAt s.retset k
  if entry.flag then
    let retset := s.retset.set k { entry with flag := false }
    let ids ← vertexAt g.learnGraph entry.id
    let t ← ids.foldlM (visit g distance query) ⟨retset, s.L, nk, s.flags, s.evaluated⟩
    .ok
      { retset := t.retset
        L := t.L
        k := if t.nk ≤ s.k then t.nk else s.k + 1
        flags := t.flags
        evaluated := t.evaluated
        expanded := s.expanded ++ [entry.id] }
  else return { s with k := if nk ≤ s.k then nk else s.k + 1 }

omit [LinearOrder δ] [Inhabited δ] in
/-- The condition of the main loop. -/
def goesOn (s : LearnState δ) : Bool := decide (s.k < intOf s.L)

omit [LinearOrder δ] in
/-- The state before the main loop: the entry point fills the first slot. -/
def learnStart (L : ℕ) : LearnState δ where
  retset := (List.replicate (L + 1) default).set 0
    ⟨g.learnGraphEP, distance.compare (g.vector g.learnGraphEP) query, true⟩
  L := 1
  k := 0
  flags := (List.replicate g.learnNum false).set g.learnGraphEP.toNat true
  evaluated := [g.learnGraphEP]
  expanded := []

/-- The main loop, cut off after `fuel` rounds. -/
def learnLoop (L fuel : ℕ) : Except Stop (LearnState δ) :=
  whileLoopM goesOn (learnStep g distance query) fuel (learnStart g distance query L)

/-- `beam_search_learn_graph`, its main loop cut off after `fuel` rounds. -/
def beamSearchLearnGraph (L fuel : ℕ) : Except Stop VertexId := do
  let s ← learnLoop g distance query L fuel
  let best ← slotAt s.retset 0
  return best.id

end Model

/-! ### What the loops keep -/

section Invariant

variable {δ : Type} [LinearOrder δ] {g : LearnIndex} {distance : Distance δ} {query : List UInt32}
  {cap len : ℕ} {retset : List (Numaann.Neighbor δ)} {flags : List Bool}
  {evaluated expanded : List VertexId} {s : LearnState δ}

/-- The out-neighbours of a learn vertex. -/
def adjacency (g : LearnIndex) (id : VertexId) : List VertexId := g.learnGraph.getD id.toNat []

/-- The vertices reachable from the entry point. -/
def Reaches (g : LearnIndex) (id : VertexId) : Prop :=
  Relation.ReflTransGen (fun a b => b ∈ g.adjacency a) g.learnGraphEP id

lemma adjacency_lt {id w : VertexId} (hw : w ∈ g.adjacency id) : w.toNat < g.learnNum := by
  by_cases hlt : id.toNat < g.learnGraph.length
  · rw [adjacency, List.getD_eq_getElem?_getD, List.getElem?_eq_getElem hlt, Option.getD_some] at hw
    exact g.neighbor_lt _ (List.getElem_mem hlt) w hw
  · rw [adjacency, List.getD_eq_getElem?_getD, List.getElem?_eq_none (not_lt.mp hlt),
      Option.getD_none] at hw
    exact absurd hw List.not_mem_nil

lemma Reaches.lt {id : VertexId} (h : g.Reaches id) : id.toNat < g.learnNum := by
  cases h with
  | refl => exact g.entry_lt
  | tail _ hw => exact adjacency_lt hw

lemma injective_toNat : Function.Injective UInt32.toNat := fun _ _ hab => UInt32.toNat_inj.mp hab

lemma finite_reaches (g : LearnIndex) : {v | g.Reaches v}.Finite := by
  have hfin : {v : VertexId | v.toNat < g.learnNum}.Finite :=
    (Set.finite_lt_nat g.learnNum).preimage injective_toNat.injOn
  exact hfin.subset fun v hv => hv.lt

/-- No more vertices are reachable than there are. -/
lemma ncard_reaches_le (g : LearnIndex) : {v | g.Reaches v}.ncard ≤ g.learnNum := by
  have hsub : Set.image UInt32.toNat {v | g.Reaches v} ⊆ (Finset.range g.learnNum : Set ℕ) := by
    rintro _ ⟨v, hv, rfl⟩
    exact Finset.mem_coe.mpr (Finset.mem_range.mpr (Reaches.lt hv))
  have hcard := Set.ncard_le_ncard hsub (Finset.finite_toSet _)
  rwa [Set.ncard_image_of_injective _ injective_toNat, Set.ncard_coe_finset,
    Finset.card_range] at hcard

/-- **The slots hold a best selection** of the evaluated vertices, which are reachable, with their
distances and with the expanded ones unflagged; the evaluated vertices are the marked ones. -/
structure Retains (g : LearnIndex) (distance : Distance δ) (query : List UInt32) (cap : ℕ)
    (retset : List (Numaann.Neighbor δ)) (len : ℕ) (flags : List Bool)
    (evaluated expanded : List VertexId) : Prop where
  room : retset.length = cap + 1
  pos : 0 < len
  len_le : len ≤ cap
  honest : ∀ e ∈ retset.take len, e.distance = g.dist distance query e.id
  best : Best (g.dist distance query) cap evaluated.toFinset
    ((retset.take len).map Numaann.Neighbor.id)
  flag_iff : ∀ e ∈ retset.take len, e.flag = true ↔ e.id ∉ expanded
  flags_eq : ∀ v : VertexId, v.toNat < g.learnNum →
    flags[v.toNat]? = some (decide (v ∈ evaluated))
  reach : ∀ v ∈ evaluated, g.Reaches v
  nodup : evaluated.Nodup
  entry : g.learnGraphEP ∈ evaluated
  expanded_subset : ∀ v ∈ expanded, v ∈ evaluated

lemma Retains.lt (h : Retains g distance query cap retset len flags evaluated expanded)
    {v : VertexId} (hv : v ∈ evaluated) : v.toNat < g.learnNum := (h.reach v hv).lt

lemma Retains.length_live (h : Retains g distance query cap retset len flags evaluated expanded) :
    (retset.take len).length = len := by
  have hroom := h.room
  have hle := h.len_le
  rw [List.length_take, hroom]
  omega

lemma Retains.card_evaluated
    (h : Retains g distance query cap retset len flags evaluated expanded) :
    evaluated.toFinset.card = evaluated.length := List.toFinset_card_of_nodup h.nodup

/-- The retained entries were evaluated. -/
lemma Retains.mem_evaluated
    (h : Retains g distance query cap retset len flags evaluated expanded)
    {e : Numaann.Neighbor δ} (he : e ∈ retset.take len) : e.id ∈ evaluated :=
  List.mem_toFinset.mp (h.best.subset e.id (List.mem_map_of_mem he))

/-- The retained entries are sorted by distance. -/
lemma Retains.sorted (h : Retains g distance query cap retset len flags evaluated expanded) :
    (retset.take len).Pairwise fun a b => a.distance ≤ b.distance := by
  refine (List.pairwise_map.mp h.best.sorted).imp_of_mem fun {a b} ha hb hab => ?_
  rwa [h.honest a ha, h.honest b hb]

/-- A list of different learn vertices is no longer than the graph. -/
lemma length_le_learnNum {l : List VertexId} (hnodup : l.Nodup)
    (hlt : ∀ v ∈ l, v.toNat < g.learnNum) : l.length ≤ g.learnNum := by
  have hsub : (l.map UInt32.toNat).toFinset ⊆ Finset.range g.learnNum := by
    intro i hi
    obtain ⟨v, hv, rfl⟩ := List.mem_map.mp (List.mem_toFinset.mp hi)
    exact Finset.mem_range.mpr (hlt v hv)
  have hcard := Finset.card_le_card hsub
  rwa [List.toFinset_card_of_nodup (hnodup.map injective_toNat), List.length_map,
    Finset.card_range] at hcard

/-- What the loop over a list of neighbours has done: the slots below `nk` are as before, and the
evaluated vertices are those from before and the neighbours. -/
structure Scanned (t t' : LearnScan δ) (ids : List VertexId) : Prop where
  nk_le : t'.nk ≤ t.nk
  nk_nonneg : 0 ≤ t.nk → 0 ≤ t'.nk
  L_le : t.L ≤ t'.L
  below : ∀ i : ℕ, (i : ℤ) < t'.nk → t'.retset[i]? = t.retset[i]?
  mem_evaluated : ∀ w, w ∈ t'.evaluated ↔ w ∈ t.evaluated ∨ w ∈ ids

/-! ### Positions that are values of type `int` -/

/-- At most `2 ^ 30 + 1` candidates are retained, or at most `2 ^ 30 + 2` vertices have the property
`P`: then no more than `2 ^ 30 + 1` of them are retained when another one is inserted. -/
def FitsInt (cap : ℕ) (P : VertexId → Prop) : Prop :=
  cap ≤ 2 ^ 30 + 1 ∨ ∀ l : List VertexId, l.Nodup → (∀ v ∈ l, P v) → l.length ≤ 2 ^ 30 + 2

lemma FitsInt.mono {P Q : VertexId → Prop} (h : FitsInt cap P) (hQ : ∀ v, Q v → P v) :
    FitsInt cap Q :=
  h.imp_right fun hfew l hnodup hl => hfew l hnodup fun v hv => hQ v (hl v hv)

/-- The retained candidates are as many as the evaluated vertices, up to `cap`. -/
lemma Retains.len_eq (h : Retains g distance query cap retset len flags evaluated expanded) :
    len = min cap evaluated.length := by
  have hlen := h.best.length_eq
  rwa [List.length_map, h.length_live, h.card_evaluated] at hlen

lemma Retains.len_lt (h : Retains g distance query cap retset len flags evaluated expanded)
    (hfits : FitsInt cap fun v => v ∈ evaluated) : len ≤ 2 ^ 30 + 2 := by
  have hlen := h.len_eq
  rcases hfits with hcap | hfew
  · omega
  · have := hfew evaluated h.nodup fun v hv => hv
    omega

/-- Another vertex can be inserted. -/
lemma Retains.len_le_of_notMem
    (h : Retains g distance query cap retset len flags evaluated expanded) {id : VertexId}
    (hnot : id ∉ evaluated) (hfits : FitsInt cap fun v => v ∈ evaluated ∨ v = id) :
    len ≤ 2 ^ 30 + 1 := by
  have hlen := h.len_eq
  rcases hfits with hcap | hfew
  · omega
  · have := hfew (id :: evaluated) (List.nodup_cons.mpr ⟨hnot, h.nodup⟩) fun v hv =>
      (List.mem_cons.mp hv).symm
    rw [List.length_cons] at this
    omega

lemma intOf_of_le {n : ℕ} (h : n ≤ 2 ^ 30 + 2) : intOf n = n := by
  have hn : (UInt32.ofNat n).toNat = n := by
    rw [UInt32.toNat_ofNat', Nat.mod_eq_of_lt (by omega)]
  rw [intOf, SortedPool.toInt_of_lt (by omega), hn]

omit [LinearOrder δ] in
lemma slotAt_of_lt {i : ℕ} (h : i < retset.length) : slotAt retset i = .ok retset[i] := by
  rw [slotAt, SortedPool.entryAt_of_lt h]
  rfl

/-! ### One neighbour -/

/-- A vertex that is marked already. -/
lemma visit_of_mem {t : LearnScan δ}
    (h : Retains g distance query cap t.retset t.L t.flags t.evaluated expanded) {id : VertexId}
    (hid : id.toNat < g.learnNum) (hmem : id ∈ t.evaluated) :
    visit g distance query t id = .ok t := by
  have hflag := h.flags_eq id hid
  rw [decide_eq_true hmem] at hflag
  rw [visit, vertexAt, hflag]
  rfl

/-- Marking a vertex. -/
lemma Retains.flags_set (h : Retains g distance query cap retset len flags evaluated expanded)
    {id : VertexId} (hid : id.toNat < g.learnNum) (v : VertexId) (hv : v.toNat < g.learnNum) :
    (flags.set id.toNat true)[v.toNat]? = some (decide (v ∈ evaluated ++ [id])) := by
  have hlen : id.toNat < flags.length := by
    obtain ⟨hlt, -⟩ := List.getElem?_eq_some_iff.mp (h.flags_eq id hid)
    exact hlt
  rw [List.getElem?_set]
  by_cases hvid : v = id
  · subst hvid
    rw [if_pos rfl, if_pos hlen]
    simp
  · rw [if_neg fun heq => hvid (UInt32.toNat_inj.mp heq).symm, h.flags_eq v hv]
    simp [hvid]

/-- One more vertex is evaluated. -/
lemma toFinset_evaluated (evaluated : List VertexId) (id : VertexId) :
    (evaluated ++ [id]).toFinset = insert id evaluated.toFinset := by
  rw [List.toFinset_append, List.toFinset_cons, List.toFinset_nil, insert_empty_eq,
    Finset.union_singleton]

lemma Retains.reach_append
    (h : Retains g distance query cap retset len flags evaluated expanded) {id : VertexId}
    (hid : g.Reaches id) : ∀ v ∈ evaluated ++ [id], g.Reaches v := by
  intro v hv
  rcases List.mem_append.mp hv with hv | hv
  · exact h.reach v hv
  · rwa [List.mem_singleton.mp hv]

lemma Retains.nodup_append
    (h : Retains g distance query cap retset len flags evaluated expanded) {id : VertexId}
    (hnot : id ∉ evaluated) : (evaluated ++ [id]).Nodup := by
  rw [List.nodup_append_comm]
  exact List.nodup_cons.mpr ⟨hnot, h.nodup⟩

/-- A candidate is refused exactly when the list is full and it is at least as far as all of it. -/
lemma refuses_eq {t : LearnScan δ}
    (h : Retains g distance query cap t.retset t.L t.flags t.evaluated expanded) (dist : δ) :
    ∃ b, refuses t dist = .ok b ∧
      (b = true → t.L = cap ∧ ∀ e ∈ t.retset.take t.L, e.distance ≤ dist) := by
  have hroom := h.room
  have hpos := h.pos
  have hle := h.len_le
  have hlen := h.length_live
  rw [refuses]
  by_cases hfull : t.L + 1 = t.retset.length
  · have hlt : t.L - 1 < t.retset.length := by omega
    rw [if_pos hfull, slotAt_of_lt hlt]
    refine ⟨_, rfl, fun hb => ⟨by omega, fun e he => ?_⟩⟩
    have hlast : t.retset[t.L - 1].distance ≤ dist := of_decide_eq_true hb
    obtain ⟨j, hj, rfl⟩ := List.mem_iff_getElem.mp he
    rcases eq_or_lt_of_le (show j ≤ t.L - 1 by omega) with heq | hlt'
    · rw [List.getElem_take]
      simp only [heq]
      exact hlast
    · have hpair := List.pairwise_iff_getElem.mp h.sorted j (t.L - 1) hj (by omega) hlt'
      rw [List.getElem_take (i := t.L - 1)] at hpair
      exact hpair.trans hlast
  · rw [if_neg hfull]
    exact ⟨false, rfl, fun hb => absurd hb Bool.false_ne_true⟩

/-- Evaluating a vertex that is refused. -/
lemma Retains.refused (h : Retains g distance query cap retset len flags evaluated expanded)
    {id : VertexId} (hid : g.Reaches id) (hnot : id ∉ evaluated) (hfull : len = cap)
    (hfar : ∀ e ∈ retset.take len, e.distance ≤ g.dist distance query id) :
    Retains g distance query cap retset len (flags.set id.toNat true) (evaluated ++ [id])
      expanded where
  room := h.room
  pos := h.pos
  len_le := h.len_le
  honest := h.honest
  best := by
    rw [toFinset_evaluated]
    refine h.best.skip (fun hmem => hnot (List.mem_toFinset.mp hmem)) ?_ fun b hb => ?_
    · rw [List.length_map, h.length_live, hfull]
    · obtain ⟨e, he, rfl⟩ := List.mem_map.mp hb
      rw [← h.honest e he]
      exact hfar e he
  flag_iff := h.flag_iff
  flags_eq := h.flags_set hid.lt
  reach := h.reach_append hid
  nodup := h.nodup_append hnot
  entry := List.mem_append_left _ h.entry
  expanded_subset v hv := List.mem_append_left _ (h.expanded_subset v hv)

/-- Evaluating a vertex that is inserted at `r`. -/
lemma Retains.inserted (h : Retains g distance query cap retset len flags evaluated expanded)
    {id : VertexId} (hid : g.Reaches id) (hnot : id ∉ evaluated)
    {nn : Numaann.Neighbor δ} (hnn : nn = ⟨id, g.dist distance query id, true⟩) {r : ℕ}
    (hbelow : ∀ e ∈ (retset.take len).take r, e.distance ≤ nn.distance)
    (habove : ∀ e ∈ (retset.take len).drop r, nn.distance ≤ e.distance)
    {retset' : List (Numaann.Neighbor δ)}
    (hretset : retset' = ((retset.take len).take r ++ nn :: (retset.take len).drop r)
      ++ retset.drop (len + 1)) :
    Retains g distance query cap retset'
      (if len + 1 < retset'.length then len + 1 else len) (flags.set id.toNat true)
      (evaluated ++ [id]) expanded := by
  have hroom := h.room
  have hpos := h.pos
  have hle := h.len_le
  have hlive := h.length_live
  set live := retset.take len with hlivedef
  set ins := live.take r ++ nn :: live.drop r with hins
  have hperm : ins.Perm (nn :: live) := by
    refine List.perm_middle.trans (List.Perm.cons nn ?_)
    rw [List.take_append_drop]
  have hinslen : ins.length = len + 1 := by rw [hperm.length_eq, List.length_cons, hlive]
  have hroom' : retset'.length = cap + 1 := by
    rw [hretset, List.length_append, hinslen, List.length_drop, hroom]
    omega
  set len' := if len + 1 < retset'.length then len + 1 else len with hlen'
  have hlen'eq : len' = min cap (len + 1) := by
    rw [hlen', hroom']
    split_ifs <;> omega
  have htake : retset'.take len' = ins.take cap := by
    rw [hretset, List.take_append_of_le_length (by omega), hlen'eq, ← List.take_take,
      List.take_of_length_le hinslen.le]
  -- an entry afterwards is the new one or was retained before
  have hmem : ∀ e ∈ retset'.take len', e = nn ∨ e ∈ live := fun e he => by
    rw [htake] at he
    exact List.mem_cons.mp (hperm.mem_iff.mp (List.mem_of_mem_take he))
  have hnotS : id ∉ evaluated.toFinset := fun hmem' => hnot (List.mem_toFinset.mp hmem')
  have hids : (retset'.take len').map Numaann.Neighbor.id
      = ((live.map Numaann.Neighbor.id).take r
          ++ id :: (live.map Numaann.Neighbor.id).drop r).take cap := by
    rw [htake, List.map_take, hins, List.map_append, List.map_cons, List.map_take, List.map_drop,
      show nn.id = id by rw [hnn]]
  have hnndist : nn.distance = g.dist distance query id := by rw [hnn]
  refine
    { room := hroom'
      pos := by rw [hlen'eq]; omega
      len_le := by rw [hlen'eq]; omega
      honest := fun e he => ?_
      best := ?_
      flag_iff := fun e he => ?_
      flags_eq := h.flags_set hid.lt
      reach := h.reach_append hid
      nodup := h.nodup_append hnot
      entry := List.mem_append_left _ h.entry
      expanded_subset := fun v hv => List.mem_append_left _ (h.expanded_subset v hv) }
  · rcases hmem e he with rfl | he
    · rw [hnn]
    · exact h.honest e he
  · rw [hids, toFinset_evaluated]
    refine h.best.insert hnotS (fun b hb => ?_) fun b hb => ?_
    · rw [← List.map_take] at hb
      obtain ⟨e, he, rfl⟩ := List.mem_map.mp hb
      rw [← h.honest e (List.mem_of_mem_take he), ← hnndist]
      exact hbelow e he
    · rw [← List.map_drop] at hb
      obtain ⟨e, he, rfl⟩ := List.mem_map.mp hb
      rw [← h.honest e (List.mem_of_mem_drop he), ← hnndist]
      exact habove e he
  · rcases hmem e he with rfl | he
    · rw [hnn]
      exact iff_of_true rfl fun hexp => hnot (h.expanded_subset id hexp)
    · exact h.flag_iff e he

/-- **One round of the loop over neighbours.** -/
lemma visit_spec {t : LearnScan δ}
    (h : Retains g distance query cap t.retset t.L t.flags t.evaluated expanded) {id : VertexId}
    (hid : g.Reaches id) (hfits : FitsInt cap fun v => v ∈ t.evaluated ∨ v = id) :
    ∃ t', visit g distance query t id = .ok t' ∧
      Retains g distance query cap t'.retset t'.L t'.flags t'.evaluated expanded ∧
      Scanned t t' [id] := by
  by_cases hmem : id ∈ t.evaluated
  · refine ⟨t, visit_of_mem h hid.lt hmem, h, le_rfl, fun hnk => hnk, le_rfl, fun _ _ => rfl,
      fun w => ?_⟩
    rw [List.mem_singleton]
    exact ⟨Or.inl, fun hw => hw.elim (fun hw => hw) fun hw => hw ▸ hmem⟩
  have hflag := h.flags_eq id hid.lt
  rw [decide_eq_false hmem] at hflag
  have hdist : distance.compare query (g.vector id) = g.dist distance query id := by
    have hne : id ≠ g.learnGraphEP := fun heq => hmem (heq ▸ h.entry)
    rw [dist, if_neg hne]
  have hevaluated : ∀ w, w ∈ t.evaluated ++ [id] ↔ w ∈ t.evaluated ∨ w ∈ [id] := fun w =>
    List.mem_append
  obtain ⟨b, hb, hfull⟩ := refuses_eq h (g.dist distance query id)
  rw [visit, vertexAt, hflag]
  simp only [bind, Except.bind, Bool.false_eq_true, if_false]
  rw [hdist, hb]
  cases b with
  | true =>
      obtain ⟨hcap, hfar⟩ := hfull rfl
      exact ⟨_, rfl, h.refused hid hmem hcap hfar, le_rfl, fun hnk => hnk, le_rfl, fun _ _ => rfl,
        hevaluated⟩
  | false =>
      have hroom := h.room
      have hle := h.len_le
      have hlt : t.L < t.retset.length := by omega
      have hsmall := h.len_le_of_notMem hmem hfits
      have hK : (UInt32.ofNat t.L).toNat = t.L := by
        rw [UInt32.toNat_ofNat', Nat.mod_eq_of_lt (by omega)]
      set nn : Numaann.Neighbor δ := ⟨id, g.dist distance query id, true⟩ with hnn
      -- the id is new, so it is put where it keeps the order
      have hfresh : ∀ e ∈ t.retset.take t.L, e.id ≠ nn.id := fun e he heq => hmem (by
        rw [← show e.id = id from heq]
        exact h.mem_evaluated he)
      have hkeeps : SortedPool.KeepsSorted Numaann.Neighbor.distance Numaann.Neighbor.id
          (SortedPool.insertIntoPool (δ := δ)) (UInt32.ofNat t.L) :=
        SortedPool.keepsSorted_of_le (hK.symm ▸ h.pos) (hK.symm ▸ hsmall)
      obtain ⟨r, retset', hinsert, hput⟩ := (hkeeps t.retset nn (hK.symm ▸ hlt)
        (by rw [hK]; exact h.sorted)
        (by rw [hK]; exact fun e he heq => absurd heq (hfresh e he))).2
        (by rw [hK]; exact fun ⟨e, he, heq⟩ => hfresh e he heq)
      rw [hK] at hput
      obtain ⟨hbelow, habove⟩ := hput.between hlt
      have hrun : (SortedPool.insertIntoPool t.retset (UInt32.ofNat t.L) nn).mapError Stop.pool
          = .ok ((r : ℤ), retset') := by
        rw [hinsert]
        rfl
      simp only [hrun, Bool.false_eq_true, if_false]
      refine ⟨_, rfl, h.inserted hid hmem hnn hbelow habove (hput.eq_append hlt), ?_, fun hnk => ?_,
        ?_, fun i hi => ?_, hevaluated⟩
      · show (if (r : ℤ) < t.nk then (r : ℤ) else t.nk) ≤ t.nk
        split_ifs <;> omega
      · show 0 ≤ if (r : ℤ) < t.nk then (r : ℤ) else t.nk
        split_ifs <;> omega
      · show t.L ≤ if t.L + 1 < _ then t.L + 1 else t.L
        split_ifs <;> omega
      · refine hput.before i ?_
        have hnk : (i : ℤ) < if (r : ℤ) < t.nk then (r : ℤ) else t.nk := hi
        split_ifs at hnk <;> omega

/-- **The loop over the neighbours of a vertex.** -/
lemma foldlM_visit {ids : List VertexId} (hids : ∀ id ∈ ids, g.Reaches id)
    {t : LearnScan δ} (hfits : FitsInt cap fun v => v ∈ t.evaluated ∨ v ∈ ids)
    (h : Retains g distance query cap t.retset t.L t.flags t.evaluated expanded) :
    ∃ t', ids.foldlM (visit g distance query) t = .ok t' ∧
      Retains g distance query cap t'.retset t'.L t'.flags t'.evaluated expanded ∧
      Scanned t t' ids := by
  induction ids generalizing t with
  | nil => exact ⟨t, rfl, h, le_rfl, fun hnk => hnk, le_rfl, fun _ _ => rfl, fun w => by simp⟩
  | cons id ids ih =>
      obtain ⟨t₁, hvisit, h₁, hscan₁⟩ := visit_spec h (hids id List.mem_cons_self)
        (hfits.mono fun v hv => hv.imp_right fun heq => by
          rw [heq]
          exact List.mem_cons_self)
      have hfits₁ : FitsInt cap fun v => v ∈ t₁.evaluated ∨ v ∈ ids := hfits.mono fun v hv => by
        rwa [hscan₁.mem_evaluated, List.mem_singleton, or_assoc, ← List.mem_cons] at hv
      obtain ⟨t', hrest, h', hscan'⟩ :=
        ih (fun id' hid' => hids id' (List.mem_cons_of_mem _ hid')) hfits₁ h₁
      refine ⟨t', ?_, h', hscan'.nk_le.trans hscan₁.nk_le,
        fun hnk => hscan'.nk_nonneg (hscan₁.nk_nonneg hnk), hscan₁.L_le.trans hscan'.L_le,
        fun i hi => ?_, fun w => ?_⟩
      · rw [List.foldlM_cons, hvisit]
        exact hrest
      · rw [hscan'.below i hi, hscan₁.below i (lt_of_lt_of_le hi hscan'.nk_le)]
      · rw [hscan'.mem_evaluated, hscan₁.mem_evaluated, List.mem_singleton, List.mem_cons, or_assoc]

/-- Expanding the entry at `k`: it is unflagged and joins the expanded vertices. -/
lemma Retains.expand (h : Retains g distance query cap retset len flags evaluated expanded)
    {k : ℕ} (hk : k < len) {entry : Numaann.Neighbor δ} (hentry : retset[k]? = some entry) :
    Retains g distance query cap (retset.set k { entry with flag := false }) len flags evaluated
      (expanded ++ [entry.id]) := by
  have hmem : entry ∈ retset.take len :=
    List.mem_of_getElem? (by rw [List.getElem?_take_of_lt hk, hentry])
  have hlive : (retset.set k { entry with flag := false }).take len
      = (retset.take len).set k { entry with flag := false } := List.take_set
  have hids : ((retset.take len).set k { entry with flag := false }).map Numaann.Neighbor.id
      = (retset.take len).map Numaann.Neighbor.id := by
    refine List.ext_getElem? fun j => ?_
    rw [List.map_set, List.getElem?_set, List.getElem?_map]
    split_ifs with hjk hlen
    · rw [← hjk, List.getElem?_take_of_lt hk, hentry]
      rfl
    · rw [← hjk, List.getElem?_take_of_lt hk, hentry]
      rw [List.length_map, h.length_live] at hlen
      exact absurd hk hlen
    · rfl
  have hids' : ∀ e ∈ (retset.take len).set k { entry with flag := false },
      e = { entry with flag := false } ∨ (e ∈ retset.take len ∧ e.id ≠ entry.id) := by
    intro e he
    obtain ⟨j, hj, rfl⟩ := List.mem_iff_getElem.mp he
    rw [List.getElem_set]
    split_ifs with hkj
    · exact Or.inl rfl
    · rw [List.length_set] at hj
      refine Or.inr ⟨List.getElem_mem hj, fun heq => hkj ?_⟩
      have hk' : k < (retset.take len).length := by rw [h.length_live]; exact hk
      have hentry' : (retset.take len)[k] = entry := by
        have hget := List.getElem?_eq_getElem hk'
        rw [List.getElem?_take_of_lt hk, hentry] at hget
        exact (Option.some.inj hget).symm
      have hinj := List.pairwise_map.mp h.best.nodup
      by_contra hne
      rcases Nat.lt_or_gt_of_ne hne with hlt | hgt
      · exact List.pairwise_iff_getElem.mp hinj k j hk' hj hlt (by rw [heq, hentry'])
      · exact List.pairwise_iff_getElem.mp hinj j k hj hk' hgt (by rw [heq, hentry'])
  refine
    { room := by rw [List.length_set, h.room]
      pos := h.pos
      len_le := h.len_le
      honest := fun e he => ?_
      best := by rw [hlive, hids]; exact h.best
      flag_iff := fun e he => ?_
      flags_eq := h.flags_eq
      reach := h.reach
      nodup := h.nodup
      entry := h.entry
      expanded_subset := fun v hv => ?_ }
  · rw [hlive] at he
    rcases hids' e he with rfl | ⟨he, -⟩
    · exact h.honest entry hmem
    · exact h.honest e he
  · rw [hlive] at he
    rcases hids' e he with rfl | ⟨he, hne⟩
    · simp
    · rw [h.flag_iff e he, List.mem_append, List.mem_singleton, or_iff_left hne]
  · rcases List.mem_append.mp hv with hv | hv
    · exact h.expanded_subset v hv
    · rw [List.mem_singleton.mp hv]
      exact h.mem_evaluated hmem

/-- **The invariant at the head of the loop**: all entries before `k` are expanded, and the
evaluated vertices hold the out-neighbours of the expanded ones. -/
structure Inv (g : LearnIndex) (distance : Distance δ) (query : List UInt32) (cap : ℕ)
    (s : LearnState δ) : Prop where
  retains : Retains g distance query cap s.retset s.L s.flags s.evaluated s.expanded
  k_nonneg : 0 ≤ s.k
  k_le : s.k ≤ s.L
  before : ∀ i : ℕ, (i : ℤ) < s.k → ∀ e, s.retset[i]? = some e → e.flag = false
  expanded_nodup : s.expanded.Nodup
  neighbors : ∀ v ∈ s.expanded, ∀ w ∈ g.adjacency v, w ∈ s.evaluated

/-- How far the search is from its end: expansions left, and entries behind `k`. -/
def roundsLeft (g : LearnIndex) (s : LearnState δ) : ℕ :=
  (g.learnNum - s.expanded.length) * (g.learnNum + 1) + (s.L - s.k.toNat)

lemma Inv.L_le (h : Inv g distance query cap s) : s.L ≤ g.learnNum := by
  have hlen := h.retains.len_eq
  have hle := length_le_learnNum h.retains.nodup fun v hv => h.retains.lt hv
  omega

/-- The condition of the loop. -/
lemma Inv.intOf_L (h : Inv g distance query cap s) (hfits : FitsInt cap g.Reaches) :
    intOf s.L = s.L :=
  intOf_of_le (h.retains.len_lt (hfits.mono h.retains.reach))

/-- The list of a learn vertex. -/
lemma vertexAt_learnGraph {id : VertexId} (hid : id.toNat < g.learnNum) :
    vertexAt g.learnGraph id = .ok (g.adjacency id) := by
  have hlt : id.toNat < g.learnGraph.length := by rwa [g.length_eq]
  rw [vertexAt, adjacency, List.getD_eq_getElem?_getD, List.getElem?_eq_getElem hlt,
    Option.getD_some]

/-- **One round of the main loop** under the invariant: it leaves no slot, keeps the invariant and
brings the end nearer. -/
lemma learnStep_spec (hfits : FitsInt cap g.Reaches) (h : Inv g distance query cap s)
    (hk : s.k < intOf s.L) :
    ∃ s', learnStep g distance query s = .ok s' ∧ Inv g distance query cap s' ∧
      roundsLeft g s' < roundsLeft g s := by
  have hroom := h.retains.room
  have hle := h.retains.len_le
  have hint := h.intOf_L hfits
  rw [hint] at hk
  -- the position is a natural number
  obtain ⟨k, hkk⟩ := Int.eq_ofNat_of_zero_le h.k_nonneg
  have hkL : k < s.L := by omega
  have hklt : k < s.retset.length := by omega
  have hpos : (SortedPool.position s.k).mapError Stop.pool = .ok k := by
    rw [hkk, SortedPool.position_natCast]
    rfl
  have hget := List.getElem?_eq_getElem hklt
  set entry := s.retset[k] with hentry
  have hmem : entry ∈ s.retset.take s.L :=
    List.mem_of_getElem? (by rw [List.getElem?_take_of_lt hkL, hget])
  rw [learnStep, hpos, ok_bind, hint, slotAt_of_lt hklt, ← hentry]
  simp only [bind, Except.bind]
  cases hflag : entry.flag with
  | false =>
      -- the entry is expanded already: `k` moves on
      have hnk : ¬ (s.L : ℤ) ≤ s.k := not_le.mpr hk
      simp only [Bool.false_eq_true, if_false, if_neg hnk]
      refine ⟨_, rfl, ⟨h.retains, by show 0 ≤ s.k + 1; omega, hk, fun i hi e he => ?_,
        h.expanded_nodup, h.neighbors⟩, ?_⟩
      · have hi' : (i : ℤ) < s.k + 1 := hi
        rcases Nat.lt_succ_iff_lt_or_eq.mp (show i < k + 1 by omega) with hi | rfl
        · exact h.before i (by omega) e he
        · obtain rfl := Option.some.inj (hget.symm.trans he)
          exact hflag
      · show (g.learnNum - s.expanded.length) * (g.learnNum + 1) + (s.L - (s.k + 1).toNat) < _
        rw [roundsLeft]
        omega
  | true =>
      -- the entry is expanded, and `k` jumps back to the first insertion
      have hnew : entry.id ∉ s.expanded := (h.retains.flag_iff entry hmem).mp hflag
      have hreach := h.retains.reach _ (h.retains.mem_evaluated hmem)
      have hneighbors : ∀ w ∈ g.adjacency entry.id, g.Reaches w := fun w hw => hreach.tail hw
      obtain ⟨t, hfold, hretains, hscan⟩ := foldlM_visit hneighbors
        (t := ⟨s.retset.set k { entry with flag := false }, s.L, s.L, s.flags, s.evaluated⟩)
        (hfits.mono fun v hv => hv.elim (h.retains.reach v) (hneighbors v))
        (h.retains.expand hkL hget)
      have hnkL : t.nk ≤ (s.L : ℤ) := hscan.nk_le
      have hnk0 : 0 ≤ t.nk := hscan.nk_nonneg (Int.natCast_nonneg _)
      have hLL : s.L ≤ t.L := hscan.L_le
      simp only [if_true, vertexAt_learnGraph hreach.lt]
      refine ⟨_, by rw [hfold], ?_⟩
      have hinv : Inv g distance query cap
          { retset := t.retset
            L := t.L
            k := if t.nk ≤ s.k then t.nk else s.k + 1
            flags := t.flags
            evaluated := t.evaluated
            expanded := s.expanded ++ [entry.id] } := by
        refine ⟨hretains, ?_, ?_, fun i hi e he => ?_, ?_, fun v hv w hw => ?_⟩
        · show 0 ≤ if t.nk ≤ s.k then t.nk else s.k + 1
          split_ifs <;> omega
        · show (if t.nk ≤ s.k then t.nk else s.k + 1) ≤ (t.L : ℤ)
          split_ifs <;> omega
        · have hik : (i : ℤ) < t.nk ∧ i ≤ k := by
            have hi' : (i : ℤ) < if t.nk ≤ s.k then t.nk else s.k + 1 := hi
            split_ifs at hi' <;> omega
          have hslot := (hscan.below i hik.1).symm.trans he
          rw [List.getElem?_set] at hslot
          split_ifs at hslot with hki
          · rw [← Option.some.inj hslot]
          · exact h.before i (by omega) e hslot
        · rw [List.nodup_append_comm]
          exact List.nodup_cons.mpr ⟨hnew, h.expanded_nodup⟩
        · refine (hscan.mem_evaluated w).mpr ?_
          rcases List.mem_append.mp hv with hv | hv
          · exact Or.inl (h.neighbors v hv w hw)
          · rw [List.mem_singleton.mp hv] at hw
            exact Or.inr hw
      refine ⟨hinv, ?_⟩
      have hbound := hinv.L_le
      have hexpanded : s.expanded.length + 1 ≤ g.learnNum := by
        have hlen := length_le_learnNum hinv.expanded_nodup fun v hv =>
          hinv.retains.lt (hinv.retains.expanded_subset v hv)
        rwa [List.length_append, List.length_singleton] at hlen
      obtain ⟨m, hm⟩ := Nat.exists_eq_add_of_le hexpanded
      have hleft : g.learnNum - s.expanded.length = m + 1 := by omega
      have hleft' : g.learnNum - (s.expanded ++ [entry.id]).length = m := by
        rw [List.length_append, List.length_singleton]
        omega
      show (g.learnNum - (s.expanded ++ [entry.id]).length) * (g.learnNum + 1)
          + (t.L - (if t.nk ≤ s.k then t.nk else s.k + 1).toNat) < _
      rw [roundsLeft, hleft', hleft, Nat.add_one_mul]
      have htL : t.L ≤ g.learnNum := hbound
      omega

/-- The state before the main loop. -/
lemma inv_learnStart [Inhabited δ] (hcap : 0 < cap) :
    Inv g distance query cap (learnStart g distance query cap) := by
  have hentry : g.dist distance query g.learnGraphEP
      = distance.compare (g.vector g.learnGraphEP) query := if_pos rfl
  have hlive : (learnStart g distance query cap).retset.take 1
      = [⟨g.learnGraphEP, distance.compare (g.vector g.learnGraphEP) query, true⟩] := by
    rw [learnStart, List.replicate_succ]
    rfl
  refine
    { retains :=
        { room := by rw [learnStart, List.length_set, List.length_replicate]
          pos := Nat.one_pos
          len_le := hcap
          honest := fun e he => ?_
          best := ?_
          flag_iff := fun e he => ?_
          flags_eq := fun v hv => ?_
          reach := fun v hv => ?_
          nodup := List.nodup_singleton _
          entry := List.mem_singleton_self _
          expanded_subset := fun v hv => absurd hv List.not_mem_nil }
      k_nonneg := le_rfl
      k_le := Int.natCast_nonneg _
      before := fun i hi => absurd hi (Int.natCast_nonneg i).not_gt
      expanded_nodup := List.nodup_nil
      neighbors := fun v hv => absurd hv List.not_mem_nil }
  · rw [show (learnStart g distance query cap).L = 1 from rfl, hlive, List.mem_singleton] at he
    rw [he]
    exact hentry.symm
  · rw [show (learnStart g distance query cap).L = 1 from rfl, hlive]
    exact Best.singleton hcap g.learnGraphEP
  · rw [show (learnStart g distance query cap).L = 1 from rfl, hlive, List.mem_singleton] at he
    rw [he]
    exact iff_of_true rfl List.not_mem_nil
  · show ((List.replicate g.learnNum false).set g.learnGraphEP.toNat true)[v.toNat]?
      = some (decide (v ∈ [g.learnGraphEP]))
    rw [List.getElem?_set]
    by_cases hv' : v = g.learnGraphEP
    · subst hv'
      rw [if_pos rfl, if_pos (by rwa [List.length_replicate])]
      simp
    · rw [if_neg fun heq => hv' (UInt32.toNat_inj.mp heq).symm, List.getElem?_replicate, if_pos hv]
      simp [hv']
  · rw [List.mem_singleton.mp hv]
    exact Relation.ReflTransGen.refl

/-- As many rounds as the search can make. -/
def rounds (g : LearnIndex) : ℕ := g.learnNum * (g.learnNum + 1) + 1

/-- **The search ends**, in one state however many rounds it is given, with all entries expanded. -/
lemma exists_learnLoop (g : LearnIndex) (distance : Distance δ) (query : List UInt32)
    [Inhabited δ] (hcap : 0 < cap) (hfits : FitsInt cap g.Reaches) :
    ∃ s, (∀ n, g.rounds ≤ n → g.learnLoop distance query cap n = .ok s) ∧
      Inv g distance query cap s ∧ s.k = s.L := by
  have hround : ∀ s, Inv g distance query cap s → goesOn s = true →
      ∃ s', learnStep g distance query s = .ok s' ∧ Inv g distance query cap s' ∧
        roundsLeft g s' < roundsLeft g s := fun s h hk =>
    learnStep_spec hfits h (of_decide_eq_true hk)
  have hstart : Inv g distance query cap (learnStart g distance query cap) := inv_learnStart hcap
  have hrounds : roundsLeft g (learnStart g distance query cap) = g.rounds := rfl
  obtain ⟨s, hs, hinv⟩ := whileLoopM_total
    (fun s h hk => by
      obtain ⟨s', hs', hinv, -⟩ := hround s h hk
      exact ⟨s', hs', hinv⟩) hstart g.rounds
  have hexit := whileLoopM_exits (roundsLeft g) hround hstart hrounds.le hs
  refine ⟨s, fun n hn => ?_, hinv, ?_⟩
  · obtain ⟨m, rfl⟩ := Nat.exists_eq_add_of_le hn
    rw [learnLoop, whileLoopM_add, hs, ok_bind, whileLoopM_of_false hexit]
  · have hend := of_decide_eq_false hexit
    rw [hinv.intOf_L hfits] at hend
    exact le_antisymm hinv.k_le (not_lt.mp hend)

/-- A search that has ended with room for all evaluated vertices has evaluated every reachable
one. -/
lemma Inv.reach_evaluated (h : Inv g distance query cap s) (hk : s.k = (s.L : ℤ))
    (hroom : s.evaluated.length ≤ cap) {v : VertexId} (hv : g.Reaches v) : v ∈ s.evaluated := by
  induction hv with
  | refl => exact h.retains.entry
  | @tail u w _ hw ih =>
      have hcard : s.evaluated.toFinset.card ≤ cap := by
        rwa [h.retains.card_evaluated]
      have hlive := h.retains.best.mem_of_card_le hcard (List.mem_toFinset.mpr ih)
      obtain ⟨e, he, rfl⟩ := List.mem_map.mp hlive
      obtain ⟨i, hi, hei⟩ := List.mem_iff_getElem.mp he
      have hi' : i < s.L := by rwa [h.retains.length_live] at hi
      have hget : s.retset[i]? = some e := by
        rw [← hei, ← List.getElem?_eq_getElem hi, List.getElem?_take_of_lt hi']
      have hflag := h.before i (by omega) e hget
      have hexp : e.id ∈ s.expanded := by
        by_contra hnot
        rw [(h.retains.flag_iff e he).mpr hnot] at hflag
        exact absurd hflag (by decide)
      exact h.neighbors e.id hexp w hw

/-- **The answer of the search.** It ends without leaving its slots; all retained candidates are
expanded and sorted by distance, no other evaluated vertex is closer than one of them, and the
returned vertex is reachable and at minimum distance among the evaluated vertices, so it is a
nearest reachable one if there is room for all of these. -/
structure LearnAnswer (g : LearnIndex) (distance : Distance δ) (query : List UInt32) (L : ℕ)
    (s : LearnState δ) (id : VertexId) : Prop where
  slots : s.retset.length = L + 1
  expanded : ∀ e ∈ s.retained, e.flag = false ∧ e.id ∈ s.expanded
  sorted : s.retained.Pairwise fun a b => a.distance ≤ b.distance
  honest : ∀ e ∈ s.retained, e.id ∈ s.evaluated ∧ e.distance = g.dist distance query e.id
  rest : ∀ v ∈ s.evaluated, v ∉ s.retained.map Numaann.Neighbor.id →
    ∀ e ∈ s.retained, e.distance ≤ g.dist distance query v
  reaches : ∀ v ∈ s.evaluated, g.Reaches v
  mem : id ∈ s.evaluated
  nearest : ∀ v ∈ s.evaluated, g.dist distance query id ≤ g.dist distance query v
  exact : {v | g.Reaches v}.ncard ≤ L →
    ∀ v, g.Reaches v → g.dist distance query id ≤ g.dist distance query v

/-- **The search returns the best learn vertex it has seen**: it ends, without leaving its slots, in
one state however many rounds it is given. -/
def ReturnsBest [Inhabited δ] (g : LearnIndex) (distance : Distance δ) (query : List UInt32)
    (L : ℕ) : Prop :=
  ∃ s id, (∀ n, g.rounds ≤ n → g.learnLoop distance query L n = .ok s) ∧
    (∀ n, g.rounds ≤ n → g.beamSearchLearnGraph distance query L n = .ok id) ∧
    LearnAnswer g distance query L s id

/-- **With positions of type `int`** the search returns the best learn vertex it has seen. -/
lemma returnsBest [Inhabited δ] (g : LearnIndex) (distance : Distance δ) (query : List UInt32)
    {L : ℕ} (hL : 0 < L) (hfits : FitsInt L g.Reaches) : g.ReturnsBest distance query L := by
  obtain ⟨s, hs, hinv, hk⟩ := exists_learnLoop g distance query hL hfits
  have hpos := hinv.retains.pos
  have hroom := hinv.retains.room
  have hle := hinv.retains.len_le
  have hmem : ∀ e ∈ s.retained, e.id ∈ s.evaluated := fun e he => hinv.retains.mem_evaluated he
  have hflags : ∀ e ∈ s.retained, e.flag = false := by
    intro e he
    obtain ⟨i, hi, hei⟩ := List.mem_iff_getElem.mp he
    have hi' : i < s.L := lt_of_lt_of_eq hi hinv.retains.length_live
    refine hinv.before i (by omega) e ?_
    rw [← hei, ← List.getElem?_take_of_lt hi']
    exact List.getElem?_eq_getElem hi
  obtain ⟨best, rest, hret⟩ : ∃ best rest, s.retset = best :: rest :=
    List.exists_cons_of_length_pos (by omega)
  have hretained : s.retained = best :: rest.take (s.L - 1) := by
    rw [LearnState.retained, hret, ← Nat.succ_pred_eq_of_pos hpos]
    rfl
  have hids := hinv.retains.best
  rw [show s.retset.take s.L = best :: rest.take (s.L - 1) from hretained, List.map_cons] at hids
  have hnearest : ∀ v ∈ s.evaluated,
      g.dist distance query best.id ≤ g.dist distance query v := fun v hv =>
    hids.head_le (List.mem_toFinset.mpr hv)
  refine ⟨s, best.id, hs, fun n hn => ?_, hroom, fun e he => ⟨hflags e he, ?_⟩,
    hinv.retains.sorted, fun e he => ⟨hmem e he, hinv.retains.honest e he⟩,
    fun v hv hnot e he => ?_, hinv.retains.reach, ?_, hnearest, fun hcard v hv => ?_⟩
  · have hslot : slotAt s.retset 0 = .ok best := by
      rw [slotAt, SortedPool.entryAt, hret]
      rfl
    rw [beamSearchLearnGraph, hs n hn, ok_bind, hslot]
    rfl
  · by_contra hnot
    have hflag := (hinv.retains.flag_iff e he).mpr hnot
    rw [hflags e he] at hflag
    exact absurd hflag (by decide)
  · rw [hinv.retains.honest e he]
    exact hinv.retains.best.rest v (List.mem_toFinset.mpr hv) hnot _ (List.mem_map_of_mem he)
  · exact hmem best (by rw [hretained]; exact List.mem_cons_self)
  · refine hnearest v (hinv.reach_evaluated hk ?_ hv)
    have hsub : (s.evaluated.toFinset : Set VertexId) ⊆ {v | g.Reaches v} := fun w hw =>
      hinv.retains.reach w (List.mem_toFinset.mp hw)
    have hcount := Set.ncard_le_ncard hsub g.finite_reaches
    rw [Set.ncard_coe_finset, hinv.retains.card_evaluated] at hcount
    exact hcount.trans hcard

end Invariant

/-! ### A graph on which the positions do not fit -/

section Star

variable {n L : ℕ}

/-- The vertices `1` to `n`. -/
def starIds (n : ℕ) : List VertexId := (List.range n).map fun i => UInt32.ofNat (i + 1)

lemma mem_starIds (hn : n < 2 ^ 32) {v : VertexId} :
    v ∈ starIds n ↔ 0 < v.toNat ∧ v.toNat ≤ n := by
  rw [starIds, List.mem_map]
  constructor
  · rintro ⟨i, hi, rfl⟩
    have hlt := List.mem_range.mp hi
    rw [UInt32.toNat_ofNat', Nat.mod_eq_of_lt (by omega)]
    omega
  · rintro ⟨hpos, hle⟩
    refine ⟨v.toNat - 1, List.mem_range.mpr (by omega), ?_⟩
    rw [Nat.sub_add_cancel hpos, UInt32.ofNat_toNat]

/-- An entry point with the coordinate one, and `n` out-neighbours with the coordinate zero. -/
def star (n : ℕ) (hn : n < 2 ^ 32) : LearnIndex where
  learnNum := n + 1
  dimension := 1
  learnData := 1 :: List.replicate n 0
  learnGraph := starIds n :: List.replicate n []
  learnGraphEP := 0
  length_eq := by rw [List.length_cons, List.length_replicate]
  degree_lt ids hids := by
    rcases List.mem_cons.mp hids with rfl | hids
    · rwa [starIds, List.length_map, List.length_range]
    · rw [List.eq_of_mem_replicate hids]
      exact Nat.two_pow_pos 32
  neighbor_lt ids hids id hid := by
    rcases List.mem_cons.mp hids with rfl | hids
    · exact Nat.lt_succ_of_le ((mem_starIds hn).mp hid).2
    · rw [List.eq_of_mem_replicate hids] at hid
      exact absurd hid List.not_mem_nil
  entry_lt := Nat.succ_pos n

/-- The squared distance of whole numbers. -/
def wholeL2 : Distance ℚ := distanceL2 fun w => (w.toNat : ℚ)

variable (hn : n < 2 ^ 32)

lemma dist_star_entry : (star n hn).dist wholeL2 [0] 0 = 1 := by
  have hdist : wholeL2.compare [1] [0] = 1 := by decide +kernel
  exact (if_pos rfl).trans hdist

lemma dist_star {v : VertexId} (hpos : 0 < v.toNat) (hle : v.toNat ≤ n) :
    (star n hn).dist wholeL2 [0] v = 0 := by
  have hne : v ≠ (star n hn).learnGraphEP := by
    rintro rfl
    exact absurd hpos (lt_irrefl 0)
  have hvector : (star n hn).vector v = [0] := by
    obtain ⟨m, hm⟩ : ∃ m, v.toNat = m + 1 := ⟨v.toNat - 1, by omega⟩
    have hdrop : (star n hn).vector v = ((List.replicate n (0 : UInt32)).drop m).take 1 := by
      rw [vector, hm, show (star n hn).dimension = 1 from rfl, one_mul]
      rfl
    rw [hdrop, List.drop_replicate, List.take_replicate, min_eq_left (by omega)]
    rfl
  have hdist : wholeL2.compare [0] [0] = 0 := by decide +kernel
  rw [dist, if_neg hne, hvector, hdist]

lemma reaches_star {v : VertexId} (hle : v.toNat ≤ n) : (star n hn).Reaches v := by
  rcases Nat.eq_zero_or_pos v.toNat with hzero | hpos
  · rw [show v = 0 from UInt32.toNat_inj.mp hzero]
    exact Relation.ReflTransGen.refl
  · exact Relation.ReflTransGen.single ((mem_starIds hn).mpr ⟨hpos, hle⟩)

variable {hn} {t : LearnScan ℚ} {expanded : List VertexId}

/-- The entry point is behind the other candidates. -/
lemma ids_star (h : Retains (star n hn) wholeL2 [0] L t.retset t.L t.flags t.evaluated expanded)
    (hroom : t.evaluated.length ≤ L) :
    ∃ l, (t.retset.take t.L).map Numaann.Neighbor.id = l ++ [0] ∧ (0 : VertexId) ∉ l := by
  have hcard : t.evaluated.toFinset.card ≤ L := by
    rwa [h.card_evaluated]
  have hentry : (0 : VertexId) ∈ (t.retset.take t.L).map Numaann.Neighbor.id :=
    h.best.mem_of_card_le hcard (List.mem_toFinset.mpr h.entry)
  obtain ⟨l, l', hids⟩ := List.append_of_mem hentry
  have hnodup := h.best.nodup
  have hsorted := h.best.sorted
  rw [hids, List.nodup_append] at hnodup
  rw [hids, List.pairwise_append, List.pairwise_cons] at hsorted
  obtain ⟨-, hnodup', hdisjoint⟩ := hnodup
  have hnil : l' = [] := by
    refine List.eq_nil_iff_forall_not_mem.mpr fun w hw => ?_
    -- behind the entry point there is no room for a distance of zero
    have hle := hsorted.2.1.1 w hw
    have hne : w ≠ 0 := fun heq => (List.nodup_cons.mp hnodup').1 (heq ▸ hw)
    have hpos : 0 < w.toNat := Nat.pos_of_ne_zero fun hzero => hne (UInt32.toNat_inj.mp hzero)
    have hmem : w ∈ t.evaluated := List.mem_toFinset.mp (h.best.subset w (by rw [hids]; simp [hw]))
    rw [dist_star_entry, dist_star hn hpos (Nat.le_of_lt_succ (h.lt hmem))] at hle
    exact absurd hle (by norm_num)
  exact ⟨l, by rw [hids, hnil], fun hmem => hdisjoint 0 hmem 0 List.mem_cons_self rfl⟩

/-- All candidates but the last one are at distance zero. -/
lemma distance_star
    (h : Retains (star n hn) wholeL2 [0] L t.retset t.L t.flags t.evaluated expanded)
    (hroom : t.evaluated.length ≤ L) {i : ℕ} (hi : i < t.L) {e : Numaann.Neighbor ℚ}
    (he : t.retset[i]? = some e) : e.distance = if i = t.L - 1 then 1 else 0 := by
  obtain ⟨l, hids, hnot⟩ := ids_star h hroom
  have hlen : l.length + 1 = t.L := by
    have hlen := congrArg List.length hids
    rw [List.length_map, h.length_live, List.length_append, List.length_singleton] at hlen
    exact hlen.symm
  have hlive : (t.retset.take t.L)[i]? = some e := by rw [List.getElem?_take_of_lt hi, he]
  have hmem : e ∈ t.retset.take t.L := List.mem_of_getElem? hlive
  have hid : (l ++ [0])[i]? = some e.id := by rw [← hids, List.getElem?_map, hlive]; rfl
  rw [h.honest e hmem]
  split_ifs with hlast
  · rw [List.getElem?_append_right (by omega), show i - l.length = 0 by omega] at hid
    rw [← Option.some.inj hid, dist_star_entry]
  · rw [List.getElem?_append_left (by omega)] at hid
    have hne : e.id ≠ 0 := fun heq => hnot (heq ▸ List.mem_of_getElem? hid)
    have hpos : 0 < e.id.toNat := Nat.pos_of_ne_zero fun hzero => hne (UInt32.toNat_inj.mp hzero)
    exact dist_star hn hpos (Nat.le_of_lt_succ (h.lt (h.mem_evaluated hmem)))

/-- **The vertex `2 ^ 30 + 2`** is not inserted among the `2 ^ 30 + 2` vertices before it. -/
lemma visit_star (hn' : n = 2 ^ 30 + 2) (hL : n ≤ L)
    (h : Retains (star n hn) wholeL2 [0] L t.retset t.L t.flags t.evaluated expanded)
    (hall : ∀ v, v ∈ t.evaluated ↔ v.toNat < n) :
    visit (star n hn) wholeL2 [0] t (UInt32.ofNat n) = .error (.pool .overflow) := by
  have htoNat : (UInt32.ofNat n).toNat = n := by
    rw [UInt32.toNat_ofNat', Nat.mod_eq_of_lt hn]
  have hevaluated : t.evaluated.length = n := by
    have himage : (t.evaluated.map UInt32.toNat).toFinset = Finset.range n := by
      ext i
      rw [List.mem_toFinset, List.mem_map, Finset.mem_range]
      constructor
      · rintro ⟨v, hv, rfl⟩
        exact (hall v).mp hv
      · intro hi
        have hival : (UInt32.ofNat i).toNat = i := by
          rw [UInt32.toNat_ofNat', Nat.mod_eq_of_lt (by omega)]
        exact ⟨UInt32.ofNat i, (hall _).mpr (by rwa [hival]), hival⟩
    rw [← List.length_map UInt32.toNat,
      ← List.toFinset_card_of_nodup (h.nodup.map injective_toNat), himage, Finset.card_range]
  have hlen : t.L = n := by
    rw [h.len_eq, hevaluated, min_eq_right hL]
  have hroom := h.room
  have hdistance := fun {i : ℕ} (hi : i < t.L) {e : Numaann.Neighbor ℚ} he =>
    distance_star h (hevaluated.trans_le hL) hi (e := e) he
  have hflag : vertexAt t.flags (UInt32.ofNat n) = .ok false := by
    have hget := h.flags_eq (UInt32.ofNat n) (by rw [htoNat]; exact Nat.lt_succ_self n)
    rw [decide_eq_false (by rw [hall, htoNat]; exact lt_irrefl n)] at hget
    rw [vertexAt, hget]
  have hdist : wholeL2.compare [0] ((star n hn).vector (UInt32.ofNat n)) = 0 := by
    have hne : UInt32.ofNat n ≠ (star n hn).learnGraphEP := fun heq => by
      rw [heq] at htoNat
      exact absurd htoNat (show ¬ 0 = n by omega)
    have hzero := dist_star hn (v := UInt32.ofNat n) (by omega) htoNat.le
    rwa [dist, if_neg hne] at hzero
  -- the last candidate is farther, so the vertex is not refused
  have hlast : t.L - 1 < t.retset.length := by omega
  have hrefuses : refuses t (0 : ℚ) = .ok false := by
    rw [refuses]
    split_ifs
    · have hone := hdistance (by omega) (List.getElem?_eq_getElem hlast)
      rw [if_pos rfl] at hone
      rw [slotAt_of_lt hlast, ok_bind, hone]
      rfl
    · rfl
  have hK : (UInt32.ofNat t.L).toNat = t.L := by rw [hlen, htoNat]
  have hinsert : SortedPool.insertIntoPool t.retset (UInt32.ofNat t.L)
      ⟨UInt32.ofNat n, (0 : ℚ), true⟩ = .error .overflow := by
    refine SortedPool.insertSorted_overflow _ (by omega) (by omega) (by omega)
      (fun i hi e he => ?_) fun e he => ?_
    · rw [hK] at hi
      rw [hdistance (by omega) he, if_neg (by omega)]
    · rw [hK] at he
      rw [hdistance (by omega) he, if_pos rfl]
      norm_num
  rw [visit, hflag, ok_bind]
  simp only [Bool.false_eq_true, if_false, hdist, hrefuses, ok_bind, hinsert]
  rfl

/-- **The first round fails**, in the insertion of the last out-neighbour. -/
lemma learnStep_star (hn' : n = 2 ^ 30 + 2) (hL : n ≤ L) :
    learnStep (star n hn) wholeL2 [0] (learnStart (star n hn) wholeL2 [0] L)
      = .error (.pool .overflow) := by
  obtain ⟨m, hm⟩ : ∃ m, n = m + 1 := ⟨2 ^ 30 + 1, by omega⟩
  have hm' : m < 2 ^ 32 := by omega
  have hsplit : starIds n = starIds m ++ [UInt32.ofNat n] := by
    rw [starIds, hm, List.range_succ, List.map_append]
    rfl
  have hinv : Inv (star n hn) wholeL2 [0] L (learnStart (star n hn) wholeL2 [0] L) :=
    inv_learnStart (by omega)
  set s := learnStart (star n hn) wholeL2 [0] L with hs
  have hslot : s.retset[0]? = some ⟨0, 1, true⟩ := by
    have hdist : wholeL2.compare [1] [0] = 1 := by decide +kernel
    rw [hs, learnStart, List.replicate_succ]
    exact congrArg (fun d => some (Numaann.Neighbor.mk (0 : VertexId) d true)) hdist
  have hids : ∀ id ∈ starIds m, (star n hn).Reaches id := fun id hid =>
    reaches_star hn (((mem_starIds hm').mp hid).2.trans (by omega))
  have hfits : FitsInt L fun v => v ∈ s.evaluated ∨ v ∈ starIds m := by
    refine Or.inr fun l hnodup hl => ?_
    have hsub : l ⊆ 0 :: starIds m := fun v hv =>
      List.mem_cons.mpr ((hl v hv).imp_left List.mem_singleton.mp)
    have hle := (hnodup.subperm hsub).length_le
    rw [List.length_cons, starIds, List.length_map, List.length_range] at hle
    omega
  obtain ⟨t, hfold, hretains, hscan⟩ := foldlM_visit hids
    (t := ⟨s.retset.set 0 ⟨0, 1, false⟩, s.L, intOf s.L, s.flags, s.evaluated⟩) hfits
    (hinv.retains.expand Nat.one_pos hslot)
  have hall : ∀ v, v ∈ t.evaluated ↔ v.toNat < n := fun v => by
    rw [hscan.mem_evaluated, mem_starIds hm']
    show v ∈ [0] ∨ _ ↔ _
    rw [List.mem_singleton, ← UInt32.toNat_inj, UInt32.toNat_zero]
    omega
  have hlist : vertexAt (star n hn).learnGraph 0 = .ok (starIds n) := rfl
  have hentry : slotAt s.retset 0 = .ok ⟨0, 1, true⟩ := by
    rw [slotAt, SortedPool.entryAt, hslot]
    rfl
  have hpos : (SortedPool.position s.k).mapError Stop.pool = .ok 0 := rfl
  rw [learnStep, hpos, ok_bind, hentry, ok_bind]
  simp only [if_true, hlist, ok_bind]
  rw [hsplit, List.foldlM_append, hfold, ok_bind, List.foldlM_cons,
    visit_star hn' hL hretains hall]
  rfl

/-- **On a large star the search fails**, whatever its number of rounds. -/
lemma learnLoop_star (hn' : n = 2 ^ 30 + 2) (hL : n ≤ L) (fuel : ℕ) :
    (star n hn).learnLoop wholeL2 [0] L (fuel + 1) = .error (.pool .overflow) := by
  have hgoes : goesOn (learnStart (star n hn) wholeL2 [0] L) = true :=
    decide_eq_true (show (0 : ℤ) < intOf 1 by decide)
  exact whileLoopM_of_error hgoes (learnStep_star hn' hL) fuel

lemma not_returnsBest_star (hn' : n = 2 ^ 30 + 2) (hL : n ≤ L) :
    ¬ (star n hn).ReturnsBest wholeL2 [0] L := by
  rintro ⟨s, -, hs, -, -⟩
  have hrun := hs (star n hn).rounds le_rfl
  rw [rounds, learnLoop_star hn' hL] at hrun
  exact absurd hrun (by simp)

end Star

/-- **When the search returns the best learn vertex it has seen**, for every graph with up to `R`
reachable vertices: up to `L = 2 ^ 30 + 1`, or up to `R = 2 ^ 30 + 2`. -/
theorem beamSearchLearnGraph_best_iff (R L : ℕ) (hL : 0 < L) :
    (∀ (δ : Type) [LinearOrder δ] [Inhabited δ] (g : LearnIndex) (distance : Distance δ)
        (query : List UInt32), {v | g.Reaches v}.ncard ≤ R → g.ReturnsBest distance query L) ↔
      L ≤ 2 ^ 30 + 1 ∨ R ≤ 2 ^ 30 + 2 := by
  constructor
  · intro hall
    by_contra hnot
    rw [not_or, not_le, not_le] at hnot
    obtain ⟨hL', hR⟩ := hnot
    have hn : 2 ^ 30 + 2 < 2 ^ 32 := by norm_num
    exact not_returnsBest_star rfl hL'
      (hall ℚ (star _ hn) wholeL2 [0] ((star _ hn).ncard_reaches_le.trans hR))
  · intro hbound δ _ _ g distance query hR
    refine g.returnsBest distance query hL (hbound.imp_right fun hfew l hnodup hl => ?_)
    have hcount := Set.ncard_le_ncard (s := (l.toFinset : Set VertexId))
      (fun v hv => hl v (List.mem_toFinset.mp hv)) g.finite_reaches
    rw [Set.ncard_coe_finset, List.toFinset_card_of_nodup hnodup] at hcount
    exact hcount.trans (hR.trans hfew)

end LearnIndex

/-- A graph of six learn vertices of one coordinate, for examples. -/
def sixLearnPoints : LearnIndex where
  learnNum := 6
  dimension := 1
  learnData := [9, 3, 3, 5, 7, 1]
  learnGraph := [[1, 4], [2, 3, 0], [1, 5], [4], [0], [5]]
  learnGraphEP := 0
  length_eq := rfl
  degree_lt := by decide
  neighbor_lt := by decide
  entry_lt := by decide

/-- The six points with two slots and the query at 2. -/
theorem returnsBest_sixLearnPoints :
    sixLearnPoints.ReturnsBest (distanceL2 fun w => (w.toNat : ℚ)) [2] 2 :=
  (LearnIndex.beamSearchLearnGraph_best_iff 6 2 two_pos).mpr (Or.inl (by norm_num)) ℚ sixLearnPoints
    _ _ sixLearnPoints.ncard_reaches_le

/-- Among the `2 ^ 30 + 3` vertices of a star the sum of two positions is no `int`. -/
theorem not_returnsBest_manyLearnPoints :
    (∀ fuel, (LearnIndex.star 1073741826 (by decide)).beamSearchLearnGraph LearnIndex.wholeL2 [0]
        1073741826 (fuel + 1) = .error (.pool .overflow)) ∧
      ¬ (LearnIndex.star 1073741826 (by decide)).ReturnsBest LearnIndex.wholeL2 [0] 1073741826 := by
  refine ⟨fun fuel => ?_, LearnIndex.not_returnsBest_star (by norm_num) le_rfl⟩
  have hrun : (LearnIndex.star 1073741826 (by decide)).learnLoop LearnIndex.wholeL2 [0] 1073741826
      (fuel + 1) = .error (.pool .overflow) := LearnIndex.learnLoop_star (by norm_num) le_rfl fuel
  rw [LearnIndex.beamSearchLearnGraph, hrun]
  rfl

end RedAnns
