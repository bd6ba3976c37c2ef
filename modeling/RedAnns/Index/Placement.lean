import Mathlib.Data.Nat.Count
import Mathlib.Data.Set.Function
import RedAnns.Core.Distance
import RedAnns.Index.BaseSet

/-!
Building an index on buckets (`src/index.cpp`).

* `generateBaseIndexOnBuckets` gives every vertex the bucket of its closest coarse centroid
  (`assignBuckets`), then arranges the vertices in their buckets (`arrange`): a running
  counter per bucket hands out the local ids, and the records are copied to their slots.
* `alloc_spec`: the local id of a vertex is its rank within its bucket, whatever the
  assignment (`Assigns`). `bijOn_rank` makes a bijection of it, and `getVertex_arrange` says
  that the slot of a vertex holds its record.
* `addAdaptiveEp` pushes the places of learned entry points.
-/

namespace RedAnns

open Bytes

/-! ### Choosing buckets -/

/-- The coarse centroids that `load_coarse_clusters` reads. -/
structure CoarseClusters where
  num : ℕ
  data : ℕ → UInt32

section Assign

variable {δ : Type*} [LinearOrder δ]

/-- `compute_closest_point`: the first of the closest points. -/
def computeClosestPoint (baseData : ℕ → UInt32) (baseNum baseDim : ℕ) (queryPoint : List UInt32)
    (distance : Distance δ) : Except String UInt32 :=
  if baseNum = 0 ∨ baseDim = 0 then .error "error@compute_closest_point"
  else
    let point := fun i => (List.range baseDim).map fun j => baseData (i * baseDim + j)
    let best := (List.range' 1 (baseNum - 1)).foldl (fun best i =>
      let d := distance.compare (point i) queryPoint
      if d < best.2 then (i, d) else best) (0, distance.compare (point 0) queryPoint)
    .ok (UInt32.ofNat best.1)

/-- `compute_closest_coarse_cluster`. -/
def computeClosestCoarseCluster (clusters : CoarseClusters) (dimension : ℕ)
    (distance : Distance δ) (point : List UInt32) : Except String UInt32 :=
  computeClosestPoint clusters.data clusters.num dimension point distance

/-- The first pass of `generate_base_index_on_buckets`: `_base_in_bucket`, an `unsigned`
array filled through a `server_id_t`. -/
def assignBuckets (b : BaseSet) (clusters : CoarseClusters) (distance : Distance δ) :
    Except String (List UInt32) :=
  (List.range b.baseNum).mapM fun id => do
    let bucketId ← computeClosestCoarseCluster clusters b.dimension distance (b.vector id)
    pure bucketId.toUInt8.toUInt32

/-- The closest point is one of the points. -/
lemma computeClosestPoint_lt {baseData : ℕ → UInt32} {baseNum baseDim : ℕ}
    {queryPoint : List UInt32} {distance : Distance δ} {c : UInt32}
    (h : computeClosestPoint baseData baseNum baseDim queryPoint distance = .ok c) :
    c.toNat < baseNum := by
  rw [computeClosestPoint] at h
  split_ifs at h with h0
  have hpos : 0 < baseNum := Nat.pos_of_ne_zero fun h => h0 (Or.inl h)
  have key : ∀ (l : List ℕ) (f : ℕ → δ) (best : ℕ × δ), best.1 < baseNum →
      (∀ i ∈ l, i < baseNum) →
      (l.foldl (fun best i => if f i < best.2 then (i, f i) else best) best).1 < baseNum := by
    intro l f
    induction l with
    | nil => exact fun _ hb _ => hb
    | cons i l ih =>
        intro best hb hl
        rw [List.foldl_cons]
        refine ih _ ?_ fun j hj => hl j (by simp [hj])
        split_ifs
        · exact hl i (by simp)
        · exact hb
  have hbest := key (List.range' 1 (baseNum - 1))
    (fun i => distance.compare ((List.range baseDim).map fun j => baseData (i * baseDim + j))
      queryPoint)
    (0, distance.compare ((List.range baseDim).map fun j => baseData (0 * baseDim + j)) queryPoint)
    hpos fun i hi => by
    have := List.mem_range'_1.mp hi
    omega
  rw [← Except.ok.inj h, UInt32.toNat_ofNat']
  exact lt_of_le_of_lt (Nat.mod_le _ _) hbest

/-- The only refusal left to `compute_closest_point` is an empty set or dimension. -/
lemma computeClosestPoint_ok (baseData : ℕ → UInt32) {baseNum baseDim : ℕ}
    (hnum : 0 < baseNum) (hdim : 0 < baseDim) (queryPoint : List UInt32)
    (distance : Distance δ) :
    ∃ c, computeClosestPoint baseData baseNum baseDim queryPoint distance = .ok c := by
  rw [computeClosestPoint, if_neg (by omega)]
  exact ⟨_, rfl⟩

lemma mapM_eq_ok {ε α β : Type*} {f : α → Except ε β} : ∀ {l : List α} {r : List β},
    l.mapM f = .ok r → r.length = l.length ∧
      ∀ i (h : i < l.length) (h' : i < r.length), f l[i] = .ok r[i]
  | [], r, h => by
      rw [List.mapM_nil] at h
      rw [← Except.ok.inj h]
      exact ⟨rfl, fun i h => absurd h (Nat.not_lt_zero i)⟩
  | a :: l, r, h => by
      rw [List.mapM_cons] at h
      cases ha : f a with
      | error e => rw [ha] at h; exact absurd h (by simp [bind, Except.bind])
      | ok c =>
          cases hl : l.mapM f with
          | error e => rw [ha, hl] at h; exact absurd h (by simp [bind, Except.bind])
          | ok cs =>
              rw [ha, hl] at h
              obtain ⟨hlen, hget⟩ := mapM_eq_ok hl
              have hr : c :: cs = r := Except.ok.inj h
              subst hr
              refine ⟨by simp [hlen], fun i hi hi' => ?_⟩
              cases i with
              | zero => exact ha
              | succ i => exact hget i (by simpa using hi) (by simpa using hi')

lemma mapM_ok {ε α β : Type*} {f : α → Except ε β} : ∀ {l : List α},
    (∀ a ∈ l, ∃ c, f a = .ok c) → ∃ r, l.mapM f = .ok r
  | [], _ => ⟨[], rfl⟩
  | a :: l, h => by
      obtain ⟨c, hc⟩ := h a (by simp)
      obtain ⟨cs, hcs⟩ := mapM_ok fun a' ha' => h a' (List.mem_cons_of_mem a ha')
      exact ⟨c :: cs, by rw [List.mapM_cons, hc, hcs]; rfl⟩

variable {b : BaseSet} {clusters : CoarseClusters} {distance : Distance δ}

/-- Every vertex is given the bucket of a centroid. -/
lemma assignBuckets_spec (h256 : clusters.num ≤ 256) {baseInBucket : List UInt32}
    (h : assignBuckets b clusters distance = .ok baseInBucket) :
    baseInBucket.length = b.baseNum ∧
      ∀ id < b.baseNum, (baseInBucket.getD id 0).toNat < clusters.num := by
  obtain ⟨hlen, hget⟩ := mapM_eq_ok h
  rw [List.length_range] at hlen
  refine ⟨hlen, fun id hid => ?_⟩
  have hid' : id < baseInBucket.length := by omega
  have hok := hget id (by simpa using hid) hid'
  rw [List.getElem_range] at hok
  rw [List.getD_eq_getElem _ _ hid']
  cases hc : computeClosestCoarseCluster clusters b.dimension distance (b.vector id) with
  | error e => rw [hc] at hok; exact absurd hok (by simp [bind, Except.bind])
  | ok c =>
      rw [hc] at hok
      have hlt : c.toNat < clusters.num := computeClosestPoint_lt hc
      have heq : c.toUInt8.toUInt32 = baseInBucket[id] := Except.ok.inj hok
      rw [← heq, UInt8.toNat_toUInt32, UInt32.toNat_toUInt8, Nat.mod_eq_of_lt (by omega)]
      exact hlt

lemma assignBuckets_ok (distance : Distance δ) (hnum : 0 < clusters.num) (hdim : 0 < b.dimension) :
    ∃ baseInBucket, assignBuckets b clusters distance = .ok baseInBucket := by
  refine mapM_ok fun id _ => ?_
  obtain ⟨c, hc⟩ := computeClosestPoint_ok clusters.data hnum hdim (b.vector id) distance
  exact ⟨c.toUInt8.toUInt32, by rw [computeClosestCoarseCluster, hc]; rfl⟩

end Assign

/-! ### Handing out local ids -/

/-- The running state of the second pass: the counters `data_num`, and what `place` and
`_base_to_lid` hold so far. -/
structure Alloc where
  dataNum : List ℕ
  place : List Item
  baseToLid : List LocalId

/-- The body of the second pass for one vertex of the bucket `bucketId`. -/
def Alloc.assign (s : Alloc) (bucketId : ServerId) : Alloc :=
  let localId := UInt32.ofNat (s.dataNum.getD bucketId.toNat 0)
  { dataNum := s.dataNum.set bucketId.toNat (s.dataNum.getD bucketId.toNat 0 + 1)
    place := s.place ++ [⟨bucketId, localId⟩]
    baseToLid := s.baseToLid ++ [localId] }

/-- The second pass of `generate_base_index_on_buckets` over the first `n` vertices. -/
def alloc (bucketCount : ℕ) (baseInBucket : List UInt32) (n : ℕ) : Alloc :=
  (List.range n).foldl (fun s id => s.assign (baseInBucket.getD id 0).toUInt8)
    ⟨List.replicate bucketCount 0, [], []⟩

/-- The rank of a vertex within its bucket. -/
def rank (baseInBucket : List UInt32) (id : ℕ) : ℕ :=
  Nat.count (fun j => (baseInBucket.getD j 0).toNat = (baseInBucket.getD id 0).toNat) id

/-- **Ranks number the members of every class**: an index and its rank in its class is a
bijection onto the pairs of a class and a number below the size of the class. -/
theorem bijOn_rank (c : ℕ → ℕ) (n : ℕ) (P : ℕ → Prop) (hc : ∀ i < n, P (c i)) :
    Set.BijOn (fun i => (c i, Nat.count (fun j => c j = c i) i)) {i | i < n}
      {p | P p.1 ∧ p.2 < Nat.count (fun j => c j = p.1) n} := by
  refine ⟨fun i hi => ⟨hc i hi, Nat.count_strict_mono rfl hi⟩, fun i _ j _ hij => ?_, ?_⟩
  · obtain ⟨hcl, hcount⟩ := Prod.mk.inj hij
    rw [hcl] at hcount
    exact Nat.count_injective (p := fun k => c k = c j) hcl rfl hcount
  · have key : ∀ (q : ℕ) (n l : ℕ), l < Nat.count (fun j => c j = q) n →
        ∃ i < n, c i = q ∧ Nat.count (fun j => c j = q) i = l := by
      intro q n
      induction n with
      | zero => exact fun l hl => absurd hl (Nat.not_lt_zero l)
      | succ n ih =>
          intro l hl
          by_cases hlt : l < Nat.count (fun j => c j = q) n
          · obtain ⟨i, hi, h1, h2⟩ := ih l hlt
            exact ⟨i, by omega, h1, h2⟩
          · rw [Nat.count_succ] at hl
            split_ifs at hl with hq
            · exact ⟨n, by omega, hq, by omega⟩
            · omega
    rintro ⟨q, l⟩ ⟨_, hl⟩
    obtain ⟨i, hi, hq, hcount⟩ := key q n l hl
    exact ⟨i, hi, by simp only [hq, hcount]⟩

section Alloc

variable {bucketCount n : ℕ} {baseInBucket : List UInt32}

lemma getD_map_range {α : Type*} {f : ℕ → α} {i : ℕ} (h : i < n) (d : α) :
    ((List.range n).map f).getD i d = f i := by
  rw [List.getD_eq_getElem _ _ (by simpa using h), List.getElem_map, List.getElem_range]

lemma alloc_succ (n : ℕ) : alloc bucketCount baseInBucket (n + 1) =
    (alloc bucketCount baseInBucket n).assign (baseInBucket.getD n 0).toUInt8 := by
  rw [alloc, List.range_succ, List.foldl_append]
  rfl

lemma getD_set {l : List ℕ} {i q : ℕ} (hq : q < l.length) (a : ℕ) :
    (l.set i a).getD q 0 = if i = q then a else l.getD q 0 := by
  rw [List.getD_eq_getElem _ _ (by rwa [List.length_set]), List.getElem_set,
    List.getD_eq_getElem _ _ hq]

/-- **The running counters count**: after `n` vertices the counter of a bucket is the number
of its members so far, and every vertex has its rank for a local id. -/
theorem alloc_spec (hcount : bucketCount ≤ 256)
    (hin : ∀ id < n, (baseInBucket.getD id 0).toNat < bucketCount) :
    (alloc bucketCount baseInBucket n).dataNum.length = bucketCount ∧
    (∀ q < bucketCount, (alloc bucketCount baseInBucket n).dataNum.getD q 0
      = Nat.count (fun j => (baseInBucket.getD j 0).toNat = q) n) ∧
    (alloc bucketCount baseInBucket n).place = (List.range n).map (fun id =>
      ⟨(baseInBucket.getD id 0).toUInt8, UInt32.ofNat (rank baseInBucket id)⟩) ∧
    (alloc bucketCount baseInBucket n).baseToLid = (List.range n).map (fun id =>
      UInt32.ofNat (rank baseInBucket id)) := by
  induction n with
  | zero =>
      refine ⟨List.length_replicate, fun q hq => ?_, rfl, rfl⟩
      show (List.replicate bucketCount 0).getD q 0 = _
      rw [List.getD_eq_getElem _ _ (by simpa using hq), List.getElem_replicate, Nat.count_zero]
  | succ n ih =>
      obtain ⟨hlen, hnum, hplace, hlid⟩ := ih fun id hid => hin id (by omega)
      have hb : ((baseInBucket.getD n 0).toUInt8).toNat = (baseInBucket.getD n 0).toNat := by
        have := hin n (by omega)
        rw [UInt32.toNat_toUInt8, Nat.mod_eq_of_lt (by omega)]
      have hlocal : (alloc bucketCount baseInBucket n).dataNum.getD
          ((baseInBucket.getD n 0).toUInt8).toNat 0 = rank baseInBucket n := by
        rw [hb, hnum _ (hin n (by omega)), rank]
      rw [alloc_succ, Alloc.assign]
      refine ⟨?_, fun q hq => ?_, ?_, ?_⟩
      · rw [List.length_set, hlen]
      · rw [Nat.count_succ, ← hnum q hq, getD_set (by omega), hb]
        by_cases hqn : (baseInBucket.getD n 0).toNat = q
        · rw [if_pos hqn, if_pos hqn, hqn]
        · rw [if_neg hqn, if_neg hqn, Nat.add_zero]
      · rw [List.range_succ, List.map_append, hplace, List.map_singleton, hlocal]
      · rw [List.range_succ, List.map_append, hlid, List.map_singleton, hlocal]

end Alloc

/-! ### The index on buckets -/

/-- What `generate_base_index_on_buckets` leaves in the index. -/
structure BucketIndex where
  layout : Layout
  bucketCount : ℕ
  dataNum : List ℕ
  baseInBucket : List UInt32
  baseToLid : List LocalId
  memoryBuckets : ServerId → Bytes
  membktEP : Item

/-- The place of a base id, as the lookup arrays `_base_in_bucket` and `_base_to_lid` tell. -/
def placeOf (baseInBucket : List UInt32) (baseToLid : List LocalId) (id : ℕ) : Item :=
  ⟨(baseInBucket.getD id 0).toUInt8, baseToLid.getD id 0⟩

namespace BucketIndex

/-- `get_vertex` of `search_base_index_on_buckets`. -/
def getVertex (idx : BucketIndex) (item : Item) : Bytes :=
  (idx.memoryBuckets item.first).view (item.second.toNat * idx.layout.elementSize)

/-- The place of a base id. -/
def place (idx : BucketIndex) (id : ℕ) : Item := placeOf idx.baseInBucket idx.baseToLid id

end BucketIndex

/-- `add_adaptive_ep`: the places of the first projections of a learn vertex are pushed. -/
def addAdaptiveEp (baseInBucket : List UInt32) (baseToLid : List LocalId)
    (learnProjectionInBase : List (List VertexId)) (learnIndexRes adaptiveEpNum : ℕ)
    (initIds : List Item) : Except String (List Item) :=
  let projection := learnProjectionInBase.getD learnIndexRes []
  if learnProjectionInBase.length ≤ learnIndexRes then
    .error "error@add_adaptive_ep: learn_index_res is out of range."
  else if projection.length < adaptiveEpNum then
    .error "error@add_adaptive_ep: adaptive_ep_num is out of range."
  else
    .ok ((List.range adaptiveEpNum).foldl (fun ids i =>
      ids ++ [placeOf baseInBucket baseToLid (projection.getD i 0).toNat]) initIds)

/-- What `add_adaptive_ep` pushes. -/
lemma addAdaptiveEp_eq {baseInBucket : List UInt32} {baseToLid : List LocalId}
    {projections : List (List VertexId)} {learnIndexRes adaptiveEpNum : ℕ}
    {initIds items : List Item}
    (h : addAdaptiveEp baseInBucket baseToLid projections learnIndexRes adaptiveEpNum initIds
      = .ok items) :
    items = initIds ++ ((projections.getD learnIndexRes []).take adaptiveEpNum).map
      fun v => placeOf baseInBucket baseToLid v.toNat := by
  simp only [addAdaptiveEp] at h
  split_ifs at h with h1 h2
  rw [← Except.ok.inj h]
  have key : ∀ (l : List VertexId) (n : ℕ), n ≤ l.length →
      (List.range n).foldl (fun ids i =>
        ids ++ [placeOf baseInBucket baseToLid (l.getD i 0).toNat]) initIds
      = initIds ++ (l.take n).map fun v => placeOf baseInBucket baseToLid v.toNat := by
    intro l n hn
    induction n with
    | zero => simp
    | succ n ih =>
        rw [List.range_succ, List.foldl_append, ih (by omega), List.foldl_cons, List.foldl_nil,
          List.take_add_one, List.map_append, List.append_assoc, List.getD_eq_getElem _ _ hn,
          List.getElem?_eq_getElem hn]
        rfl
  exact key _ _ (by omega)

section Arrange

variable (b : BaseSet)

/-- The layout that `generate_base_index_on_buckets` fixes. -/
def BaseSet.bucketLayout : Layout := RedAnns.bucketLayout b.dimension b.baseGraphR

/-- The fields of the neighbour entries of a vertex: every neighbour with its place. -/
def entries (place : List Item) (curId : ℕ) : List (VertexId × Item) :=
  (b.adjacency curId).map fun v => (v, place.getD v.toNat default)

/-- The body of the copying loop: the record of one vertex goes to its slot. -/
def putRecord (place : List Item) (m : ServerId → Bytes) (curId : ℕ) : ServerId → Bytes :=
  let item := place.getD curId default
  Function.update m item.first
    (b.bucketLayout.writeRecord (m item.first)
      (item.second.toNat * b.bucketLayout.elementSize) (b.vector curId) (UInt32.ofNat curId)
      (b.adjacency curId).length ((entries b place curId).flatMap Layout.entryFields))

/-- `generate_base_index_on_buckets` after the buckets are chosen. -/
def arrange (bucketCount : ℕ) (baseInBucket : List UInt32) (malloc : ServerId → Bytes) :
    BucketIndex :=
  let s := alloc bucketCount baseInBucket b.baseNum
  { layout := b.bucketLayout
    bucketCount := bucketCount
    dataNum := s.dataNum
    baseInBucket := baseInBucket
    baseToLid := s.baseToLid
    memoryBuckets := (List.range b.baseNum).foldl (putRecord b s.place) malloc
    membktEP := s.place.getD b.baseGraphEP.toNat default }

/-- `generate_base_index_on_buckets`, on a fresh index and with room for every bucket. -/
def generateBaseIndexOnBuckets {δ : Type*} [LinearOrder δ] (clusters : CoarseClusters)
    (distance : Distance δ) (bucketCount : ℕ) (malloc : ServerId → Bytes) :
    Except String BucketIndex := do
  let baseInBucket ← assignBuckets b clusters distance
  pure (arrange b bucketCount baseInBucket malloc)

variable {b} {bucketCount : ℕ} {baseInBucket : List UInt32} {malloc : ServerId → Bytes}

/-- An assignment of the vertices to buckets: one bucket for each. -/
structure Assigns (b : BaseSet) (bucketCount : ℕ) (baseInBucket : List UInt32) : Prop where
  count_le : bucketCount ≤ 256
  lt : ∀ id < b.baseNum, (baseInBucket.getD id 0).toNat < bucketCount

section Places

variable (h : Assigns b bucketCount baseInBucket) (malloc)
include h

/-- The place of a vertex: its bucket, and its rank there. -/
lemma place_arrange {id : ℕ} (hid : id < b.baseNum) :
    (arrange b bucketCount baseInBucket malloc).place id
      = ⟨(baseInBucket.getD id 0).toUInt8, UInt32.ofNat (rank baseInBucket id)⟩ := by
  have hlid := (alloc_spec h.count_le h.lt).2.2.2
  rw [BucketIndex.place, placeOf]
  simp only [arrange]
  rw [hlid, getD_map_range hid]

/-- The array `place` of the writing loop agrees with the lookup arrays. -/
lemma getD_place {id : ℕ} (hid : id < b.baseNum) :
    (alloc bucketCount baseInBucket b.baseNum).place.getD id default
      = (arrange b bucketCount baseInBucket malloc).place id := by
  have hplace := (alloc_spec h.count_le h.lt).2.2.1
  rw [place_arrange malloc h hid, hplace, getD_map_range hid]

lemma first_place {id : ℕ} (hid : id < b.baseNum) :
    ((arrange b bucketCount baseInBucket malloc).place id).first.toNat
      = (baseInBucket.getD id 0).toNat := by
  have h1 := h.lt id hid
  have h2 := h.count_le
  rw [place_arrange malloc h hid, UInt32.toNat_toUInt8, Nat.mod_eq_of_lt (by omega)]

lemma second_place {id : ℕ} (hid : id < b.baseNum) :
    ((arrange b bucketCount baseInBucket malloc).place id).second.toNat
      = rank baseInBucket id := by
  have h1 : rank baseInBucket id ≤ id := Nat.count_le _
  have h2 := b.baseNum_lt
  rw [place_arrange malloc h hid, UInt32.toNat_ofNat', Nat.mod_eq_of_lt (by omega)]

/-- **Two vertices never share a place.** -/
lemma place_injOn {id id' : ℕ} (hid : id < b.baseNum) (hid' : id' < b.baseNum)
    (heq : (arrange b bucketCount baseInBucket malloc).place id
      = (arrange b bucketCount baseInBucket malloc).place id') : id = id' := by
  have hinj := (bijOn_rank (fun i => (baseInBucket.getD i 0).toNat) b.baseNum (· < bucketCount)
    h.lt).injOn
  refine hinj hid hid' (Prod.ext ?_ ?_)
  · calc (baseInBucket.getD id 0).toNat
        = ((arrange b bucketCount baseInBucket malloc).place id).first.toNat :=
          (first_place malloc h hid).symm
      _ = ((arrange b bucketCount baseInBucket malloc).place id').first.toNat := by rw [heq]
      _ = (baseInBucket.getD id' 0).toNat := first_place malloc h hid'
  · calc rank baseInBucket id
        = ((arrange b bucketCount baseInBucket malloc).place id).second.toNat :=
          (second_place malloc h hid).symm
      _ = ((arrange b bucketCount baseInBucket malloc).place id').second.toNat := by rw [heq]
      _ = rank baseInBucket id' := second_place malloc h hid'

/-- The entries of a vertex name its neighbours and their places. -/
lemma entries_eq {id : ℕ} (hid : id < b.baseNum) :
    entries b (alloc bucketCount baseInBucket b.baseNum).place id
      = (b.adjacency id).map fun v =>
          (v, (arrange b bucketCount baseInBucket malloc).place v.toNat) :=
  List.map_congr_left fun v hv => by rw [getD_place malloc h (BaseSet.adjacency_lt hid hv)]

omit h in
lemma length_entryFields (es : List (VertexId × Item)) :
    (es.flatMap Layout.entryFields).flatten.length = 9 * es.length :=
  Layout.length_entryBytes es

omit h in
/-- A record fits its slot. -/
lemma record_fits (place : List Item) {id : ℕ} (hid : id < b.baseNum) :
    4 + ((entries b place id).flatMap Layout.entryFields).flatten.length
      ≤ b.bucketLayout.neighborBytesLen := by
  have hdeg := BaseSet.degree_adjacency_le hid
  rw [length_entryFields, entries, List.length_map]
  simp only [BaseSet.bucketLayout, RedAnns.bucketLayout]
  omega

omit h in
/-- No write of the loop body leaves the slot of its vertex. -/
lemma putRecord_of_outside {place : List Item} {id : ℕ} (hid : id < b.baseNum)
    (m : ServerId → Bytes) {q : ServerId} {a : ℕ}
    (hout : q = (place.getD id default).first →
      a < (place.getD id default).second.toNat * b.bucketLayout.elementSize ∨
        (place.getD id default).second.toNat * b.bucketLayout.elementSize
          + b.bucketLayout.elementSize ≤ a) :
    putRecord b place m id q a = m q a := by
  rw [putRecord]
  by_cases hq : q = (place.getD id default).first
  · subst hq
    rw [Function.update_self,
      Layout.writeRecord_of_outside (L := b.bucketLayout) (b.length_vector id)
        (record_fits place hid) (hout rfl)]
  · rw [Function.update_of_ne hq]

omit h in
/-- The copying loop stores the records in their slots. -/
lemma memoryBuckets_eq (n : ℕ) :
    (List.range n).foldl (putRecord b (alloc bucketCount baseInBucket b.baseNum).place) malloc
      = store b.bucketLayout.elementSize
          (fun i => (((alloc bucketCount baseInBucket b.baseNum).place.getD i default).first,
            ((alloc bucketCount baseInBucket b.baseNum).place.getD i default).second.toNat))
          (fun i => Layout.recordBytes (b.vector i) (UInt32.ofNat i) (b.adjacency i).length
            ((entries b (alloc bucketCount baseInBucket b.baseNum).place i).flatMap
              Layout.entryFields)) malloc n := by
  induction n with
  | zero => rfl
  | succ n ih =>
      rw [List.range_succ, List.foldl_append, ih, store_succ, List.foldl_cons, List.foldl_nil,
        putRecord]
      simp only
      rw [Layout.writeRecord_eq (L := b.bucketLayout) (b.length_vector n)]

/-- **The slot of a vertex holds its record.** -/
theorem getVertex_arrange {id : ℕ} (hid : id < b.baseNum) :
    Stands ((arrange b bucketCount baseInBucket malloc).getVertex
        ((arrange b bucketCount baseInBucket malloc).place id)) 0
      (Layout.recordBytes (b.vector id) (UInt32.ofNat id) (b.adjacency id).length
        (((b.adjacency id).map fun v =>
          (v, (arrange b bucketCount baseInBucket malloc).place v.toNat)).flatMap
            Layout.entryFields)) := by
  have hfit : ∀ i < b.baseNum, (Layout.recordBytes (b.vector i) (UInt32.ofNat i)
      (b.adjacency i).length ((entries b (alloc bucketCount baseInBucket b.baseNum).place i).flatMap
        Layout.entryFields)).length ≤ b.bucketLayout.elementSize := by
    intro i hi
    have hle := record_fits (alloc bucketCount baseInBucket b.baseNum).place hi
    rw [Layout.length_recordBytes (L := b.bucketLayout) (b.length_vector i)]
    simp only [Layout.elementSize, Layout.neighborOffset] at hle ⊢
    omega
  have hslot : ∀ i < b.baseNum, ∀ j < b.baseNum,
      (((alloc bucketCount baseInBucket b.baseNum).place.getD i default).first,
        ((alloc bucketCount baseInBucket b.baseNum).place.getD i default).second.toNat)
      = (((alloc bucketCount baseInBucket b.baseNum).place.getD j default).first,
        ((alloc bucketCount baseInBucket b.baseNum).place.getD j default).second.toNat) →
      i = j := by
    intro i hi j hj hij
    obtain ⟨h1, h2⟩ := Prod.mk.inj hij
    have heq := Item.ext h1 (UInt32.toNat_inj.mp h2)
    rw [getD_place malloc h hi, getD_place malloc h hj] at heq
    exact place_injOn malloc h hi hj heq
  have hstore := stands_store (m := malloc) _ hslot hfit hid
  rw [← memoryBuckets_eq, getD_place malloc h hid, entries_eq malloc h hid] at hstore
  rw [BucketIndex.getVertex, stands_view, Nat.add_zero]
  exact hstore

end Places

end Arrange

end RedAnns
