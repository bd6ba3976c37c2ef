import RedAnns.Core.Vertex
import RedAnns.Lib.Loop
import RedAnns.Lib.Beam

/-!
The candidate pool, `NeighborPriorityQueue` of `include/neighbor.h`.

The header holds the class twice, `diskann::NeighborPriorityQueue` over vertex ids and
`dsmann::NeighborPriorityQueue` over items, with the same bodies; here it is one structure
over the type `ι` of ids and the ordered type `δ` of distances.

* `insert` is the binary search with the early return on a known id, the shift by one slot
  and the silent eviction; `closestUnexpanded` moves the cursor over expanded entries.
* `Holds q S X`: the live entries are the `q.capacity` smallest members of the set `S` of
  (distance, id) pairs, those of `X` are marked expanded, and the cursor stands on the first
  unexpanded one. The pool is thus a function of the sets `S` and `X` (`Holds.live_eq`), and
  `Holds.insert`, `Holds.closestUnexpanded` and `holds_clear` say what each operation does
  to the two sets.
* `Grows`: what the operations do to the slots behind the live entries, which is nothing.
-/

namespace RedAnns

/-- `Neighbor`: a candidate with its distance to the query. -/
@[ext]
structure Neighbor (ι δ : Type*) where
  id : ι
  distance : δ
  expanded : Bool
  deriving DecidableEq, Inhabited

namespace Neighbor

variable {ι δ : Type*}

/-- The pair the pool is sorted by. -/
def key (n : Neighbor ι δ) : δ ×ₗ ι := toLex (n.distance, n.id)

lemma id_eq_of_key_eq {n other : Neighbor ι δ} (h : n.key = other.key) : n.id = other.id :=
  (Prod.mk.inj (congrArg ofLex h)).2

variable [LinearOrder ι] [LinearOrder δ]

/-- `operator<`: by distance, ties by id. -/
def lt (n other : Neighbor ι δ) : Bool :=
  n.distance < other.distance || (n.distance == other.distance && n.id < other.id)

lemma lt_iff {n other : Neighbor ι δ} : n.lt other = true ↔ n.key < other.key := by
  simp [lt, key, Prod.Lex.toLex_lt_toLex]

end Neighbor

/-- `NeighborPriorityQueue`: the slots `_data`, of which the first `_size` are live, the
capacity and the cursor `_cur`. -/
structure NeighborPriorityQueue (ι δ : Type*) where
  size : ℕ
  capacity : ℕ
  cur : ℕ
  data : List (Neighbor ι δ)
  deriving DecidableEq, Inhabited

namespace NeighborPriorityQueue

variable {ι δ : Type*} [LinearOrder ι] [LinearOrder δ] [Inhabited ι] [Inhabited δ]

/-- `operator[]`. -/
def slot (q : NeighborPriorityQueue ι δ) (i : ℕ) : Neighbor ι δ := q.data.getD i default

/-- The binary search of `insert` between `lo` and `hi`: the slot for `nbr`, or `none` when
the search meets the same id. The first argument is the fuel. -/
def searchSlot (q : NeighborPriorityQueue ι δ) (nbr : Neighbor ι δ) : ℕ → ℕ → ℕ → Option ℕ
  | 0, lo, _ => some lo
  | fuel + 1, lo, hi =>
      if lo < hi then
        let mid := (lo + hi) / 2
        if nbr.lt (q.slot mid) then searchSlot q nbr fuel lo mid
        else if (q.slot mid).id = nbr.id then none
        else searchSlot q nbr fuel (mid + 1) hi
      else some lo

/-- The `memmove` of `insert`: the slots `lo, …, size - 1` move up by one. -/
def shiftUp (data : List (Neighbor ι δ)) (lo size : ℕ) : List (Neighbor ι δ) :=
  data.take (lo + 1) ++ (data.drop lo).take (size - lo) ++ data.drop (size + 1)

/-- `insert`: whether the candidate was taken, and the pool afterwards. -/
protected def insert (q : NeighborPriorityQueue ι δ) (nbr : Neighbor ι δ) :
    Bool × NeighborPriorityQueue ι δ :=
  if q.size == q.capacity && (q.slot (q.size - 1)).lt nbr then (false, q)
  else
    match q.searchSlot nbr q.size 0 q.size with
    | none => (false, q)
    | some lo =>
        let data := if lo < q.capacity then shiftUp q.data lo q.size else q.data
        (true,
          { size := if q.size < q.capacity then q.size + 1 else q.size
            capacity := q.capacity
            cur := if lo < q.cur then lo else q.cur
            data := data.set lo ⟨nbr.id, nbr.distance, false⟩ })

/-- `closest_unexpanded`: the entry under the cursor, marked expanded, and the pool with the
cursor moved past the expanded entries. -/
def closestUnexpanded (q : NeighborPriorityQueue ι δ) :
    Neighbor ι δ × NeighborPriorityQueue ι δ :=
  let marked := { q with data := q.data.set q.cur { q.slot q.cur with expanded := true } }
  let cur := whileLoop (fun c => decide (c < q.size) && (marked.slot c).expanded) (· + 1)
    q.size q.cur
  (marked.slot q.cur, { marked with cur := cur })

/-- `has_unexpanded_node`. -/
def hasUnexpandedNode (q : NeighborPriorityQueue ι δ) : Bool := q.cur < q.size

/-- `clear`: the counters are reset, the slots keep their contents. -/
def clear (q : NeighborPriorityQueue ι δ) : NeighborPriorityQueue ι δ :=
  { q with size := 0, cur := 0 }

/-- The live entries. -/
def live (q : NeighborPriorityQueue ι δ) : List (Neighbor ι δ) := q.data.take q.size

/-! ### The contents as a set -/

/-- **What a pool holds**: the live entries are the smallest members of `S`, the members of
`X` are the expanded ones, and the cursor stands on the first unexpanded entry. -/
structure Holds (q : NeighborPriorityQueue ι δ) (S X : Finset (δ ×ₗ ι)) : Prop where
  room : q.data.length = q.capacity + 1
  size_le : q.size ≤ q.capacity
  keys : q.live.map Neighbor.key = smallest q.capacity S
  flags : ∀ n ∈ q.live, n.expanded = true ↔ n.key ∈ X
  cur_le : q.cur ≤ q.size
  before_cur : ∀ i < q.cur, (q.slot i).expanded = true
  at_cur : q.cur < q.size → (q.slot q.cur).expanded = false

variable {q : NeighborPriorityQueue ι δ} {S X : Finset (δ ×ₗ ι)}

lemma Holds.length_live (h : Holds q S X) : q.live.length = q.size := by
  rw [live, List.length_take, h.room]
  have := h.size_le
  omega

lemma Holds.size_eq (h : Holds q S X) : q.size = min q.capacity S.card := by
  rw [← h.length_live, ← length_smallest, ← h.keys, List.length_map]

lemma Holds.getElem_live (h : Holds q S X) {i : ℕ} (hi : i < q.live.length) :
    q.live[i] = q.slot i := by
  have h1 : i < q.data.length := by
    have := h.length_live; have := h.room; have := h.size_le; omega
  simp [live, slot, h1]

lemma Holds.slot_mem (h : Holds q S X) {i : ℕ} (hi : i < q.size) : q.slot i ∈ q.live := by
  have hi' : i < q.live.length := by rw [h.length_live]; exact hi
  rw [← h.getElem_live hi']
  exact List.getElem_mem hi'

lemma Holds.mem_live (h : Holds q S X) {n : Neighbor ι δ} :
    n ∈ q.live ↔ ∃ i < q.size, q.slot i = n := by
  constructor
  · intro hn
    obtain ⟨i, hi, rfl⟩ := List.mem_iff_getElem.mp hn
    exact ⟨i, by rwa [h.length_live] at hi, (h.getElem_live hi).symm⟩
  · rintro ⟨i, hi, rfl⟩
    exact h.slot_mem hi

lemma Holds.key_mem_smallest (h : Holds q S X) {i : ℕ} (hi : i < q.size) :
    (q.slot i).key ∈ smallest q.capacity S := by
  rw [← h.keys]
  exact List.mem_map_of_mem (h.slot_mem hi)

lemma Holds.key_mem (h : Holds q S X) {n : Neighbor ι δ} (hn : n ∈ q.live) : n.key ∈ S := by
  have : n.key ∈ smallest q.capacity S := by rw [← h.keys]; exact List.mem_map_of_mem hn
  exact mem_of_mem_smallest this

/-- The live entries are sorted by (distance, id). -/
lemma Holds.key_lt (h : Holds q S X) {i j : ℕ} (hij : i < j) (hj : j < q.size) :
    (q.slot i).key < (q.slot j).key := by
  have hp : (q.live.map Neighbor.key).Pairwise (· < ·) := by
    rw [h.keys]; exact pairwise_smallest _ _
  have hlen : (q.live.map Neighbor.key).length = q.size := by
    rw [List.length_map, h.length_live]
  have := List.pairwise_iff_getElem.mp hp i j (by omega) (by omega) hij
  simpa [h.getElem_live] using this

/-- **The live entries are a function of the two sets.** -/
theorem Holds.live_eq (h : Holds q S X) :
    q.live = (smallest q.capacity S).map
      fun k => ⟨(ofLex k).2, (ofLex k).1, decide (k ∈ X)⟩ := by
  rw [← h.keys, List.map_map]
  refine (List.map_id _).symm.trans (List.map_congr_left fun n hn => ?_)
  have hflag : n.expanded = decide (n.key ∈ X) := by
    rw [Bool.eq_iff_iff, h.flags n hn, decide_eq_true_iff]
  simp only [id, Function.comp, ← hflag]
  rfl

/-- The live slots are a function of the two sets. -/
lemma Holds.slot_eq (h : Holds q S X) {q' : NeighborPriorityQueue ι δ} (h' : Holds q' S X)
    (hcap : q'.capacity = q.capacity) {i : ℕ} (hi : i < q.size) : q'.slot i = q.slot i := by
  have hlive : q'.live = q.live := by rw [h.live_eq, h'.live_eq, hcap]
  have h1 : i < q.live.length := by rwa [h.length_live]
  have h2 : i < q'.live.length := by rwa [hlive]
  rw [← h.getElem_live h1, ← h'.getElem_live h2]
  simp [hlive]

/-- The cursor is a function of the live entries. -/
lemma Holds.cur_eq (h : Holds q S X) {q' : NeighborPriorityQueue ι δ} (h' : Holds q' S X)
    (hcap : q'.capacity = q.capacity) : q'.cur = q.cur := by
  have hsize : q'.size = q.size := by rw [h.size_eq, h'.size_eq, hcap]
  have hat : ∀ i < q.size, q'.slot i = q.slot i := fun i hi => h.slot_eq h' hcap hi
  have hc := h.cur_le
  have hc' := h'.cur_le
  rcases lt_trichotomy q'.cur q.cur with hlt | heq | hgt
  · have h1 := h.before_cur _ hlt
    rw [← hat _ (by omega), h'.at_cur (by omega)] at h1
    exact absurd h1 (by simp)
  · exact heq
  · have h1 := h'.before_cur _ hgt
    rw [hat _ (by omega), h.at_cur (by omega)] at h1
    exact absurd h1 (by simp)

/-- A cleared pool holds nothing. -/
lemma holds_clear (hroom : q.data.length = q.capacity + 1) (X : Finset (δ ×ₗ ι)) :
    Holds q.clear ∅ X where
  room := hroom
  size_le := Nat.zero_le _
  keys := by simp [clear, live]
  flags := by simp [clear, live]
  cur_le := le_rfl
  before_cur := fun i hi => absurd hi (Nat.not_lt_zero i)
  at_cur := fun h => absurd h (lt_irrefl _)

/-! ### Insertion -/

/-- What the binary search answers on a sorted pool: a known id, or the one slot that splits
the entries into those below and those above the candidate. -/
lemma searchSlot_spec (hs : ∀ i j, i < j → j < q.size → (q.slot i).key < (q.slot j).key)
    (nbr : Neighbor ι δ) : ∀ fuel lo hi, lo ≤ hi → hi ≤ q.size → hi ≤ fuel + lo →
    (∀ i < lo, (q.slot i).key < nbr.key) →
    (∀ i, hi ≤ i → i < q.size → nbr.key < (q.slot i).key) →
    match q.searchSlot nbr fuel lo hi with
    | none => ∃ i < q.size, (q.slot i).id = nbr.id
    | some r => r ≤ q.size ∧ (∀ i < r, (q.slot i).key < nbr.key) ∧
        ∀ i, r ≤ i → i < q.size → nbr.key < (q.slot i).key := by
  intro fuel
  induction fuel with
  | zero =>
      intro lo hi hle hsize hfuel hlo hhi
      exact ⟨by omega, hlo, fun i hi' => hhi i (by omega)⟩
  | succ fuel ih =>
      intro lo hi hle hsize hfuel hlo hhi
      rw [searchSlot]
      by_cases hlt : lo < hi
      · rw [if_pos hlt]
        have hmid : lo ≤ (lo + hi) / 2 ∧ (lo + hi) / 2 < hi := by omega
        simp only
        by_cases hbelow : nbr.lt (q.slot ((lo + hi) / 2)) = true
        · rw [if_pos hbelow]
          rw [Neighbor.lt_iff] at hbelow
          refine ih lo _ hmid.1 (by omega) (by omega) hlo fun i hi' his => ?_
          rcases eq_or_lt_of_le hi' with rfl | hi'
          · exact hbelow
          · exact hbelow.trans (hs _ _ hi' his)
        · rw [if_neg hbelow]
          by_cases hid : (q.slot ((lo + hi) / 2)).id = nbr.id
          · rw [if_pos hid]
            exact ⟨_, by omega, hid⟩
          · rw [if_neg hid]
            rw [Neighbor.lt_iff, not_lt] at hbelow
            have hmidlt : (q.slot ((lo + hi) / 2)).key < nbr.key :=
              lt_of_le_of_ne hbelow fun h => hid (Neighbor.id_eq_of_key_eq h)
            refine ih _ hi (by omega) hsize (by omega) (fun i hi' => ?_) hhi
            rcases eq_or_lt_of_le (Nat.le_of_lt_succ hi') with rfl | hi'
            · exact hmidlt
            · exact (hs _ _ hi' (by omega)).trans hmidlt
      · rw [if_neg hlt]
        exact ⟨by omega, hlo, fun i hi' => hhi i (by omega)⟩

/-- The pool after a candidate has been put into the slot `lo`. -/
def putAt (q : NeighborPriorityQueue ι δ) (nbr : Neighbor ι δ) (lo : ℕ) :
    NeighborPriorityQueue ι δ where
  size := if q.size < q.capacity then q.size + 1 else q.size
  capacity := q.capacity
  cur := if lo < q.cur then lo else q.cur
  data := (shiftUp q.data lo q.size).set lo ⟨nbr.id, nbr.distance, false⟩

/-- **What `insert` can do**: it refuses a candidate above a full pool and one whose id it
meets, and puts any other one into the slot that keeps the pool sorted. -/
lemma Holds.insert_cases (h : Holds q S X) (hcap : 0 < q.capacity) (nbr : Neighbor ι δ) :
    (q.insert nbr = (false, q) ∧
      ((q.size = q.capacity ∧ ∀ k ∈ smallest q.capacity S, k < nbr.key) ∨
        ∃ n ∈ q.live, n.id = nbr.id)) ∨
    ∃ lo, lo < q.capacity ∧ lo ≤ q.size ∧ q.insert nbr = (true, q.putAt nbr lo) ∧
      (∀ i < lo, (q.slot i).key < nbr.key) ∧
      ∀ i, lo ≤ i → i < q.size → nbr.key < (q.slot i).key := by
  have hs : ∀ i j, i < j → j < q.size → (q.slot i).key < (q.slot j).key :=
    fun i j hij hj => h.key_lt hij hj
  by_cases hfull : (q.size == q.capacity && (q.slot (q.size - 1)).lt nbr) = true
  · left
    rw [NeighborPriorityQueue.insert, if_pos hfull]
    rw [Bool.and_eq_true, beq_iff_eq, Neighbor.lt_iff] at hfull
    refine ⟨rfl, Or.inl ⟨hfull.1, fun k hk => ?_⟩⟩
    rw [← h.keys, List.mem_map] at hk
    obtain ⟨n, hn, rfl⟩ := hk
    obtain ⟨i, hi, rfl⟩ := h.mem_live.mp hn
    rcases eq_or_lt_of_le (show i ≤ q.size - 1 by omega) with rfl | hi'
    · exact hfull.2
    · exact (hs _ _ hi' (by omega)).trans hfull.2
  · have hspec := searchSlot_spec hs nbr q.size 0 q.size (Nat.zero_le _) le_rfl (by omega)
      (fun i hi => absurd hi (Nat.not_lt_zero i)) (fun i hi hi' => absurd hi' (by omega))
    rw [NeighborPriorityQueue.insert, if_neg hfull]
    cases hr : q.searchSlot nbr q.size 0 q.size with
    | none =>
        rw [hr] at hspec
        obtain ⟨i, hi, hid⟩ := hspec
        exact Or.inl ⟨rfl, Or.inr ⟨_, h.slot_mem hi, hid⟩⟩
    | some lo =>
        rw [hr] at hspec
        obtain ⟨hle, hbelow, habove⟩ := hspec
        have hlt : lo < q.capacity := by
          by_contra hge
          have hsize := h.size_le
          have hlo : lo = q.size := by omega
          refine hfull ?_
          rw [Bool.and_eq_true, beq_iff_eq, Neighbor.lt_iff]
          exact ⟨by omega, hbelow _ (by omega)⟩
        refine Or.inr ⟨lo, hlt, hle, ?_, hbelow, habove⟩
        simp only [if_pos hlt, putAt]

omit [LinearOrder ι] [LinearOrder δ] [Inhabited ι] [Inhabited δ] in
/-- The data once the slot that became free is filled. -/
lemma shiftUp_set {data : List (Neighbor ι δ)} {lo size : ℕ} (nbr : Neighbor ι δ)
    (hlo : lo ≤ size) (hsize : size < data.length) :
    (shiftUp data lo size).set lo nbr =
      data.take lo ++ nbr :: ((data.drop lo).take (size - lo) ++ data.drop (size + 1)) := by
  have hlen : (data.take lo).length = lo := by
    rw [List.length_take]
    omega
  have hget : data.take (lo + 1) = data.take lo ++ [data[lo]] :=
    List.take_succ_eq_append_getElem (by omega)
  rw [shiftUp, hget, List.append_assoc, List.append_assoc, List.set_append_right _ _ hlen.le, hlen,
    Nat.sub_self]
  rfl

omit [LinearOrder ι] [LinearOrder δ] [Inhabited ι] [Inhabited δ] in
lemma getElem?_shiftUp_set {data : List (Neighbor ι δ)} {lo size : ℕ} (nbr : Neighbor ι δ)
    (hlo : lo ≤ size) (hsize : size < data.length) (i : ℕ) :
    ((shiftUp data lo size).set lo nbr)[i]? =
      if i < lo then data[i]? else if i = lo then some nbr
      else if i ≤ size then data[i - 1]? else data[i]? := by
  have hlen : (data.take lo).length = lo := by
    rw [List.length_take]
    omega
  rw [shiftUp_set nbr hlo hsize]
  rcases lt_trichotomy i lo with hlt | rfl | hgt
  · rw [if_pos hlt, List.getElem?_append_left (hlen.symm ▸ hlt), List.getElem?_take_of_lt hlt]
  · rw [if_neg (lt_irrefl _), if_pos rfl, List.getElem?_append_right hlen.le, hlen, Nat.sub_self]
    rfl
  · obtain ⟨j, rfl⟩ := Nat.exists_eq_add_of_lt hgt
    have hmid : ((data.drop lo).take (size - lo)).length = size - lo := by
      rw [List.length_take, List.length_drop]
      omega
    have hindex : lo + j + 1 - lo = j + 1 := by omega
    rw [if_neg (by omega), if_neg (by omega), List.getElem?_append_right (by omega), hlen, hindex,
      List.getElem?_cons_succ]
    by_cases hj : lo + j + 1 ≤ size
    · rw [if_pos hj, List.getElem?_append_left (by omega), List.getElem?_take_of_lt (by omega),
        List.getElem?_drop]
      rfl
    · rw [if_neg hj, List.getElem?_append_right (by omega), hmid, List.getElem?_drop]
      congr 1
      omega

lemma length_putAt (h : Holds q S X) (nbr : Neighbor ι δ) {lo : ℕ} (hlo : lo ≤ q.size) :
    (q.putAt nbr lo).data.length = q.capacity + 1 := by
  have h1 := h.room
  have h2 := h.size_le
  simp only [putAt, shiftUp, List.length_set, List.length_append, List.length_take,
    List.length_drop]
  omega

lemma slot_putAt (h : Holds q S X) (nbr : Neighbor ι δ) {lo : ℕ} (hlo : lo ≤ q.size) {i : ℕ}
    (hi : i ≤ q.size) :
    (q.putAt nbr lo).slot i =
      if i < lo then q.slot i else if i = lo then ⟨nbr.id, nbr.distance, false⟩
      else q.slot (i - 1) := by
  have h1 := h.room
  have h2 := h.size_le
  simp only [slot, putAt, List.getD_eq_getElem?_getD,
    getElem?_shiftUp_set _ hlo (show q.size < q.data.length by omega)]
  split_ifs <;> rfl

lemma live_putAt (h : Holds q S X) (nbr : Neighbor ι δ) {lo : ℕ} (hlo : lo ≤ q.size) :
    (q.putAt nbr lo).live =
      (q.live.take lo ++ ⟨nbr.id, nbr.distance, false⟩ :: q.live.drop lo).take q.capacity := by
  have h1 := h.room
  have h2 := h.size_le
  have hsize : q.size < q.data.length := by omega
  have hlen : (q.live.take lo ++ (⟨nbr.id, nbr.distance, false⟩ : Neighbor ι δ) ::
      q.live.drop lo).length = q.size + 1 := by
    simp only [live, List.length_append, List.length_cons, List.length_take, List.length_drop]
    omega
  have hsplit : (q.putAt nbr lo).data
      = (q.live.take lo ++ ⟨nbr.id, nbr.distance, false⟩ :: q.live.drop lo)
        ++ q.data.drop (q.size + 1) := by
    rw [putAt, shiftUp_set _ hlo hsize, live, List.take_take, Nat.min_eq_left hlo, List.drop_take,
      List.append_assoc, List.cons_append]
  rcases Nat.lt_or_ge q.size q.capacity with hroom | hfull
  · have hnew : (q.putAt nbr lo).size = q.size + 1 := if_pos hroom
    rw [live, hsplit, hnew, List.take_append_of_le_length hlen.ge,
      List.take_of_length_le hlen.le, List.take_of_length_le (hlen.le.trans hroom)]
  · have hnew : (q.putAt nbr lo).size = q.capacity :=
      (if_neg hfull.not_gt).trans (h2.antisymm hfull)
    rw [live, hsplit, hnew, List.take_append_of_le_length (by omega)]

/-- A candidate put into its slot joins the set. -/
lemma Holds.putAt (h : Holds q S X) {nbr : Neighbor ι δ} {lo : ℕ} (hcap : lo < q.capacity)
    (hlo : lo ≤ q.size) (hbelow : ∀ i < lo, (q.slot i).key < nbr.key)
    (habove : ∀ i, lo ≤ i → i < q.size → nbr.key < (q.slot i).key) (hS : nbr.key ∉ S)
    (hX : nbr.key ∉ X) : Holds (q.putAt nbr lo) (insert nbr.key S) X := by
  have hsize := h.size_le
  have hcur := h.cur_le
  have hsize' : (q.putAt nbr lo).size = min (q.size + 1) q.capacity := by
    simp only [NeighborPriorityQueue.putAt]
    split_ifs <;> omega
  have hcur' : (q.putAt nbr lo).cur = min lo q.cur := by
    simp only [NeighborPriorityQueue.putAt]
    split_ifs <;> omega
  have hslot := fun i (hi : i ≤ q.size) => slot_putAt h nbr hlo hi
  refine ⟨length_putAt h nbr hlo, ?_, ?_, ?_, ?_, ?_, ?_⟩
  · rw [hsize']
    exact min_le_right _ _
  · rw [live_putAt h nbr hlo, List.map_take, List.map_append, List.map_cons,
      List.map_take, List.map_drop, h.keys]
    show _ = smallest q.capacity (insert nbr.key S)
    rw [smallest_insert _ hS]
    congr 1
    conv_rhs => rw [← List.take_append_drop lo (smallest q.capacity S)]
    have hlen : (smallest q.capacity S).length = q.size := by
      rw [← h.keys, List.length_map, h.length_live]
    have hget : ∀ i (hi : i < (smallest q.capacity S).length),
        (smallest q.capacity S)[i] = (q.slot i).key := by
      intro i hi
      have hi' : i < q.live.length := by rw [h.length_live]; omega
      simp only [← h.keys, List.getElem_map, h.getElem_live hi']
    refine (orderedInsert_append (fun k hk => ?_) fun k hk => ?_).symm
    · obtain ⟨i, hi, rfl⟩ := List.mem_iff_getElem.mp hk
      rw [List.length_take] at hi
      rw [List.getElem_take, hget]
      exact hbelow i (by omega)
    · obtain ⟨i, hi, rfl⟩ := List.mem_iff_getElem.mp hk
      rw [List.length_drop] at hi
      rw [List.getElem_drop, hget]
      exact habove _ (by omega) (by omega)
  · intro n hn
    rw [live_putAt h nbr hlo] at hn
    rcases List.mem_append.mp (List.mem_of_mem_take hn) with hn | hn
    · exact h.flags n (List.mem_of_mem_take hn)
    · rcases List.mem_cons.mp hn with rfl | hn
      · exact ⟨fun hf => absurd hf (by simp), fun hf => absurd hf hX⟩
      · exact h.flags n (List.mem_of_mem_drop hn)
  · rw [hcur', hsize']
    omega
  · intro i hi
    rw [hcur'] at hi
    rw [hslot i (by omega), if_pos (by omega)]
    exact h.before_cur i (by omega)
  · intro hlt
    rw [hcur', hsize'] at hlt
    rw [hcur', hslot _ (by omega)]
    rcases Nat.lt_or_ge q.cur lo with hc | hc
    · rw [min_eq_right hc.le, if_pos hc]
      exact h.at_cur (by omega)
    · rw [min_eq_left hc, if_neg (lt_irrefl _), if_pos rfl]

/-- **Insertion joins the set.** A candidate whose id is known only with this very distance
joins the set the pool holds, whether or not it stays in the pool, and `insert` answers
`true` exactly when it is new and stays. -/
protected theorem Holds.insert (h : Holds q S X) (hcap : 0 < q.capacity) (nbr : Neighbor ι δ)
    (hid : ∀ k ∈ S, (ofLex k).2 = nbr.id → k = nbr.key) (hX : nbr.key ∈ X → nbr.key ∈ S) :
    Holds (q.insert nbr).2 (insert nbr.key S) X ∧
      ((q.insert nbr).1 = true ↔
        nbr.key ∉ S ∧ nbr.key ∈ smallest q.capacity (insert nbr.key S)) ∧
      (q.insert nbr).2.capacity = q.capacity := by
  rcases h.insert_cases hcap nbr with
    ⟨heq, ⟨hfull, hall⟩ | ⟨n, hn, hnid⟩⟩ | ⟨lo, hlt, hle, heq, hbelow, habove⟩
  · have hcard : q.capacity ≤ S.card := by
      have := h.size_eq
      omega
    have hsm := smallest_insert_of_full hcard hall
    rw [heq]
    refine ⟨⟨h.room, h.size_le, h.keys.trans hsm.symm, h.flags, h.cur_le, h.before_cur,
      h.at_cur⟩, ⟨fun hf => absurd hf (by simp), fun hmem => ?_⟩, rfl⟩
    rw [hsm] at hmem
    exact absurd (hall _ hmem.2) (lt_irrefl _)
  · have hkey : n.key = nbr.key := hid _ (h.key_mem hn) hnid
    have hmem : nbr.key ∈ S := hkey ▸ h.key_mem hn
    rw [heq, Finset.insert_eq_of_mem hmem]
    exact ⟨h, ⟨fun hf => absurd hf (by simp), fun hf => absurd hmem hf.1⟩, rfl⟩
  · have hnot : nbr.key ∉ smallest q.capacity S := by
      rw [← h.keys, List.mem_map]
      rintro ⟨n, hn, hkey⟩
      obtain ⟨i, hi, rfl⟩ := h.mem_live.mp hn
      rcases Nat.lt_or_ge i lo with hi' | hi'
      · exact absurd hkey (hbelow i hi').ne
      · exact absurd hkey (habove i hi' hi).ne'
    have hS : nbr.key ∉ S := by
      intro hmem
      have hlen := card_of_not_mem_smallest hmem hnot
      rw [← h.keys, List.length_map, h.length_live] at hlen
      refine lt_asymm (lt_of_not_mem_smallest (h.key_mem_smallest (i := lo) ?_) hmem hnot)
        (habove lo le_rfl ?_) <;> omega
    have hput := h.putAt hlt hle hbelow habove hS fun hx => hS (hX hx)
    rw [heq]
    refine ⟨hput, ⟨fun _ => ⟨hS, ?_⟩, fun _ => rfl⟩, rfl⟩
    have hsize : lo < (q.putAt nbr lo).size := by
      simp only [NeighborPriorityQueue.putAt]
      split_ifs <;> omega
    have hmem := hput.key_mem_smallest hsize
    rw [slot_putAt h nbr hle hle, if_neg (lt_irrefl _), if_pos rfl] at hmem
    exact hmem

/-! ### Expansion -/

/-- The entry under the cursor is the first member of the pool outside `X`. -/
lemma Holds.find?_smallest (h : Holds q S X) (hcur : q.cur < q.size) :
    (smallest q.capacity S).find? (· ∉ X) = some (q.slot q.cur).key := by
  rw [← h.keys, List.find?_map]
  have hlen := h.length_live
  have hfind : q.live.find? ((fun k => decide (k ∉ X)) ∘ Neighbor.key)
      = some (q.slot q.cur) := by
    rw [List.find?_eq_some_iff_getElem]
    refine ⟨?_, q.cur, by omega, h.getElem_live _, fun j hj => ?_⟩
    · have hflag := h.flags _ (h.slot_mem hcur)
      rw [h.at_cur hcur] at hflag
      simpa using hflag
    · have hflag := h.flags _ (h.slot_mem (i := j) (by omega))
      rw [h.before_cur j hj] at hflag
      rw [h.getElem_live]
      simpa using hflag
  rw [hfind, Option.map_some]

/-- The pool is exhausted exactly when all it holds is expanded. -/
lemma Holds.hasUnexpandedNode_eq_false (h : Holds q S X) :
    q.hasUnexpandedNode = false ↔ ∀ k ∈ smallest q.capacity S, k ∈ X := by
  have hcur := h.cur_le
  rw [hasUnexpandedNode, decide_eq_false_iff_not]
  constructor
  · intro hge k hk
    rw [← h.keys, List.mem_map] at hk
    obtain ⟨n, hn, rfl⟩ := hk
    obtain ⟨i, hi, rfl⟩ := h.mem_live.mp hn
    exact (h.flags _ hn).mp (h.before_cur i (by omega))
  · intro hall hlt
    have hflag := h.flags _ (h.slot_mem hlt)
    rw [h.at_cur hlt] at hflag
    exact absurd (hflag.mpr (hall _ (h.key_mem_smallest hlt))) (by simp)

/-- The last entry speaks for all of them, in a property that is passed on to smaller pairs. -/
lemma Holds.exists_not_iff_last (h : Holds q S X) {p : δ ×ₗ ι → Prop}
    (hp : ∀ a b, a ≤ b → p b → p a) (hpos : 0 < q.size) :
    (∃ a ∈ smallest q.capacity S, ¬ p a) ↔ ¬ p (q.slot (q.size - 1)).key := by
  have hlast : q.size - 1 < q.size := by omega
  refine ⟨fun ⟨a, ha, hpa⟩ hpl => hpa ?_, fun hpl => ⟨_, h.key_mem_smallest hlast, hpl⟩⟩
  rw [← h.keys, List.mem_map] at ha
  obtain ⟨n, hn, rfl⟩ := ha
  obtain ⟨i, hi, rfl⟩ := h.mem_live.mp hn
  rcases eq_or_lt_of_le (show i ≤ q.size - 1 by omega) with rfl | hlt
  · exact hpl
  · exact hp _ _ (h.key_lt hlt hlast).le hpl

/-- **The last entry of a full pool moves down only**: a pool of the same capacity that holds
more is full as well, and its last entry is at most as distant. -/
lemma Holds.last_le (h : Holds q S X) {q' : NeighborPriorityQueue ι δ} {S' X' : Finset (δ ×ₗ ι)}
    (h' : Holds q' S' X') (hcap : q'.capacity = q.capacity) (hsub : S ⊆ S')
    (hfull : q.size = q.capacity) (hpos : 0 < q.capacity) :
    q'.size = q'.capacity ∧
      (q'.slot (q'.size - 1)).distance ≤ (q.slot (q.size - 1)).distance := by
  have hcard := Finset.card_le_card hsub
  have hsize := h.size_eq
  have hsize' := h'.size_eq
  have hfull' : q'.size = q'.capacity := by omega
  refine ⟨hfull', le_of_not_gt fun hlt => ?_⟩
  -- the entries of the first pool all lie below the last one of the second, and fill it
  have hlast := mem_smallest.mp (h'.key_mem_smallest (i := q'.size - 1) (by omega))
  have hbelow : (smallest q.capacity S).toFinset
      ⊆ S'.filter (· < (q'.slot (q'.size - 1)).key) := by
    intro k hk
    rw [List.mem_toFinset] at hk
    refine Finset.mem_filter.mpr ⟨hsub (mem_of_mem_smallest hk), ?_⟩
    rw [← h.keys, List.mem_map] at hk
    obtain ⟨n, hn, rfl⟩ := hk
    obtain ⟨i, hi, rfl⟩ := h.mem_live.mp hn
    have hle : (q.slot i).key ≤ (q.slot (q.size - 1)).key := by
      rcases eq_or_lt_of_le (show i ≤ q.size - 1 by omega) with rfl | hi'
      · exact le_rfl
      · exact (h.key_lt hi' (by omega)).le
    exact hle.trans_lt (Prod.Lex.lt_iff.mpr (Or.inl hlt))
  have hmany := Finset.card_le_card hbelow
  rw [List.toFinset_card_of_nodup (nodup_smallest _ _), length_smallest] at hmany
  have hfew := hlast.2
  omega

/-- All entries are expanded exactly when all that the pool holds is expanded. -/
lemma Holds.expanded_iff (h : Holds q S X) :
    (∀ n ∈ q.live, n.expanded = true) ↔ ∀ k ∈ smallest q.capacity S, k ∈ X := by
  rw [← h.keys, List.forall_mem_map]
  exact forall₂_congr h.flags

/-- The pool with the entry under the cursor marked expanded. -/
def marked (q : NeighborPriorityQueue ι δ) : NeighborPriorityQueue ι δ :=
  { q with data := q.data.set q.cur { q.slot q.cur with expanded := true } }

lemma Holds.slot_marked (h : Holds q S X) (hcur : q.cur < q.size) (i : ℕ) :
    q.marked.slot i = if i = q.cur then { q.slot q.cur with expanded := true } else q.slot i := by
  have h1 := h.room
  have h2 := h.size_le
  simp only [slot, marked, List.getD_eq_getElem?_getD, List.getElem?_set]
  by_cases hi : i = q.cur
  · subst hi
    rw [if_pos rfl, if_pos (by omega), if_pos rfl]
    rfl
  · rw [if_neg (Ne.symm hi), if_neg hi]

/-- Where the cursor comes to rest: past every expanded entry, on the first other one. -/
lemma cursor_spec {p : ℕ → Bool} {c size : ℕ} (hc : c ≤ size) (hp : ∀ i < c, p i = true) :
    let c' := whileLoop (fun c => decide (c < size) && p c) (· + 1) size c
    c' ≤ size ∧ (∀ i < c', p i = true) ∧ (c' < size → p c' = false) := by
  intro c'
  have hinv : c' ≤ size ∧ ∀ i < c', p i = true := by
    refine whileLoop_invariant (I := fun c => c ≤ size ∧ ∀ i < c, p i = true)
      (fun d hd hcond => ?_) ⟨hc, hp⟩ size
    rw [Bool.and_eq_true, decide_eq_true_iff] at hcond
    refine ⟨hcond.1, fun i hi => ?_⟩
    rcases eq_or_lt_of_le (Nat.le_of_lt_succ hi) with rfl | hi
    · exact hcond.2
    · exact hd.2 i hi
  have hexit : (fun c => decide (c < size) && p c) c' = false := by
    refine @whileLoop_exits ℕ (fun c => decide (c < size) && p c) (· + 1) (fun _ => True)
      (fun d => size - d) (fun d _ hcond => ?_) c trivial size (Nat.sub_le size c)
    rw [Bool.and_eq_true, decide_eq_true_iff] at hcond
    exact ⟨trivial, by omega⟩
  refine ⟨hinv.1, hinv.2, fun hlt => ?_⟩
  simpa [hlt] using hexit

/-- **Expansion marks the first unexpanded entry.** The pool keeps its set and adds the key
of the entry it returns to the expanded ones. -/
theorem Holds.closestUnexpanded (h : Holds q S X) (hcur : q.cur < q.size) :
    q.closestUnexpanded.1 = { q.slot q.cur with expanded := true } ∧
      Holds q.closestUnexpanded.2 S (insert (q.slot q.cur).key X) ∧
      q.closestUnexpanded.2.capacity = q.capacity := by
  have hslot := h.slot_marked hcur
  obtain ⟨hle, hbefore, hat⟩ := cursor_spec (p := fun c => (q.marked.slot c).expanded)
    h.cur_le fun i hi => by
      rw [hslot, if_neg (by omega)]
      exact h.before_cur i hi
  have hlive : q.marked.live.map Neighbor.key = q.live.map Neighbor.key := by
    refine List.ext_getElem? fun i => ?_
    simp only [live, marked, List.getElem?_map, List.getElem?_take, List.getElem?_set]
    split_ifs with h1 h2 h3
    · subst h2
      have : q.slot q.cur = q.data[q.cur] := by simp [slot, h3]
      rw [List.getElem?_eq_getElem h3, Option.map_some, Option.map_some, this]
      rfl
    · subst h2
      rw [List.getElem?_eq_none (by omega)]
    · rfl
    · rfl
  refine ⟨?_, ⟨?_, h.size_le, ?_, ?_, hle, hbefore, hat⟩, rfl⟩
  · show q.marked.slot q.cur = _
    rw [hslot, if_pos rfl]
  · show q.marked.data.length = q.capacity + 1
    rw [marked, List.length_set, h.room]
  · exact hlive.trans h.keys
  · intro n hn
    change n ∈ q.marked.data.take q.size at hn
    obtain ⟨i, hi, rfl⟩ := List.mem_iff_getElem.mp hn
    rw [List.length_take] at hi
    have hget : (q.marked.data.take q.size)[i] = q.marked.slot i := by
      have : i < q.marked.data.length := by omega
      simp [slot, this]
    rw [hget, hslot, Finset.mem_insert]
    split_ifs with hic
    · exact ⟨fun _ => Or.inl rfl, fun _ => rfl⟩
    · have hlt : i < q.size := by omega
      rw [h.flags _ (h.slot_mem hlt)]
      refine ⟨Or.inr, fun hor => hor.resolve_left fun heq => ?_⟩
      rcases Nat.lt_or_ge i q.cur with hi' | hi'
      · exact (h.key_lt hi' hcur).ne heq
      · exact (h.key_lt (show q.cur < i by omega) hlt).ne' heq

/-! ### The slots behind the live entries -/

/-- **A pool that grows leaves the rest alone**: the slots between what is live in the end and
the capacity are as they were. -/
structure Grows (q q' : NeighborPriorityQueue ι δ) : Prop where
  capacity : q'.capacity = q.capacity
  size_le : q.size ≤ q'.size
  slot : ∀ i, q'.size ≤ i → i < q.capacity → q'.slot i = q.slot i

omit [LinearOrder ι] [LinearOrder δ] in
lemma Grows.refl (q : NeighborPriorityQueue ι δ) : Grows q q := ⟨rfl, le_rfl, fun _ _ _ => rfl⟩

omit [LinearOrder ι] [LinearOrder δ] in
lemma Grows.trans {q₁ q₂ q₃ : NeighborPriorityQueue ι δ} (h : Grows q₁ q₂) (h' : Grows q₂ q₃) :
    Grows q₁ q₃ where
  capacity := h'.capacity.trans h.capacity
  size_le := h.size_le.trans h'.size_le
  slot i hi hcap := by
    rw [h'.slot i hi (by rwa [h.capacity]), h.slot i (h'.size_le.trans hi) hcap]

lemma Holds.grows_insert (h : Holds q S X) (hcap : 0 < q.capacity) (nbr : Neighbor ι δ) :
    Grows q (q.insert nbr).2 := by
  rcases h.insert_cases hcap nbr with ⟨heq, -⟩ | ⟨lo, hlt, hle, heq, -, -⟩
  · rw [heq]
    exact Grows.refl q
  · have hroom := h.room
    have hsize := h.size_le
    have hsize' : (q.putAt nbr lo).size = min (q.size + 1) q.capacity := by
      simp only [NeighborPriorityQueue.putAt]
      split_ifs <;> omega
    rw [heq]
    refine ⟨rfl, by rw [hsize']; omega, fun i hi hicap => ?_⟩
    -- a slot that is still free lies behind the last one that was shifted
    simp only [hsize'] at hi
    simp only [slot, NeighborPriorityQueue.putAt, List.getD_eq_getElem?_getD,
      getElem?_shiftUp_set _ hle (show q.size < q.data.length by omega)]
    rw [if_neg (by omega), if_neg (by omega), if_neg (by omega)]

lemma Holds.grows_closestUnexpanded (h : Holds q S X) (hcur : q.cur < q.size) :
    Grows q q.closestUnexpanded.2 := by
  refine ⟨rfl, le_rfl, fun i hi _ => ?_⟩
  change q.size ≤ i at hi
  show q.marked.slot i = q.slot i
  rw [h.slot_marked hcur, if_neg (by omega)]

end NeighborPriorityQueue

end RedAnns
