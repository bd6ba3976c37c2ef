import RedAnns.Core.PoolContract

/-!
The ids of the candidate pool, under any sequence of calls.

`PoolContract.lean` follows the clients that insert an id with one distance. Here the pairs are
arbitrary: an id may come back with another distance, and `insert` looks for it only among the
entries that the binary search compares the candidate with.

* `probes`: the slots the binary search compares with; `NoTwin`: what keeps the id of a candidate
  from being live twice.
* `Holds.nodup_ids_insert_iff`: one insertion.
* `PoolRun.Sound`: what every call keeps, with arbitrary pairs.
* `distinctIds_iff`: the ids are distinct throughout a run exactly when `NoTwin` is true at every
  insertion.
-/

namespace RedAnns

namespace NeighborPriorityQueue

variable {ι δ : Type} [LinearOrder ι] [LinearOrder δ] [Inhabited ι] [Inhabited δ]

/-- The ids of the live entries. -/
def ids (q : NeighborPriorityQueue ι δ) : List ι := q.live.map Neighbor.id

/-- The slots that the binary search of `insert` compares the candidate with. -/
def probes (q : NeighborPriorityQueue ι δ) (nbr : Neighbor ι δ) : ℕ → ℕ → ℕ → List ℕ
  | 0, _, _ => []
  | fuel + 1, lo, hi =>
      if lo < hi then
        let mid := (lo + hi) / 2
        mid :: if nbr.lt (q.slot mid) then probes q nbr fuel lo mid
          else probes q nbr fuel (mid + 1) hi
      else []

/-- The first test of `insert`: the pool is full, and its last entry is in front of the
candidate. -/
def Refuses (q : NeighborPriorityQueue ι δ) (nbr : Neighbor ι δ) : Prop :=
  q.size = q.capacity ∧ (q.slot (q.size - 1)).lt nbr = true

/-- **What keeps an id from being live twice.** A live entry with the id of the candidate is at the
same distance; or it is nearer, and the candidate is refused or the binary search compares with this
entry; or it is farther, and it is the last one of a full pool, which is evicted. -/
def NoTwin (q : NeighborPriorityQueue ι δ) (nbr : Neighbor ι δ) : Prop :=
  ∀ i < q.size, (q.slot i).id = nbr.id →
    (q.slot i).distance = nbr.distance ∨
    ((q.slot i).distance < nbr.distance ∧
      (q.Refuses nbr ∨ i ∈ q.probes nbr q.size 0 q.size)) ∨
    (nbr.distance < (q.slot i).distance ∧ q.size = q.capacity ∧ i + 1 = q.size)

variable {q : NeighborPriorityQueue ι δ} {S X : Finset (δ ×ₗ ι)} {nbr : Neighbor ι δ}

lemma lt_of_mem_probes {fuel lo hi j : ℕ} (h : j ∈ q.probes nbr fuel lo hi) : j < hi := by
  induction fuel generalizing lo hi with
  | zero => exact absurd h List.not_mem_nil
  | succ fuel ih =>
      rw [probes] at h
      split_ifs at h with hlt
      · rcases List.mem_cons.mp h with rfl | h
        · omega
        · split_ifs at h
          · have := ih h
            omega
          · exact ih h
      · exact absurd h List.not_mem_nil

/-- The search gives up at an entry with the id that is not behind the candidate. -/
lemma searchSlot_eq_none_iff {fuel lo hi : ℕ} : q.searchSlot nbr fuel lo hi = none ↔
    ∃ j ∈ q.probes nbr fuel lo hi, nbr.lt (q.slot j) = false ∧ (q.slot j).id = nbr.id := by
  induction fuel generalizing lo hi with
  | zero => simp [searchSlot, probes]
  | succ fuel ih =>
      rw [searchSlot, probes]
      by_cases hlt : lo < hi
      · simp only [if_pos hlt]
        by_cases hbelow : nbr.lt (q.slot ((lo + hi) / 2)) = true
        · rw [if_pos hbelow, if_pos hbelow, ih]
          simp [hbelow]
        · rw [if_neg hbelow, if_neg hbelow]
          rw [Bool.not_eq_true] at hbelow
          by_cases hid : (q.slot ((lo + hi) / 2)).id = nbr.id
          · rw [if_pos hid]
            exact ⟨fun _ => ⟨_, List.mem_cons_self .., hbelow, hid⟩, fun _ => rfl⟩
          · rw [if_neg hid, ih]
            simp [hid]
      · simp [if_neg hlt]

/-- **What `insert` does**: it refuses the candidate, it meets the id, or it puts the candidate into
the slot that keeps the pool sorted. -/
lemma Holds.insert_split (h : Holds q S X) (hcap : 0 < q.capacity) (nbr : Neighbor ι δ) :
    (q.insert nbr = (false, q) ∧ q.Refuses nbr) ∨
    (q.insert nbr = (false, q) ∧
      ∃ j ∈ q.probes nbr q.size 0 q.size, nbr.lt (q.slot j) = false ∧ (q.slot j).id = nbr.id) ∨
    (¬ q.Refuses nbr ∧
      (∀ j ∈ q.probes nbr q.size 0 q.size, nbr.lt (q.slot j) = false → (q.slot j).id ≠ nbr.id) ∧
      ∃ lo, lo < q.capacity ∧ lo ≤ q.size ∧ q.insert nbr = (true, q.putAt nbr lo) ∧
        (∀ i < lo, (q.slot i).key < nbr.key) ∧
        ∀ i, lo ≤ i → i < q.size → nbr.key < (q.slot i).key) := by
  by_cases hfull : (q.size == q.capacity && (q.slot (q.size - 1)).lt nbr) = true
  · left
    refine ⟨by rw [NeighborPriorityQueue.insert, if_pos hfull], ?_⟩
    rwa [Bool.and_eq_true, beq_iff_eq] at hfull
  · right
    cases hr : q.searchSlot nbr q.size 0 q.size with
    | none =>
        left
        refine ⟨by rw [NeighborPriorityQueue.insert, if_neg hfull, hr], ?_⟩
        exact searchSlot_eq_none_iff.mp hr
    | some lo =>
        right
        refine ⟨fun hrefuse => hfull ?_, fun j hj hbelow hid => ?_, ?_⟩
        · rw [Bool.and_eq_true, beq_iff_eq]
          exact hrefuse
        · have hnone := searchSlot_eq_none_iff.mpr ⟨j, hj, hbelow, hid⟩
          rw [hr] at hnone
          exact absurd hnone (by simp)
        · rcases h.insert_cases hcap nbr with ⟨heq, -⟩ | hput
          · rw [NeighborPriorityQueue.insert, if_neg hfull, hr] at heq
            exact absurd heq (by simp)
          · exact hput

lemma Holds.nodup_ids_iff (h : Holds q S X) : q.ids.Nodup ↔
    ∀ i j, i < j → j < q.size → (q.slot i).id ≠ (q.slot j).id := by
  have hlen : q.ids.length = q.size := by rw [ids, List.length_map, h.length_live]
  rw [List.Nodup, List.pairwise_iff_getElem]
  constructor
  · intro hp i j hij hj
    have := hp i j (by omega) (by omega) hij
    simpa [ids, h.getElem_live] using this
  · intro hp i j hi hj hij
    have := hp i j hij (by omega)
    simpa [ids, h.getElem_live] using this

/-- A pool holds its own live entries. -/
lemma Holds.refocus (h : Holds q S X) :
    Holds q (smallest q.capacity S).toFinset (X ∩ (smallest q.capacity S).toFinset) where
  room := h.room
  size_le := h.size_le
  keys := by
    have hcard : (smallest q.capacity S).toFinset.card ≤ q.capacity := by
      rw [List.toFinset_card_of_nodup (nodup_smallest _ _), length_smallest]
      exact min_le_left _ _
    rw [h.keys, smallest_of_card_le hcard]
    exact eq_sort_of_pairwise (pairwise_smallest _ _) fun a => List.mem_toFinset.symm
  flags n hn := by
    have hmem : n.key ∈ (smallest q.capacity S).toFinset := by
      rw [List.mem_toFinset, ← h.keys]
      exact List.mem_map_of_mem hn
    rw [h.flags n hn, Finset.mem_inter]
    exact ⟨fun hx => ⟨hx, hmem⟩, fun hx => hx.1⟩
  cur_le := h.cur_le
  before_cur := h.before_cur
  at_cur := h.at_cur

/-- A candidate that is put into its slot is not among the live entries. -/
lemma Holds.not_mem_smallest (h : Holds q S X) {lo : ℕ}
    (hbelow : ∀ i < lo, (q.slot i).key < nbr.key)
    (habove : ∀ i, lo ≤ i → i < q.size → nbr.key < (q.slot i).key) :
    nbr.key ∉ smallest q.capacity S := by
  rw [← h.keys, List.mem_map]
  rintro ⟨n, hn, hkey⟩
  obtain ⟨i, hi, rfl⟩ := h.mem_live.mp hn
  rcases Nat.lt_or_ge i lo with hi' | hi'
  · exact absurd hkey (hbelow i hi').ne
  · exact absurd hkey (habove i hi' hi).ne'

/-- Whatever the pair, the pool after an insertion holds its live entries. -/
lemma Holds.exists_insert (h : Holds q S X) (hcap : 0 < q.capacity) (nbr : Neighbor ι δ) :
    ∃ S' X', Holds (q.insert nbr).2 S' X' ∧ (q.insert nbr).2.capacity = q.capacity := by
  rcases h.insert_cases hcap nbr with ⟨heq, -⟩ | ⟨lo, hlt, hle, heq, hbelow, habove⟩
  · exact ⟨S, X, by rw [heq]; exact h, by rw [heq]⟩
  · have hnew := h.not_mem_smallest hbelow habove
    rw [← List.mem_toFinset] at hnew
    rw [heq]
    exact ⟨_, _, h.refocus.putAt hlt hle hbelow habove hnew
      fun hx => hnew (Finset.mem_inter.mp hx).2, rfl⟩

omit [Inhabited ι] [Inhabited δ] in
lemma Neighbor.distance_lt_of_key_lt {n other : Neighbor ι δ} (h : n.key < other.key)
    (hid : n.id = other.id) : n.distance < other.distance := by
  rcases Prod.Lex.lt_iff.mp h with hlt | ⟨-, hlt⟩
  · exact hlt
  · exact absurd hid (ne_of_lt hlt)

/-- **One insertion keeps the ids distinct** exactly when there is no twin. -/
theorem Holds.nodup_ids_insert_iff (h : Holds q S X) (hcap : 0 < q.capacity)
    (hids : q.ids.Nodup) (nbr : Neighbor ι δ) :
    (q.insert nbr).2.ids.Nodup ↔ q.NoTwin nbr := by
  have hold := h.nodup_ids_iff.mp hids
  rcases h.insert_split hcap nbr with
    ⟨heq, hrefuse⟩ | ⟨heq, j, hj, hbelow, hjid⟩ | ⟨hnot, hmiss, lo, hlt, hle, heq, hlo, hhi⟩
  · -- refused: the pool stays as it is, and an entry with the id is nearer
    rw [heq]
    refine ⟨fun _ i hi hid => Or.inr (Or.inl ⟨?_, Or.inl hrefuse⟩), fun _ => hids⟩
    have hlast : (q.slot i).key ≤ (q.slot (q.size - 1)).key := by
      rcases eq_or_lt_of_le (show i ≤ q.size - 1 by omega) with rfl | hi'
      · exact le_rfl
      · exact (h.key_lt hi' (by omega)).le
    exact Neighbor.distance_lt_of_key_lt (hlast.trans_lt (Neighbor.lt_iff.mp hrefuse.2)) hid
  · -- met: the one entry with the id is among those the search compares with
    rw [heq]
    refine ⟨fun _ i hi hid => ?_, fun _ => hids⟩
    have hjs := lt_of_mem_probes hj
    have hij : i = j := by
      rcases lt_trichotomy i j with hij | hij | hij
      · exact absurd (hid.trans hjid.symm) (hold i j hij hjs)
      · exact hij
      · exact absurd (hjid.trans hid.symm) (hold j i hij hi)
    subst hij
    have hkey : (q.slot i).key ≤ nbr.key := by
      rw [← not_lt, ← Neighbor.lt_iff, hbelow]
      exact Bool.false_ne_true
    rcases eq_or_lt_of_le hkey with hkey | hkey
    · exact Or.inl (congrArg (fun k => (ofLex k).1) hkey)
    · exact Or.inr (Or.inl ⟨Neighbor.distance_lt_of_key_lt hkey hid, Or.inr hj⟩)
  · -- put into its slot, beside every entry with the id that is not evicted
    have hnew := h.not_mem_smallest hlo hhi
    rw [← List.mem_toFinset] at hnew
    have hput := h.refocus.putAt hlt hle hlo hhi hnew fun hx => hnew (Finset.mem_inter.mp hx).2
    have hsize : (q.putAt nbr lo).size = min (q.size + 1) q.capacity := by
      have := h.size_le
      simp only [NeighborPriorityQueue.putAt]
      split_ifs <;> omega
    have hslot := fun i (hi : i ≤ q.size) => slot_putAt h nbr hle hi
    rw [heq, hput.nodup_ids_iff, hsize]
    constructor
    · intro hnodup i hi hid
      rcases Nat.lt_or_ge i lo with hil | hil
      · have hne := hnodup i lo hil (by omega)
        rw [hslot i (by omega), hslot lo hle, if_pos hil, if_neg (lt_irrefl lo), if_pos rfl] at hne
        exact absurd hid hne
      · rcases Nat.lt_or_ge (i + 1) (min (q.size + 1) q.capacity) with hin | hout
        · have hne := hnodup lo (i + 1) (by omega) hin
          rw [hslot (i + 1) (by omega), hslot lo hle, if_neg (lt_irrefl lo), if_pos rfl,
            if_neg (by omega), if_neg (by omega), Nat.add_sub_cancel] at hne
          exact absurd hid.symm hne
        · have := h.size_le
          exact Or.inr (Or.inr ⟨Neighbor.distance_lt_of_key_lt (hhi i hil hi) hid.symm,
            by omega, by omega⟩)
    · intro htwin i j hij hj
      -- an old entry with the id that stays would have been met
      have hbefore : ∀ i < lo, (q.slot i).id ≠ nbr.id := by
        intro i hi hid
        have hnear := Neighbor.distance_lt_of_key_lt (hlo i hi) hid
        rcases htwin i (by omega) hid with hd | ⟨-, hrefuse | hprobe⟩ | ⟨hfar, -⟩
        · exact absurd hd hnear.ne
        · exact hnot hrefuse
        · refine hmiss i hprobe ?_ hid
          rw [← Bool.not_eq_true, Neighbor.lt_iff, not_lt]
          exact (hlo i hi).le
        · exact absurd hnear hfar.not_gt
      have hafter : ∀ i, lo ≤ i → i + 1 < min (q.size + 1) q.capacity →
          nbr.id ≠ (q.slot i).id := by
        intro i hi hin hid
        have hfar := Neighbor.distance_lt_of_key_lt (hhi i hi (by omega)) hid
        rcases htwin i (by omega) hid.symm with hd | ⟨hnear, -⟩ | ⟨-, hfull, hlast⟩
        · exact absurd hd hfar.ne'
        · exact absurd hnear hfar.not_gt
        · omega
      rw [hslot i (by omega), hslot j (by omega)]
      rcases lt_trichotomy i lo with hil | rfl | hil
      · rw [if_pos hil]
        split_ifs with hjl hjl'
        · exact hold i j hij (by omega)
        · exact hbefore i hil
        · exact hold i (j - 1) (by omega) (by omega)
      · rw [if_neg (lt_irrefl i), if_pos rfl, if_neg (by omega), if_neg (by omega)]
        exact hafter (j - 1) (by omega) (by omega)
      · rw [if_neg (by omega), if_neg (by omega), if_neg (by omega), if_neg (by omega)]
        exact hold (i - 1) (j - 1) (by omega) (by omega)

/-- Expanding beyond the last entry leaves the live entries alone. -/
lemma Holds.closestUnexpanded_of_exhausted (h : Holds q S X) (hcur : q.cur = q.size) :
    Holds q.closestUnexpanded.2 S X ∧ q.closestUnexpanded.2.live = q.live := by
  have hslot : ∀ i < q.size, q.closestUnexpanded.2.slot i = q.slot i := by
    intro i hi
    show q.marked.slot i = q.slot i
    simp only [slot, marked, List.getD_eq_getElem?_getD, List.getElem?_set]
    rw [if_neg (by omega)]
  have hrest : q.closestUnexpanded.2.cur = q.size :=
    (whileLoop_of_false (by simp [hcur]) q.size).trans hcur
  have hlive : q.closestUnexpanded.2.live = q.live := by
    show q.marked.data.take q.size = q.data.take q.size
    rw [marked, List.take_set]
    exact List.set_eq_of_length_le (by rw [List.length_take]; omega)
  refine ⟨⟨?_, h.size_le, hlive ▸ h.keys, fun n hn => h.flags n (hlive ▸ hn), hrest.le, ?_, ?_⟩,
    hlive⟩
  · show q.marked.data.length = q.capacity + 1
    rw [marked, List.length_set, h.room]
  · intro i hi
    rw [hslot i (by omega)]
    exact h.before_cur i (by omega)
  · intro hlt
    rw [hrest] at hlt
    exact absurd hlt (lt_irrefl q.size)

end NeighborPriorityQueue

/-! ### Runs -/

namespace PoolRun

open NeighborPriorityQueue

variable {ι δ : Type} [LinearOrder ι] [LinearOrder δ] [Inhabited ι] [Inhabited δ]

/-- **The ids of the live entries are distinct in every state of a run**, and no call touches a slot
that was not allocated. -/
def DistinctIds : PoolRun ι δ → List (PoolOp ι δ) → Prop
  | r, [] => r.pool.ids.Nodup
  | r, op :: ops => r.pool.ids.Nodup ∧ ∃ r', r.step op = some r' ∧ DistinctIds r' ops

/-- No insertion of a run brings a twin. -/
def NoTwins : PoolRun ι δ → List (PoolOp ι δ) → Prop
  | _, [] => True
  | r, op :: ops => (∀ nbr, op = .insert nbr → r.pool.NoTwin nbr) ∧ ∀ r' ∈ r.step op, NoTwins r' ops

/-- What every call keeps: the pool holds some set. -/
structure Sound (capacity : ℕ) (r : PoolRun ι δ) : Prop where
  holds : ∃ S X, r.pool.Holds S X
  capacity_eq : r.pool.capacity = capacity

variable {capacity : ℕ} {r : PoolRun ι δ}

lemma sound_start (capacity : ℕ) : Sound capacity (start capacity : PoolRun ι δ) :=
  ⟨⟨_, _, (inv_start capacity).holds⟩, rfl⟩

/-- **Every call succeeds**, and the ids stay distinct exactly when there is no twin. -/
theorem Sound.step (h : Sound capacity r) (hcap : 0 < capacity) (op : PoolOp ι δ) :
    ∃ r', r.step op = some r' ∧ Sound capacity r' ∧
      (r.pool.ids.Nodup →
        (r'.pool.ids.Nodup ↔ ∀ nbr, op = .insert nbr → r.pool.NoTwin nbr)) := by
  obtain ⟨S, X, hholds⟩ := h.holds
  cases op with
  | insert nbr =>
      have hpos : 0 < r.pool.capacity := h.capacity_eq ▸ hcap
      obtain ⟨S', X', hholds', hcapacity⟩ := hholds.exists_insert hpos nbr
      refine ⟨_, by rw [PoolRun.step, hholds.insertChecked_eq hpos nbr, Option.map_some],
        ⟨⟨S', X', hholds'⟩, hcapacity.trans h.capacity_eq⟩, fun hids => ?_⟩
      rw [hholds.nodup_ids_insert_iff hpos hids nbr]
      exact ⟨fun htwin _ heq => by cases heq; exact htwin, fun htwin => htwin nbr rfl⟩
  | closestUnexpanded =>
      have hnone : ∀ nbr, (PoolOp.closestUnexpanded : PoolOp ι δ) = .insert nbr →
          r.pool.NoTwin nbr := fun _ heq => by cases heq
      have hchecked := hholds.closestUnexpandedChecked_eq
      refine ⟨_, by rw [PoolRun.step, hchecked, Option.map_some], ?_⟩
      rcases eq_or_lt_of_le hholds.cur_le with hcur | hcur
      · obtain ⟨hholds', hlive⟩ := hholds.closestUnexpanded_of_exhausted hcur
        refine ⟨⟨⟨S, X, hholds'⟩, h.capacity_eq⟩, fun hids => ⟨fun _ => hnone, fun _ => ?_⟩⟩
        rw [ids, hlive]
        exact hids
      · obtain ⟨-, hholds', hcapacity⟩ := hholds.closestUnexpanded hcur
        refine ⟨⟨⟨S, _, hholds'⟩, hcapacity.trans h.capacity_eq⟩,
          fun hids => ⟨fun _ => hnone, fun _ => ?_⟩⟩
        rw [hholds'.nodup_ids_iff]
        intro i j hij hj
        have hid : ∀ i, (r.pool.closestUnexpanded.2.slot i).id = (r.pool.slot i).id := by
          intro i
          show (r.pool.marked.slot i).id = _
          rw [hholds.slot_marked hcur]
          split_ifs with hi
          · rw [hi]
          · rfl
        rw [hid, hid]
        exact hholds.nodup_ids_iff.mp hids i j hij hj
  | clear =>
      refine ⟨_, rfl, ⟨⟨∅, ∅, holds_clear hholds.room ∅⟩, h.capacity_eq⟩,
        fun _ => ⟨fun _ _ heq => (by cases heq), fun _ => ?_⟩⟩
      simp [ids, live, NeighborPriorityQueue.clear]

/-- The ids stay distinct along a run exactly when none of its insertions brings a twin. -/
theorem Sound.distinctIds_iff_noTwins (h : Sound capacity r) (hcap : 0 < capacity)
    (hids : r.pool.ids.Nodup) (ops : List (PoolOp ι δ)) : r.DistinctIds ops ↔ r.NoTwins ops := by
  induction ops generalizing r with
  | nil => exact ⟨fun _ => trivial, fun _ => hids⟩
  | cons op ops ih =>
      obtain ⟨r', hstep, hsound, hiff⟩ := h.step hcap op
      have hiff := hiff hids
      constructor
      · rintro ⟨-, r'', hstep', hrest⟩
        obtain rfl : r' = r'' := Option.some.inj (hstep.symm.trans hstep')
        have hids' : r'.pool.ids.Nodup := by
          cases ops with
          | nil => exact hrest
          | cons op ops => exact hrest.1
        refine ⟨hiff.mp hids', fun r'' hr'' => ?_⟩
        obtain rfl : r' = r'' := Option.some.inj (hstep.symm.trans hr'')
        exact (ih hsound hids').mp hrest
      · rintro ⟨htwin, hrest⟩
        have hids' := hiff.mpr htwin
        exact ⟨hids, r', hstep, (ih hsound hids').mpr (hrest r' hstep)⟩

end PoolRun

/-- **No id is live twice** in a run on a new pool, with arbitrary pairs, exactly when no insertion
brings a twin. -/
theorem distinctIds_iff {ι δ : Type} [LinearOrder ι] [LinearOrder δ] [Inhabited ι] [Inhabited δ]
    {capacity : ℕ} (hcap : 0 < capacity) (ops : List (PoolOp ι δ)) :
    (PoolRun.start capacity).DistinctIds ops ↔ (PoolRun.start capacity).NoTwins ops :=
  (PoolRun.sound_start capacity).distinctIds_iff_noTwins hcap
    (by simp [PoolRun.start, NeighborPriorityQueue.ids, NeighborPriorityQueue.live,
      NeighborPriorityQueue.withCapacity]) ops

/-- One id with three distances: the second candidate is met at the probed slot, the third is
nearer than what is live. -/
def twinCalls {ι : Type} (a : ι) : List (PoolOp ι ℤ) :=
  [.insert ⟨a, 3, false⟩, .insert ⟨a, 4, false⟩, .insert ⟨a, 1, false⟩]

theorem distinctIds_iff_twinCalls :
    ((PoolRun.start 2).DistinctIds (twinCalls (5 : VertexId)) ↔
      (PoolRun.start 2).NoTwins (twinCalls (5 : VertexId))) ∧
    ((PoolRun.start 2).DistinctIds (twinCalls (⟨0, 5⟩ : Item)) ↔
      (PoolRun.start 2).NoTwins (twinCalls (⟨0, 5⟩ : Item))) :=
  ⟨distinctIds_iff (by decide) _, distinctIds_iff (by decide) _⟩

/-- The nearer candidate is put in front of the entry with its id. -/
theorem not_distinctIds_nearer :
    ((PoolRun.start 2).run [.insert ⟨(5 : VertexId), (3 : ℤ), false⟩, .insert ⟨5, 1, false⟩]).map
      (fun r => r.pool.ids) = some [5, 5] ∧
    ¬ (PoolRun.start 2).DistinctIds
      [.insert ⟨(5 : VertexId), (3 : ℤ), false⟩, .insert ⟨5, 1, false⟩] := by
  have hrun : ((PoolRun.start 2).run
      [.insert ⟨(5 : VertexId), (3 : ℤ), false⟩, .insert ⟨5, 1, false⟩]).map
        (fun r => r.pool.ids) = some [5, 5] := by decide +kernel
  refine ⟨hrun, ?_⟩
  rintro ⟨-, r₁, h₁, -, r₂, h₂, hids⟩
  rw [PoolRun.run, List.foldlM_cons, h₁, Option.bind_eq_bind, Option.bind_some, List.foldlM_cons,
    h₂] at hrun
  have heq : r₂.pool.ids = [5, 5] := Option.some.inj hrun
  have hids : r₂.pool.ids.Nodup := hids
  rw [heq] at hids
  exact absurd hids (by decide)

end RedAnns
