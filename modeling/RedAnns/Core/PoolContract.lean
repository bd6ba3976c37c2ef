import RedAnns.Core.NeighborQueue

/-!
The contract of the candidate pool over whole sequences of calls.

`NeighborQueue.lean` says what one call does to the two sets a pool stands for. Here the calls
of a client follow one another, with every slot access of the source checked against the
allocated slots, for any type of ids: the vertex ids of `diskann::NeighborPriorityQueue` and
the items of `dsmann::NeighborPriorityQueue` are two of them.

* `insertChecked`, `closestUnexpandedChecked`: the operations as in the source, which fail on
  an index outside `_data` and on a loop that outlives its fuel; on a pool that holds a set
  they agree with the unchecked ones.
* `PoolOp`, `PoolRun`, `AllowedRun`: the calls, the pool with the pairs inserted and returned
  since the last `clear`, and the sequences a search may issue.
* `PoolRun.Contract`, `poolContract`: what holds after every allowed sequence.
-/

namespace RedAnns

namespace NeighborPriorityQueue

variable {ι δ : Type} [LinearOrder ι] [LinearOrder δ] [Inhabited ι] [Inhabited δ]

omit [LinearOrder ι] [LinearOrder δ] in
/-- The constructor with a capacity, which allocates one spare slot. -/
def withCapacity (capacity : ℕ) : NeighborPriorityQueue ι δ :=
  ⟨0, capacity, 0, List.replicate (capacity + 1) default⟩

/-! ### The operations with checked slots -/

omit [Inhabited ι] [Inhabited δ] in
/-- The binary search of `insert`, failing on a slot outside `_data`. -/
def searchSlotChecked (q : NeighborPriorityQueue ι δ) (nbr : Neighbor ι δ) :
    ℕ → ℕ → ℕ → Option (Option ℕ)
  | 0, lo, hi => if lo < hi then none else some (some lo)
  | fuel + 1, lo, hi =>
      if lo < hi then do
        let mid := (lo + hi) / 2
        let entry ← q.data[mid]?
        if nbr.lt entry then searchSlotChecked q nbr fuel lo mid
        else if entry.id = nbr.id then some none
        else searchSlotChecked q nbr fuel (mid + 1) hi
      else some (some lo)

omit [Inhabited ι] [Inhabited δ] in
/-- Whether the first test of `insert` refuses the candidate; an empty pool has no slot
`_size - 1`. -/
def refusesChecked (q : NeighborPriorityQueue ι δ) (nbr : Neighbor ι δ) : Option Bool :=
  if q.size == q.capacity then do
    guard (0 < q.size)
    let last ← q.data[q.size - 1]?
    return last.lt nbr
  else some false

omit [Inhabited ι] [Inhabited δ] in
/-- `insert`, failing on a slot outside `_data`: the `memmove` names the slot `lo + 1` and
writes up to the slot `_size`. -/
def insertChecked (q : NeighborPriorityQueue ι δ) (nbr : Neighbor ι δ) :
    Option (Bool × NeighborPriorityQueue ι δ) := do
  if ← q.refusesChecked nbr then return (false, q)
  match ← q.searchSlotChecked nbr q.size 0 q.size with
  | none => return (false, q)
  | some lo =>
      guard (lo < q.capacity → lo + 1 < q.data.length ∧ q.size < q.data.length)
      let data := if lo < q.capacity then shiftUp q.data lo q.size else q.data
      guard (lo < data.length)
      return (true,
        { size := if q.size < q.capacity then q.size + 1 else q.size
          capacity := q.capacity
          cur := if lo < q.cur then lo else q.cur
          data := data.set lo ⟨nbr.id, nbr.distance, false⟩ })

omit [LinearOrder ι] [LinearOrder δ] [Inhabited ι] [Inhabited δ] in
/-- The loop of `closest_unexpanded`, failing on a slot outside `_data`. -/
def advanceChecked (q : NeighborPriorityQueue ι δ) : ℕ → ℕ → Option ℕ
  | 0, c => if c < q.size then none else some c
  | fuel + 1, c =>
      if c < q.size then do
        let entry ← q.data[c]?
        if entry.expanded then advanceChecked q fuel (c + 1) else some c
      else some c

omit [LinearOrder ι] [LinearOrder δ] [Inhabited ι] [Inhabited δ] in
/-- `closest_unexpanded`, failing on a slot outside `_data`. -/
def closestUnexpandedChecked (q : NeighborPriorityQueue ι δ) :
    Option (Neighbor ι δ × NeighborPriorityQueue ι δ) := do
  let entry ← q.data[q.cur]?
  let marked := { q with data := q.data.set q.cur { entry with expanded := true } }
  let cur ← marked.advanceChecked q.size q.cur
  let pre ← marked.data[q.cur]?
  return (pre, { marked with cur := cur })

variable {q : NeighborPriorityQueue ι δ} {S X : Finset (δ ×ₗ ι)} {capacity : ℕ}

omit [LinearOrder ι] [LinearOrder δ] in
lemma getElem?_eq_slot {i : ℕ} (h : i < q.data.length) : q.data[i]? = some (q.slot i) := by
  simp [slot, h]

lemma searchSlotChecked_eq (nbr : Neighbor ι δ) : ∀ fuel lo hi, hi ≤ q.data.length →
    hi ≤ fuel + lo → q.searchSlotChecked nbr fuel lo hi = some (q.searchSlot nbr fuel lo hi) := by
  intro fuel
  induction fuel with
  | zero =>
      intro lo hi _ hfuel
      rw [searchSlotChecked, searchSlot, if_neg (by omega)]
  | succ fuel ih =>
      intro lo hi hlen hfuel
      rw [searchSlotChecked, searchSlot]
      by_cases hlt : lo < hi
      · have hmid : lo ≤ (lo + hi) / 2 ∧ (lo + hi) / 2 < hi := by omega
        simp only [if_pos hlt, getElem?_eq_slot (q := q) (show (lo + hi) / 2 < _ by omega),
          Option.bind_eq_bind, Option.bind_some]
        split_ifs with hbelow hid
        · exact ih _ _ (by omega) (by omega)
        · rfl
        · exact ih _ _ hlen (by omega)
      · rw [if_neg hlt, if_neg hlt]

lemma searchSlot_le (nbr : Neighbor ι δ) : ∀ fuel lo hi, lo ≤ hi → ∀ r,
    q.searchSlot nbr fuel lo hi = some r → r ≤ hi := by
  intro fuel
  induction fuel with
  | zero =>
      intro lo hi hle r hr
      rw [searchSlot, Option.some.injEq] at hr
      omega
  | succ fuel ih =>
      intro lo hi hle r hr
      rw [searchSlot] at hr
      have hmid : lo < hi → lo ≤ (lo + hi) / 2 ∧ (lo + hi) / 2 < hi := by omega
      simp only at hr
      split_ifs at hr with hlt hbelow hid
      · exact (ih _ _ (hmid hlt).1 r hr).trans (hmid hlt).2.le
      · exact ih _ _ (hmid hlt).2 r hr
      · rw [Option.some.injEq] at hr
        omega

/-- No access of `insert` leaves the allocated slots. -/
lemma Holds.insertChecked_eq (h : Holds q S X) (hcap : 0 < q.capacity) (nbr : Neighbor ι δ) :
    q.insertChecked nbr = some (q.insert nbr) := by
  have hroom := h.room
  have hsize := h.size_le
  have hrefuse : q.refusesChecked nbr =
      some (q.size == q.capacity && (q.slot (q.size - 1)).lt nbr) := by
    rw [refusesChecked]
    by_cases hfull : q.size = q.capacity
    · have hpos : 0 < q.size := by omega
      simp [hfull, hcap, getElem?_eq_slot (q := q) (show q.capacity - 1 < _ by omega)]
    · simp [hfull]
  rw [insertChecked, NeighborPriorityQueue.insert, hrefuse]
  cases hr : (q.size == q.capacity && (q.slot (q.size - 1)).lt nbr) with
  | true => rfl
  | false =>
      have hsearch := searchSlotChecked_eq (q := q) nbr q.size 0 q.size (by omega) (by omega)
      simp only [Option.bind_eq_bind, Option.bind_some, Bool.false_eq_true, if_false, hsearch]
      cases hs : q.searchSlot nbr q.size 0 q.size with
      | none => rfl
      | some lo =>
          have hlo := searchSlot_le nbr q.size 0 q.size (Nat.zero_le _) lo hs
          have hlen : ∀ b : Prop, [Decidable b] →
              lo < (if b then shiftUp q.data lo q.size else q.data).length := by
            intro b _
            split_ifs
            · simp only [shiftUp, List.length_append, List.length_take, List.length_drop]
              omega
            · omega
          have hshift : lo < q.capacity → lo + 1 < q.data.length ∧ q.size < q.data.length :=
            fun _ => by omega
          simp only [guard, if_pos hshift, if_pos (hlen _)]
          rfl

omit [LinearOrder ι] [LinearOrder δ] in
lemma advanceChecked_eq (hq : q.size ≤ q.data.length) : ∀ fuel c, q.size ≤ fuel + c →
    q.advanceChecked fuel c =
      some (whileLoop (fun c => decide (c < q.size) && (q.slot c).expanded) (· + 1) fuel c) := by
  intro fuel
  induction fuel with
  | zero =>
      intro c hc
      rw [advanceChecked, if_neg (by omega)]
      rfl
  | succ fuel ih =>
      intro c hc
      rw [advanceChecked, whileLoop]
      by_cases hlt : c < q.size
      · rw [if_pos hlt, getElem?_eq_slot (show c < q.data.length by omega)]
        cases hexp : (q.slot c).expanded with
        | true => simpa [hlt, hexp] using ih (c + 1) (by omega)
        | false => simp [hexp]
      · simp [hlt]

/-- No access of `closest_unexpanded` leaves the allocated slots. -/
lemma Holds.closestUnexpandedChecked_eq (h : Holds q S X) :
    q.closestUnexpandedChecked = some q.closestUnexpanded := by
  have hroom := h.room
  have hcur := h.cur_le
  have hsize := h.size_le
  have hlen : q.marked.data.length = q.data.length := by simp [marked]
  have hadv := advanceChecked_eq (q := q.marked)
    (show q.size ≤ q.marked.data.length by omega) q.size q.cur (Nat.le_add_right _ _)
  have hpre := getElem?_eq_slot (q := q.marked) (i := q.cur) (by omega)
  rw [closestUnexpandedChecked, getElem?_eq_slot (q := q) (show q.cur < _ by omega)]
  show (q.marked.advanceChecked q.size q.cur >>= fun cur =>
    q.marked.data[q.cur]? >>= fun pre => some (pre, { q.marked with cur := cur })) = _
  rw [hadv, hpre]
  rfl

end NeighborPriorityQueue

/-! ### Sequences of calls -/

/-- A call on the pool. -/
inductive PoolOp (ι δ : Type) where
  | insert (nbr : Neighbor ι δ)
  | closestUnexpanded
  | clear

/-- The pool between two calls, with the (distance, id) pairs that were inserted and those
that `closest_unexpanded` returned since the last `clear`. -/
structure PoolRun (ι δ : Type) where
  pool : NeighborPriorityQueue ι δ
  inserted : Finset (δ ×ₗ ι)
  returned : Finset (δ ×ₗ ι)

namespace PoolRun

open NeighborPriorityQueue

variable {ι δ : Type} [LinearOrder ι] [LinearOrder δ] [Inhabited ι] [Inhabited δ]

/-- A pool that was just constructed. -/
def start (capacity : ℕ) : PoolRun ι δ := ⟨withCapacity capacity, ∅, ∅⟩

/-- The calls a search may issue: an id comes with one distance between two `clear`s, and
`closest_unexpanded` is called when `has_unexpanded_node` is true. -/
def Allowed (r : PoolRun ι δ) : PoolOp ι δ → Prop
  | .insert nbr => ∀ k ∈ r.inserted, (ofLex k).2 = nbr.id → (ofLex k).1 = nbr.distance
  | .closestUnexpanded => r.pool.hasUnexpandedNode = true
  | .clear => True

/-- One call; `none` when it touches a slot that was not allocated. -/
def step (r : PoolRun ι δ) : PoolOp ι δ → Option (PoolRun ι δ)
  | .insert nbr =>
      (r.pool.insertChecked nbr).map fun out => ⟨out.2, insert nbr.key r.inserted, r.returned⟩
  | .closestUnexpanded =>
      r.pool.closestUnexpandedChecked.map fun out =>
        ⟨out.2, r.inserted, insert out.1.key r.returned⟩
  | .clear => some ⟨r.pool.clear, ∅, ∅⟩

/-- A sequence of calls. -/
def run (r : PoolRun ι δ) (ops : List (PoolOp ι δ)) : Option (PoolRun ι δ) := ops.foldlM step r

/-- Every call of the sequence is allowed where it is issued. -/
def AllowedRun : PoolRun ι δ → List (PoolOp ι δ) → Prop
  | _, [] => True
  | r, op :: ops => r.Allowed op ∧ ∀ r' ∈ r.step op, AllowedRun r' ops

instance decidableAllowed (r : PoolRun ι δ) : ∀ op, Decidable (r.Allowed op)
  | .insert nbr => inferInstanceAs
      (Decidable (∀ k ∈ r.inserted, (ofLex k).2 = nbr.id → (ofLex k).1 = nbr.distance))
  | .closestUnexpanded => inferInstanceAs (Decidable (r.pool.hasUnexpandedNode = true))
  | .clear => isTrue trivial

instance decidableAllowedRun : ∀ (r : PoolRun ι δ) (ops), Decidable (r.AllowedRun ops)
  | _, [] => isTrue trivial
  | r, op :: ops =>
      have (r' : PoolRun ι δ) : Decidable (AllowedRun r' ops) := decidableAllowedRun r' ops
      inferInstanceAs (Decidable (r.Allowed op ∧ ∀ r' ∈ r.step op, AllowedRun r' ops))

/-- **The contract of a pool**, in terms of what was inserted and returned since the last
`clear`. -/
structure Contract (capacity : ℕ) (r : PoolRun ι δ) : Prop where
  increasing : (r.pool.live.map Neighbor.key).Pairwise (· < ·)
  length_le : r.pool.live.length ≤ capacity
  size_eq : r.pool.live.length = r.pool.size
  /-- The live entries are the smallest distinct pairs inserted. -/
  live_eq : r.pool.live.map Neighbor.key = smallest capacity r.inserted
  expanded_iff : ∀ n ∈ r.pool.live, n.expanded = true ↔ n.key ∈ r.returned
  /-- The cursor is the index of the first unexpanded entry, or the size. -/
  cur_eq : r.pool.cur = r.pool.live.findIdx (!·.expanded)
  insert_iff : ∀ nbr, r.Allowed (.insert nbr) → ∃ taken q,
    r.pool.insertChecked nbr = some (taken, q) ∧
      (taken = true ↔
        nbr.key ∈ q.live.map Neighbor.key ∧ nbr.key ∉ r.pool.live.map Neighbor.key)
  closest : r.Allowed .closestUnexpanded → ∃ n q,
    r.pool.closestUnexpandedChecked = some (n, q) ∧
      n.key ∈ r.pool.live.map Neighbor.key ∧ n.key ∉ r.returned ∧
      ∀ k ∈ r.pool.live.map Neighbor.key, k ∉ r.returned → n.key ≤ k
  /-- The order of the inserts between two calls of `closest_unexpanded` is immaterial. -/
  order : ∀ nbrs nbrs' : List (Neighbor ι δ), r.AllowedRun (nbrs.map .insert) →
    r.AllowedRun (nbrs'.map .insert) →
    (∀ k, k ∈ nbrs.map Neighbor.key ↔ k ∈ nbrs'.map Neighbor.key) →
    ∃ r₁ r₂, r.run (nbrs.map .insert) = some r₁ ∧ r.run (nbrs'.map .insert) = some r₂ ∧
      r₁.pool.live = r₂.pool.live ∧ r₁.pool.cur = r₂.pool.cur

/-- What every call keeps: the pool holds the pairs inserted, marked where they were
returned. -/
structure Inv (capacity : ℕ) (r : PoolRun ι δ) : Prop where
  holds : r.pool.Holds r.inserted r.returned
  capacity_eq : r.pool.capacity = capacity
  returned_subset : r.returned ⊆ r.inserted

variable {capacity : ℕ} {r r' : PoolRun ι δ}

lemma inv_start (capacity : ℕ) : Inv capacity (start capacity : PoolRun ι δ) where
  holds := holds_clear (q := withCapacity capacity) (by simp [withCapacity]) ∅
  capacity_eq := rfl
  returned_subset := Finset.Subset.refl _

omit [LinearOrder ι] [LinearOrder δ] [Inhabited ι] [Inhabited δ] in
lemma Allowed.eq_key {nbr : Neighbor ι δ} (h : r.Allowed (.insert nbr)) :
    ∀ k ∈ r.inserted, (ofLex k).2 = nbr.id → k = nbr.key := fun k hk hid =>
  ofLex.injective (Prod.ext (h k hk hid) hid)

/-- What an insertion does. -/
protected lemma Inv.insert (h : Inv capacity r) (hcap : 0 < capacity) {nbr : Neighbor ι δ}
    (hallowed : r.Allowed (.insert nbr)) :
    r.pool.insertChecked nbr = some (r.pool.insert nbr) ∧
      Inv capacity ⟨(r.pool.insert nbr).2, insert nbr.key r.inserted, r.returned⟩ ∧
      ((r.pool.insert nbr).1 = true ↔
        nbr.key ∉ r.inserted ∧ nbr.key ∈ smallest capacity (insert nbr.key r.inserted)) := by
  have hpos : 0 < r.pool.capacity := h.capacity_eq ▸ hcap
  obtain ⟨hholds, hiff, hcapacity⟩ := h.holds.insert hpos nbr hallowed.eq_key
    (fun hx => h.returned_subset hx)
  refine ⟨h.holds.insertChecked_eq hpos nbr, ⟨hholds, hcapacity.trans h.capacity_eq, ?_⟩, ?_⟩
  · exact h.returned_subset.trans (Finset.subset_insert _ _)
  · rw [← h.capacity_eq]
    exact hiff

/-- What an expansion does. -/
protected lemma Inv.closestUnexpanded (h : Inv capacity r)
    (hallowed : r.Allowed .closestUnexpanded) :
    r.pool.closestUnexpandedChecked = some r.pool.closestUnexpanded ∧
      r.pool.closestUnexpanded.1.key = (r.pool.slot r.pool.cur).key ∧
      Inv capacity ⟨r.pool.closestUnexpanded.2, r.inserted,
        insert r.pool.closestUnexpanded.1.key r.returned⟩ := by
  have hcur : r.pool.cur < r.pool.size := by
    simpa [Allowed, hasUnexpandedNode] using hallowed
  obtain ⟨hentry, hholds, hcapacity⟩ := h.holds.closestUnexpanded hcur
  have hkey : r.pool.closestUnexpanded.1.key = (r.pool.slot r.pool.cur).key := by
    rw [hentry]
    rfl
  refine ⟨h.holds.closestUnexpandedChecked_eq, hkey, ?_, ?_, ?_⟩
  · rw [hkey]
    exact hholds
  · exact hcapacity.trans h.capacity_eq
  · rw [hkey]
    exact Finset.insert_subset (h.holds.key_mem (h.holds.slot_mem hcur)) h.returned_subset

/-- **An allowed call succeeds and keeps the invariant.** -/
protected theorem Inv.step (h : Inv capacity r) (hcap : 0 < capacity) {op : PoolOp ι δ}
    (hallowed : r.Allowed op) : ∃ r', r.step op = some r' ∧ Inv capacity r' := by
  cases op with
  | insert nbr =>
      obtain ⟨hchecked, hinv, -⟩ := h.insert hcap hallowed
      exact ⟨_, by rw [PoolRun.step, hchecked, Option.map_some], hinv⟩
  | closestUnexpanded =>
      obtain ⟨hchecked, -, hinv⟩ := h.closestUnexpanded hallowed
      exact ⟨_, by rw [PoolRun.step, hchecked, Option.map_some], hinv⟩
  | clear =>
      exact ⟨_, rfl, holds_clear h.holds.room ∅, h.capacity_eq, Finset.Subset.refl _⟩

/-- **An allowed sequence succeeds and keeps the invariant.** -/
protected theorem Inv.run (h : Inv capacity r) (hcap : 0 < capacity) {ops : List (PoolOp ι δ)}
    (hallowed : r.AllowedRun ops) : ∃ r', r.run ops = some r' ∧ Inv capacity r' := by
  induction ops generalizing r with
  | nil => exact ⟨r, rfl, h⟩
  | cons op ops ih =>
      obtain ⟨r', hstep, hinv⟩ := h.step hcap hallowed.1
      obtain ⟨r'', hrun, hinv'⟩ := ih hinv (hallowed.2 r' hstep)
      exact ⟨r'', by rw [PoolRun.run, List.foldlM_cons, hstep]; exact hrun, hinv'⟩

omit [Inhabited ι] [Inhabited δ] in
/-- A sequence of inserts adds their pairs and returns none. -/
lemma run_insert {nbrs : List (Neighbor ι δ)} (hrun : r.run (nbrs.map .insert) = some r') :
    r'.inserted = r.inserted ∪ (nbrs.map Neighbor.key).toFinset ∧ r'.returned = r.returned := by
  induction nbrs generalizing r with
  | nil =>
      obtain rfl : r = r' := Option.some.inj hrun
      simp
  | cons nbr nbrs ih =>
      rw [PoolRun.run, List.map_cons, List.foldlM_cons, Option.bind_eq_bind,
        Option.bind_eq_some_iff] at hrun
      obtain ⟨r₁, hstep, hrest⟩ := hrun
      obtain ⟨out, -, rfl⟩ := Option.map_eq_some_iff.mp hstep
      obtain ⟨hinserted, hreturned⟩ := ih hrest
      refine ⟨?_, hreturned⟩
      rw [hinserted, List.map_cons, List.toFinset_cons, Finset.union_insert,
        Finset.insert_union]

/-- Two pools that stand for the same sets have the same live entries and cursor. -/
lemma Inv.pool_eq (h : Inv capacity r) (h' : Inv capacity r')
    (hinserted : r'.inserted = r.inserted) (hreturned : r'.returned = r.returned) :
    r'.pool.live = r.pool.live ∧ r'.pool.cur = r.pool.cur := by
  have hcap : r'.pool.capacity = r.pool.capacity := h'.capacity_eq.trans h.capacity_eq.symm
  have hholds := h'.holds
  rw [hinserted, hreturned] at hholds
  exact ⟨by rw [hholds.live_eq, h.holds.live_eq, hcap], h.holds.cur_eq hholds hcap⟩

/-- The cursor is the index of the first unexpanded entry. -/
lemma Inv.cur_eq (h : Inv capacity r) : r.pool.cur = r.pool.live.findIdx (!·.expanded) := by
  have hlen := h.holds.length_live
  have hle := h.holds.cur_le
  symm
  rcases Nat.lt_or_ge r.pool.cur r.pool.size with hcur | hcur
  · rw [List.findIdx_eq (by omega)]
    refine ⟨?_, fun j hj => ?_⟩
    · rw [h.holds.getElem_live, h.holds.at_cur hcur]
      rfl
    · rw [h.holds.getElem_live, h.holds.before_cur j hj]
      rfl
  · have heq : r.pool.cur = r.pool.live.length := by omega
    rw [heq, List.findIdx_eq_length]
    intro n hn
    obtain ⟨i, hi, rfl⟩ := h.holds.mem_live.mp hn
    rw [h.holds.before_cur i (by omega)]
    rfl

/-- The live entries are the smallest pairs inserted. -/
lemma Inv.live_eq (h : Inv capacity r) :
    r.pool.live.map Neighbor.key = smallest capacity r.inserted := by
  rw [← h.capacity_eq]
  exact h.holds.keys

/-- `insert` answers whether its pair has become live. -/
lemma Inv.insert_iff (h : Inv capacity r) (hcap : 0 < capacity) {nbr : Neighbor ι δ}
    (hallowed : r.Allowed (.insert nbr)) :
    (r.pool.insert nbr).1 = true ↔ nbr.key ∈ (r.pool.insert nbr).2.live.map Neighbor.key ∧
      nbr.key ∉ r.pool.live.map Neighbor.key := by
  obtain ⟨-, hinv, hiff⟩ := h.insert hcap hallowed
  have hlive : (r.pool.insert nbr).2.live.map Neighbor.key =
      smallest capacity (insert nbr.key r.inserted) := hinv.live_eq
  rw [hiff, h.live_eq, hlive, and_comm]
  refine and_congr_right fun hmem =>
    ⟨fun hnew hold => hnew (mem_of_mem_smallest hold), fun hlive hold => hlive ?_⟩
  rwa [Finset.insert_eq_of_mem hold] at hmem

/-- `closest_unexpanded` answers the smallest live pair it has not returned. -/
lemma Inv.closest_least (h : Inv capacity r) (hallowed : r.Allowed .closestUnexpanded) :
    r.pool.closestUnexpanded.1.key ∈ r.pool.live.map Neighbor.key ∧
      r.pool.closestUnexpanded.1.key ∉ r.returned ∧
      ∀ k ∈ r.pool.live.map Neighbor.key, k ∉ r.returned →
        r.pool.closestUnexpanded.1.key ≤ k := by
  have hcur : r.pool.cur < r.pool.size := by
    simpa [Allowed, hasUnexpandedNode] using hallowed
  have hslot := h.holds.slot_mem hcur
  rw [(h.closestUnexpanded hallowed).2.1]
  refine ⟨List.mem_map_of_mem hslot, ?_, fun k hk hnew => ?_⟩
  · rw [← h.holds.flags _ hslot, h.holds.at_cur hcur]
    exact Bool.false_ne_true
  · obtain ⟨n, hn, rfl⟩ := List.mem_map.mp hk
    obtain ⟨i, hi, rfl⟩ := h.holds.mem_live.mp hn
    rcases lt_trichotomy i r.pool.cur with hlt | rfl | hgt
    · exact absurd ((h.holds.flags _ hn).mp (h.holds.before_cur i hlt)) hnew
    · exact le_rfl
    · exact (h.holds.key_lt hgt hi).le

/-- Two sequences of inserts of the same pairs leave the same pool. -/
lemma Inv.order (h : Inv capacity r) (hcap : 0 < capacity) {nbrs nbrs' : List (Neighbor ι δ)}
    (hallowed : r.AllowedRun (nbrs.map .insert)) (hallowed' : r.AllowedRun (nbrs'.map .insert))
    (hsame : ∀ k, k ∈ nbrs.map Neighbor.key ↔ k ∈ nbrs'.map Neighbor.key) :
    ∃ r₁ r₂, r.run (nbrs.map .insert) = some r₁ ∧ r.run (nbrs'.map .insert) = some r₂ ∧
      r₁.pool.live = r₂.pool.live ∧ r₁.pool.cur = r₂.pool.cur := by
  obtain ⟨r₁, hrun₁, hinv₁⟩ := h.run hcap hallowed
  obtain ⟨r₂, hrun₂, hinv₂⟩ := h.run hcap hallowed'
  obtain ⟨hinserted₁, hreturned₁⟩ := run_insert hrun₁
  obtain ⟨hinserted₂, hreturned₂⟩ := run_insert hrun₂
  have hset : (nbrs.map Neighbor.key).toFinset = (nbrs'.map Neighbor.key).toFinset := by
    ext k
    rw [List.mem_toFinset, List.mem_toFinset, hsame]
  obtain ⟨hlive, hcur⟩ := hinv₂.pool_eq hinv₁ (by rw [hinserted₁, hinserted₂, hset])
    (hreturned₁.trans hreturned₂.symm)
  exact ⟨r₁, r₂, hrun₁, hrun₂, hlive, hcur⟩

/-- What the invariant says to a client. -/
lemma Inv.contract (h : Inv capacity r) (hcap : 0 < capacity) : r.Contract capacity where
  increasing := h.live_eq ▸ pairwise_smallest _ _
  length_le := by
    rw [h.holds.length_live, ← h.capacity_eq]
    exact h.holds.size_le
  size_eq := h.holds.length_live
  live_eq := h.live_eq
  expanded_iff := h.holds.flags
  cur_eq := h.cur_eq
  insert_iff := fun _ hallowed =>
    ⟨_, _, (h.insert hcap hallowed).1, h.insert_iff hcap hallowed⟩
  closest := fun hallowed =>
    ⟨_, _, (h.closestUnexpanded hallowed).1, h.closest_least hallowed⟩
  order := fun _ _ hallowed hallowed' hsame => h.order hcap hallowed hallowed' hsame

end PoolRun

/-- **The pool contract.** Every allowed sequence of calls on a new pool stays inside the
allocated slots and leaves a pool that keeps the contract. -/
theorem poolContract {ι δ : Type} [LinearOrder ι] [LinearOrder δ] [Inhabited ι] [Inhabited δ]
    {capacity : ℕ} (hcap : 0 < capacity) {ops : List (PoolOp ι δ)}
    (hallowed : (PoolRun.start capacity).AllowedRun ops) :
    ∃ r, (PoolRun.start capacity).run ops = some r ∧ r.Contract capacity := by
  obtain ⟨r, hrun, hinv⟩ := (PoolRun.inv_start capacity).run hcap hallowed
  exact ⟨r, hrun, hinv.contract hcap⟩

/-- Calls on a pool of capacity two: an eviction, an expansion, the evicted candidate once
more, and a second query in which it is closer. -/
def poolCalls {ι : Type} (a b c : ι) : List (PoolOp ι ℤ) :=
  [.insert ⟨a, 3, false⟩, .insert ⟨b, 1, false⟩, .closestUnexpanded, .insert ⟨c, 0, false⟩,
    .insert ⟨a, 3, false⟩, .closestUnexpanded, .clear, .insert ⟨a, 2, false⟩]

theorem poolContract_twoSlots :
    (∃ r, (PoolRun.start 2).run (poolCalls (5 : VertexId) 7 9) = some r ∧ r.Contract 2) ∧
      ∃ r, (PoolRun.start 2).run (poolCalls (⟨0, 5⟩ : Item) ⟨1, 7⟩ ⟨0, 9⟩) = some r ∧
        r.Contract 2 :=
  ⟨poolContract (by decide) (by decide +kernel), poolContract (by decide) (by decide +kernel)⟩

end RedAnns
