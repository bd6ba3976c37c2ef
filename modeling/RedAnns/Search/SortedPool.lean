import RedAnns.Core.Vertex
import RedAnns.Lib.Loop

/-!
The sorted candidate arrays of `include/neighbor.h`, `InsertIntoPool` over ids and
`InsertIntoPoolItem` over items.

The two functions have the same body; here it is one definition over the type `ε` of entries with
their `distance` and `id`. Positions are of type `int` in the source while `K` is `unsigned`, so the
last position, the sum of two positions and the position that is returned may not fit.

* `insertSorted`: the source, with checked accesses and checked sums.
* `bisect_spec`, `checkEqualId_spec`: where the binary search ends, and what the scan over the
  entries at the same distance finds.
* `KeepsSorted`: what the functions are for. `keepsSorted_of_le` proves it up to `2 ^ 30 + 1`
  entries, `not_keepsSorted_of_lt` refutes it beyond; `insertIntoPool_iff` puts the two together.
* `PutAt.eq_append`, `insertSorted_overflow`: what the search of the learn graph uses.
-/

namespace RedAnns

/-- `numaann::Neighbor`; `flag` says that the candidate is not expanded yet. -/
structure Numaann.Neighbor (δ : Type) where
  id : VertexId
  distance : δ
  flag : Bool
  deriving DecidableEq, Inhabited

/-- `NeighborItem`. -/
structure NeighborItem (δ : Type) where
  item : Item
  distance : δ
  flag : Bool
  deriving Inhabited

namespace SortedPool

/-- What the source does not check: an access outside the array, and a sum outside `int`. -/
inductive Fault
  | slot
  | overflow
  deriving DecidableEq

section Source

variable {ε ι δ : Type} [DecidableEq ι] [LinearOrder δ] (distance : ε → δ) (id : ε → ι)

/-- The value of an `unsigned` as an `int`. -/
def toInt (u : UInt32) : ℤ := (u.toNat : ℤ).bmod (2 ^ 32)

/-- `addr[i]`. -/
def entryAt (addr : List ε) (i : ℕ) : Except Fault ε :=
  match addr[i]? with
  | some e => .ok e
  | none => .error .slot

/-- The sum of two positions, an `int`. -/
def addInt (a b : ℕ) : Except Fault ℕ := if a + b < 2 ^ 31 then .ok (a + b) else .error .overflow

/-- An `int` as a position of the array. -/
def position (i : ℤ) : Except Fault ℕ := if 0 ≤ i then .ok i.toNat else .error .slot

/-- `memmove` of `n` entries. -/
def memmove (addr : List ε) (dst src n : ℕ) : Except Fault (List ε) :=
  if dst + n ≤ addr.length ∧ src + n ≤ addr.length then
    .ok (addr.take dst ++ (addr.drop src).take n ++ addr.drop (dst + n))
  else .error .slot

/-- The binary search. The first argument is the fuel. -/
def bisect (addr : List ε) (nn : ε) : ℕ → ℕ → ℕ → Except Fault (ℕ × ℕ)
  | 0, left, right => .ok (left, right)
  | fuel + 1, left, right =>
      if left + 1 < right then do
        let sum ← addInt left right
        let mid := sum / 2
        let entry ← entryAt addr mid
        if distance nn < distance entry then bisect addr nn fuel left mid
        else bisect addr nn fuel mid right
      else .ok (left, right)

/-- The scan for the id from `left` down: `none` if it is found, else where the scan ends. -/
def checkEqualId (addr : List ε) (nn : ε) : ℕ → Except Fault (Option ℕ)
  | 0 => .ok (some 0)
  | left + 1 => do
      let entry ← entryAt addr (left + 1)
      if distance entry < distance nn then .ok (some (left + 1))
      else if id entry = id nn then .ok none
      else checkEqualId addr nn left

/-- The body of both functions: what is returned, and the array afterwards. -/
def insertSorted (addr : List ε) (K : UInt32) (nn : ε) : Except Fault (ℤ × List ε) := do
  let first ← entryAt addr 0
  if distance nn < distance first then
    let moved ← memmove addr 1 0 K.toNat
    return (0, moved.set 0 nn)
  let right ← position (toInt (K - 1))
  let last ← entryAt addr right
  if distance last < distance nn then
    let _ ← entryAt addr K.toNat
    return (toInt K, addr.set K.toNat nn)
  let (left, right) ← bisect distance addr nn K.toNat 0 right
  match ← checkEqualId distance id addr nn left with
  | none => return (toInt (K + 1), addr)
  | some left =>
      let below ← entryAt addr left
      let above ← entryAt addr right
      if id below = id nn ∨ id above = id nn then return (toInt (K + 1), addr)
      let up ← addInt right 1
      let moved ← memmove addr up right (K.toNat - right)
      return (right, moved.set right nn)

end Source

/-- `InsertIntoPool`. -/
def insertIntoPool {δ : Type} [LinearOrder δ] (addr : List (Numaann.Neighbor δ)) (K : UInt32)
    (nn : Numaann.Neighbor δ) : Except Fault (ℤ × List (Numaann.Neighbor δ)) :=
  insertSorted (·.distance) (·.id) addr K nn

/-- `InsertIntoPoolItem`. -/
def insertIntoPoolItem {δ : Type} [LinearOrder δ] (addr : List (NeighborItem δ)) (K : UInt32)
    (nn : NeighborItem δ) : Except Fault (ℤ × List (NeighborItem δ)) :=
  insertSorted (·.distance) (·.item) addr K nn

section Contract

variable {ε ι δ : Type} [DecidableEq ι] [LinearOrder δ] (distance : ε → δ) (id : ε → ι)

/-- The first `n` entries are sorted by distance. -/
def SortedUpTo (addr : List ε) (n : ℕ) : Prop :=
  (addr.take n).Pairwise fun a b => distance a ≤ distance b

/-- One of the first `n` entries has the id of `nn`. -/
def Present (addr : List ε) (n : ℕ) (nn : ε) : Prop := ∃ e ∈ addr.take n, id e = id nn

/-- **`addr'` is `addr` with `nn` put into the slot `r`** of a sorted array of `n` entries. -/
structure PutAt (addr addr' : List ε) (n r : ℕ) (nn : ε) : Prop where
  le : r ≤ n
  entry : addr'[r]? = some nn
  before : ∀ i < r, addr'[i]? = addr[i]?
  shifted : ∀ i, r ≤ i → i < n → addr'[i + 1]? = addr[i]?
  /-- Nothing beyond the slot `n` is written. -/
  beyond : ∀ i, n < i → addr'[i]? = addr[i]?
  sorted : SortedUpTo distance addr' (n + 1)

/-- **What the insertion into a sorted array of `K` entries is for.** A known id, which comes with
one distance only, is reported by the answer `K + 1`; a new entry is put where it keeps the
order. -/
def KeepsSorted (insert : List ε → UInt32 → ε → Except Fault (ℤ × List ε)) (K : UInt32) : Prop :=
  ∀ addr nn, K.toNat < addr.length → SortedUpTo distance addr K.toNat →
    (∀ e ∈ addr.take K.toNat, id e = id nn → distance e = distance nn) →
    (Present id addr K.toNat nn → insert addr K nn = .ok ((K.toNat : ℤ) + 1, addr)) ∧
    (¬ Present id addr K.toNat nn → ∃ (r : ℕ) (addr' : List ε), insert addr K nn = .ok (r, addr') ∧
      PutAt distance addr addr' K.toNat r nn)

end Contract

section Proofs

variable {ε ι δ : Type} [DecidableEq ι] [LinearOrder δ] {distance : ε → δ} {id : ε → ι}
  {addr addr' : List ε} {nn : ε} {n r : ℕ} {K : UInt32}

lemma entryAt_of_lt {i : ℕ} (h : i < addr.length) : entryAt addr i = .ok addr[i] := by
  rw [entryAt, List.getElem?_eq_getElem h]

lemma addInt_of_lt {a b : ℕ} (h : a + b < 2 ^ 31) : addInt a b = .ok (a + b) := if_pos h

/-- An `unsigned` below `2 ^ 31` is itself as an `int`. -/
lemma toInt_of_lt {u : UInt32} (h : u.toNat < 2 ^ 31) : toInt u = u.toNat :=
  Int.bmod_eq_of_le (by omega) (by omega)

lemma position_natCast (i : ℕ) : position (i : ℤ) = .ok i := by
  rw [position, if_pos (Int.natCast_nonneg i), Int.toNat_natCast]

lemma sortedUpTo_iff : SortedUpTo distance addr n ↔ ∀ i j a b, i < j → j < n →
    addr[i]? = some a → addr[j]? = some b → distance a ≤ distance b := by
  rw [SortedUpTo, List.pairwise_iff_getElem]
  constructor
  · intro h i j a b hij hj ha hb
    obtain ⟨hi', rfl⟩ := List.getElem?_eq_some_iff.mp ha
    obtain ⟨hj', rfl⟩ := List.getElem?_eq_some_iff.mp hb
    have := h i j (by rw [List.length_take]; omega) (by rw [List.length_take]; omega) hij
    rwa [List.getElem_take, List.getElem_take] at this
  · intro h i j hi hj hij
    rw [List.length_take] at hi hj
    rw [List.getElem_take, List.getElem_take]
    exact h i j _ _ hij (by omega) (List.getElem?_eq_getElem _) (List.getElem?_eq_getElem _)

lemma SortedUpTo.le (h : SortedUpTo distance addr n) {i j : ℕ} {a b : ε} (hij : i ≤ j)
    (hj : j < n) (ha : addr[i]? = some a) (hb : addr[j]? = some b) : distance a ≤ distance b := by
  rcases eq_or_lt_of_le hij with rfl | hlt
  · obtain rfl := Option.some.inj (ha.symm.trans hb)
    exact le_rfl
  · exact sortedUpTo_iff.mp h i j a b hlt hj ha hb

lemma mem_take_iff {e : ε} : e ∈ addr.take n ↔ ∃ i < n, addr[i]? = some e := by
  rw [List.mem_iff_getElem?]
  constructor
  · rintro ⟨i, hi⟩
    by_cases hn : i < n
    · exact ⟨i, hn, by rwa [List.getElem?_take_of_lt hn] at hi⟩
    · rw [List.getElem?_take_eq_none (by omega)] at hi
      exact absurd hi (by simp)
  · rintro ⟨i, hn, hi⟩
    exact ⟨i, by rwa [List.getElem?_take_of_lt hn]⟩

/-- The array once the slot that became free is filled. -/
lemma memmove_set (nn : ε) (hr : r ≤ n) (hn : n < addr.length) :
    ∃ moved, memmove addr (r + 1) r (n - r) = .ok moved ∧ ∀ i, (moved.set r nn)[i]? =
      if i < r then addr[i]? else if i = r then some nn
      else if i ≤ n then addr[i - 1]? else addr[i]? := by
  refine ⟨_, if_pos ⟨by omega, by omega⟩, fun i => ?_⟩
  have hhead : (addr.take (r + 1)).length = r + 1 := by rw [List.length_take]; omega
  have hmid : ((addr.drop r).take (n - r)).length = n - r := by
    rw [List.length_take, List.length_drop]
    omega
  rw [List.getElem?_set, List.append_assoc]
  by_cases hir : r = i
  · rw [if_pos hir, if_pos (by simp only [List.length_append, hhead, hmid]; omega),
      if_neg (by omega), if_pos hir.symm]
  · rw [if_neg hir, if_neg (Ne.symm hir)]
    rcases Nat.lt_or_ge i r with hlt | hge
    · rw [if_pos hlt, List.getElem?_append_left (by omega), List.getElem?_take_of_lt (by omega)]
    · rw [if_neg (by omega), List.getElem?_append_right (by omega), hhead]
      by_cases hle : i ≤ n
      · rw [if_pos hle, List.getElem?_append_left (by omega),
          List.getElem?_take_of_lt (by omega), List.getElem?_drop]
        congr 1
        omega
      · rw [if_neg hle, List.getElem?_append_right (by omega), hmid, List.getElem?_drop]
        congr 1
        omega

/-- An entry that is put between those at most as far and those at least as far keeps the order. -/
lemma putAt_of_getElem? (hr : r ≤ n) (hsorted : SortedUpTo distance addr n)
    (hbelow : ∀ i < r, ∀ e, addr[i]? = some e → distance e ≤ distance nn)
    (habove : ∀ i, r ≤ i → i < n → ∀ e, addr[i]? = some e → distance nn ≤ distance e)
    (h : ∀ i, addr'[i]? = if i < r then addr[i]? else if i = r then some nn
      else if i ≤ n then addr[i - 1]? else addr[i]?) : PutAt distance addr addr' n r nn where
  le := hr
  entry := by rw [h, if_neg (lt_irrefl r), if_pos rfl]
  before i hi := by rw [h, if_pos hi]
  shifted i hri hin := by
    rw [h, if_neg (by omega), if_neg (by omega), if_pos (by omega), Nat.add_sub_cancel]
  beyond i hi := by rw [h, if_neg (by omega), if_neg (by omega), if_neg (by omega)]
  sorted := by
    rw [sortedUpTo_iff]
    intro i j a b hij hj ha hb
    rw [h] at ha hb
    split_ifs at ha with hi hir hin
    · split_ifs at hb with hj' hjr hjn
      · exact hsorted.le hij.le (by omega) ha hb
      · obtain rfl := Option.some.inj hb
        exact hbelow i hi a ha
      · exact hsorted.le (by omega) (by omega) ha hb
      · omega
    · obtain rfl := Option.some.inj ha
      rw [if_neg (by omega), if_neg (by omega), if_pos (by omega)] at hb
      exact habove (j - 1) (by omega) (by omega) b hb
    · rw [if_neg (by omega), if_neg (by omega), if_pos (by omega)] at hb
      exact hsorted.le (by omega) (by omega) ha hb
    · omega

/-- The array with the entry put into the slot `r`, as a list. -/
lemma PutAt.eq_append (h : PutAt distance addr addr' n r nn) (hn : n < addr.length) :
    addr' = ((addr.take n).take r ++ nn :: (addr.take n).drop r) ++ addr.drop (n + 1) := by
  have hr := h.le
  have hhead : ((addr.take n).take r).length = r := by
    rw [List.length_take, List.length_take]
    omega
  have htail : ((addr.take n).drop r).length = n - r := by
    rw [List.length_drop, List.length_take]
    omega
  refine List.ext_getElem? fun i => ?_
  rw [List.append_assoc]
  rcases lt_trichotomy i r with hlt | rfl | hgt
  · rw [h.before i hlt, List.getElem?_append_left (by omega), List.getElem?_take_of_lt hlt,
      List.getElem?_take_of_lt (by omega)]
  · rw [h.entry, List.getElem?_append_right hhead.le, hhead, Nat.sub_self]
    rfl
  · obtain ⟨j, rfl⟩ : ∃ j, i = j + 1 := ⟨i - 1, by omega⟩
    rw [List.getElem?_append_right (by omega), hhead, List.cons_append,
      show j + 1 - r = j - r + 1 by omega, List.getElem?_cons_succ]
    rcases Nat.lt_or_ge j n with hj | hj
    · rw [h.shifted j (by omega) hj, List.getElem?_append_left (by omega), List.getElem?_drop,
        Nat.add_sub_cancel' (by omega), List.getElem?_take_of_lt hj]
    · rw [h.beyond (j + 1) (by omega), List.getElem?_append_right (by omega), htail,
        List.getElem?_drop]
      congr 1
      omega

/-- The entry is put between those at most as far and those at least as far. -/
lemma PutAt.between (h : PutAt distance addr addr' n r nn) (hn : n < addr.length) :
    (∀ e ∈ (addr.take n).take r, distance e ≤ distance nn) ∧
      ∀ e ∈ (addr.take n).drop r, distance nn ≤ distance e := by
  have hlen : ((addr.take n).take r ++ nn :: (addr.take n).drop r).length = n + 1 := by
    rw [List.length_append, List.length_cons, List.length_take, List.length_drop, List.length_take]
    have := h.le
    omega
  have hsorted := h.sorted
  rw [SortedUpTo, h.eq_append hn, List.take_append_of_le_length hlen.ge,
    List.take_of_length_le hlen.le, List.pairwise_append] at hsorted
  obtain ⟨-, htail, hcross⟩ := hsorted
  exact ⟨fun e he => hcross e he nn List.mem_cons_self, (List.pairwise_cons.mp htail).1⟩

/-- The binary search closes in on two neighbouring slots around the distance of the new entry. -/
lemma bisect_spec (distance : ε → δ) (addr : List ε) (nn : ε) {fuel left right : ℕ}
    (hfuel : right ≤ fuel + left)
    (hlr : left ≤ right) (hlen : right < addr.length) (hint : right ≤ 2 ^ 30)
    (hbelow : ∀ e, addr[left]? = some e → distance e ≤ distance nn)
    (habove : ∀ e, addr[right]? = some e → distance nn ≤ distance e) :
    ∃ l u, bisect distance addr nn fuel left right = .ok (l, u) ∧ l ≤ u ∧ u ≤ l + 1 ∧ u ≤ right ∧
      (left < right → l < u) ∧
      (∀ e, addr[l]? = some e → distance e ≤ distance nn) ∧
      (∀ e, addr[u]? = some e → distance nn ≤ distance e) ∧
      (u < right → ∀ e, addr[u]? = some e → distance nn < distance e) := by
  induction fuel generalizing left right with
  | zero =>
      exact ⟨left, right, rfl, hlr, by omega, le_rfl, fun h => h, hbelow, habove,
        fun h => absurd h (lt_irrefl right)⟩
  | succ fuel ih =>
      rw [bisect]
      by_cases hgap : left + 1 < right
      · have hmid : left < (left + right) / 2 ∧ (left + right) / 2 < right := by omega
        have hlt : (left + right) / 2 < addr.length := hmid.2.trans hlen
        have hget : ∀ e, addr[(left + right) / 2]? = some e → e = addr[(left + right) / 2] :=
          fun e he => by
            rw [List.getElem?_eq_getElem hlt] at he
            exact (Option.some.inj he).symm
        simp only [if_pos hgap, addInt_of_lt (show left + right < 2 ^ 31 by omega),
          entryAt_of_lt hlt, bind, Except.bind]
        split_ifs with hcmp
        · obtain ⟨l, u, hrun, hlu, hul, hur, hsep, hl, hu, hstrict⟩ := ih (by omega) hmid.1.le hlt
            (by omega) hbelow fun e he => by
              rw [hget e he]
              exact hcmp.le
          refine ⟨l, u, hrun, hlu, hul, by omega, fun _ => hsep hmid.1, hl, hu, fun _ e he => ?_⟩
          rcases eq_or_lt_of_le hur with rfl | hlt'
          · rw [hget e he]
            exact hcmp
          · exact hstrict hlt' e he
        · obtain ⟨l, u, hrun, hlu, hul, hur, hsep, hl, hu, hstrict⟩ := ih (by omega) hmid.2.le hlen
            hint (fun e he => by
              rw [hget e he]
              exact not_lt.mp hcmp) habove
          exact ⟨l, u, hrun, hlu, hul, hur, fun _ => hsep hmid.2, hl, hu, hstrict⟩
      · rw [if_neg hgap]
        exact ⟨left, right, rfl, hlr, by omega, le_rfl, fun h => h, hbelow, habove,
          fun h => absurd h (lt_irrefl right)⟩

/-- The scan finds the id, or has passed all entries down to one that is nearer or the first. -/
lemma checkEqualId_spec (distance : ε → δ) (id : ε → ι) (addr : List ε) (nn : ε) {left : ℕ}
    (hlen : left < addr.length) :
    (checkEqualId distance id addr nn left = .ok none ∧
      ∃ i ≤ left, ∃ e, addr[i]? = some e ∧ id e = id nn) ∨
    ∃ l ≤ left, checkEqualId distance id addr nn left = .ok (some l) ∧
      (∀ i, l < i → i ≤ left → ∀ e, addr[i]? = some e → id e ≠ id nn) ∧
      (0 < l → ∀ e, addr[l]? = some e → distance e < distance nn) := by
  induction left with
  | zero =>
      exact Or.inr ⟨0, le_rfl, rfl, fun i hi hi' => by omega, fun h => absurd h (lt_irrefl 0)⟩
  | succ left ih =>
      have hget : addr[left + 1]? = some addr[left + 1] := List.getElem?_eq_getElem hlen
      rw [checkEqualId, entryAt_of_lt hlen]
      simp only [bind, Except.bind]
      split_ifs with hcmp hid
      · refine Or.inr ⟨left + 1, le_rfl, rfl, fun i hi hi' => by omega, fun _ e he => ?_⟩
        obtain rfl := Option.some.inj (hget.symm.trans he)
        exact hcmp
      · exact Or.inl ⟨rfl, left + 1, le_rfl, _, hget, hid⟩
      · rcases ih (by omega) with ⟨hrun, i, hi, e, he, hide⟩ | ⟨l, hl, hrun, hnot, hnear⟩
        · exact Or.inl ⟨hrun, i, by omega, e, he, hide⟩
        · refine Or.inr ⟨l, by omega, hrun, fun i hli hi e he => ?_, hnear⟩
          rcases eq_or_lt_of_le hi with rfl | hlt
          · obtain rfl := Option.some.inj (hget.symm.trans he)
            exact hid
          · exact hnot i hli (by omega) e he

/-! ### Up to `2 ^ 30 + 1` entries -/

lemma toNat_sub_one (hpos : 0 < K.toNat) : (K - 1).toNat = K.toNat - 1 := by
  have hone : (1 : UInt32) ≤ K := UInt32.le_iff_toNat_le.mpr hpos
  rw [UInt32.toNat_sub_of_le K 1 hone, UInt32.toNat_one]

lemma toNat_add_one (hK : K.toNat + 1 < 2 ^ 32) : (K + 1).toNat = K.toNat + 1 := by
  rw [UInt32.toNat_add, UInt32.toNat_one, Nat.mod_eq_of_lt hK]

lemma toInt_add_one (hK : K.toNat + 1 < 2 ^ 31) : toInt (K + 1) = (K.toNat : ℤ) + 1 := by
  have hadd : (K + 1).toNat = K.toNat + 1 := toNat_add_one (by omega)
  have hlt : (K + 1).toNat < 2 ^ 31 := hadd ▸ hK
  rw [toInt_of_lt hlt, hadd, Nat.cast_succ]

/-- In front of all entries. -/
lemma insertSorted_front (id : ε → ι) (hlen : K.toNat < addr.length)
    (hsorted : SortedUpTo distance addr K.toNat)
    {first : ε} (hfirst : addr[0]? = some first) (hcmp : distance nn < distance first) :
    ∃ addr', insertSorted distance id addr K nn = .ok (0, addr') ∧
      PutAt distance addr addr' K.toNat 0 nn := by
  obtain ⟨moved, hmoved, hset⟩ := memmove_set nn (Nat.zero_le K.toNat) hlen
  have hget := entryAt_of_lt (show 0 < addr.length by omega)
  obtain rfl := Option.some.inj ((List.getElem?_eq_getElem (by omega)).symm.trans hfirst)
  rw [Nat.sub_zero] at hmoved
  refine ⟨moved.set 0 nn, ?_, putAt_of_getElem? (Nat.zero_le _) hsorted
    (fun i hi => absurd hi (Nat.not_lt_zero i)) (fun i _ hi e he => ?_) hset⟩
  · rw [insertSorted, hget, ok_bind, if_pos hcmp, hmoved, ok_bind]
    rfl
  · exact hcmp.le.trans (hsorted.le (Nat.zero_le i) hi hfirst he)

/-- Behind all entries. -/
lemma insertSorted_back (id : ε → ι) (hpos : 0 < K.toNat) (hK : K.toNat < 2 ^ 31)
    (hlen : K.toNat < addr.length) (hsorted : SortedUpTo distance addr K.toNat) {first last : ε}
      (hfirst : addr[0]? = some first)
    (hlast : addr[K.toNat - 1]? = some last) (hfront : ¬ distance nn < distance first)
    (hcmp : distance last < distance nn) :
    ∃ addr', insertSorted distance id addr K nn = .ok (K.toNat, addr') ∧
      PutAt distance addr addr' K.toNat K.toNat nn := by
  have hget := entryAt_of_lt (show 0 < addr.length by omega)
  have hget' := entryAt_of_lt (show K.toNat - 1 < addr.length by omega)
  obtain rfl := Option.some.inj ((List.getElem?_eq_getElem (by omega)).symm.trans hfirst)
  obtain rfl := Option.some.inj ((List.getElem?_eq_getElem (by omega)).symm.trans hlast)
  have hright : toInt (K - 1) = ((K.toNat - 1 : ℕ) : ℤ) := by
    rw [toInt_of_lt (by rw [toNat_sub_one hpos]; omega), toNat_sub_one hpos]
  refine ⟨addr.set K.toNat nn, ?_, putAt_of_getElem? le_rfl hsorted (fun i hi e he => ?_)
    (fun i hi hi' => by omega) fun i => ?_⟩
  · rw [insertSorted, hget, hright, position_natCast]
    simp only [bind, Except.bind, if_neg hfront, hget', if_pos hcmp, entryAt_of_lt hlen,
      toInt_of_lt hK]
    rfl
  · exact (hsorted.le (by omega) (by omega) he hlast).trans hcmp.le
  · rw [List.getElem?_set]
    rcases lt_trichotomy i K.toNat with hlt | rfl | hgt
    · rw [if_neg (by omega), if_pos hlt]
    · rw [if_pos rfl, if_pos hlen, if_neg (lt_irrefl _), if_pos rfl]
    · rw [if_neg (by omega), if_neg (by omega), if_neg (by omega), if_neg (by omega)]

/-- Between the first and the last entry: the id is found where its distance allows it to be, and a
new entry goes where the binary search ends. -/
lemma insertSorted_between (hpos : 0 < K.toNat) (hK : K.toNat ≤ 2 ^ 30 + 1)
    (hlen : K.toNat < addr.length) (hsorted : SortedUpTo distance addr K.toNat) {first last : ε}
    (hfirst : addr[0]? = some first) (hlast : addr[K.toNat - 1]? = some last)
    (hfront : ¬ distance nn < distance first) (hback : ¬ distance last < distance nn)
    (hid : ∀ i < K.toNat, ∀ e, addr[i]? = some e → id e = id nn → distance e = distance nn) :
    ((∃ i < K.toNat, ∃ e, addr[i]? = some e ∧ id e = id nn) ∧
      insertSorted distance id addr K nn = .ok ((K.toNat : ℤ) + 1, addr)) ∨
    ((∀ i < K.toNat, ∀ e, addr[i]? = some e → id e ≠ id nn) ∧
      ∃ (r : ℕ) (addr' : List ε), insertSorted distance id addr K nn = .ok (r, addr') ∧
        PutAt distance addr addr' K.toNat r nn) := by
  have hget := entryAt_of_lt (show 0 < addr.length by omega)
  have hget' := entryAt_of_lt (show K.toNat - 1 < addr.length by omega)
  obtain rfl := Option.some.inj ((List.getElem?_eq_getElem (by omega)).symm.trans hfirst)
  obtain rfl := Option.some.inj ((List.getElem?_eq_getElem (by omega)).symm.trans hlast)
  have hright : toInt (K - 1) = ((K.toNat - 1 : ℕ) : ℤ) := by
    rw [toInt_of_lt (by rw [toNat_sub_one hpos]; omega), toNat_sub_one hpos]
  have hadd := toInt_add_one (show K.toNat + 1 < 2 ^ 31 by omega)
  obtain ⟨l, u, hrun, hlu, hul, hur, hsep, hl, hu, hstrict⟩ := bisect_spec distance addr nn
    (show K.toNat - 1 ≤ K.toNat + 0 by omega) (Nat.zero_le _)
    (show K.toNat - 1 < addr.length by omega) (by omega)
    (fun e he => by
      obtain rfl := Option.some.inj (hfirst.symm.trans he)
      exact not_lt.mp hfront)
    (fun e he => by
      obtain rfl := Option.some.inj (hlast.symm.trans he)
      exact not_lt.mp hback)
  have hbody : insertSorted distance id addr K nn
      = (checkEqualId distance id addr nn l).bind fun found => match found with
        | none => .ok (toInt (K + 1), addr)
        | some left => do
            let below ← entryAt addr left
            let above ← entryAt addr u
            if id below = id nn ∨ id above = id nn then return (toInt (K + 1), addr)
            let up ← addInt u 1
            let moved ← memmove addr up u (K.toNat - u)
            return (u, moved.set u nn) := by
    rw [insertSorted, hget, hright, position_natCast]
    simp only [bind, Except.bind, if_neg hfront, hget', if_neg hback, hrun]
    rfl
  rcases checkEqualId_spec distance id addr nn
    (show l < addr.length by omega) with ⟨hscan, i, hi, e, he, hide⟩ | ⟨m, hm, hscan, hnot, hnear⟩
  · left
    refine ⟨⟨i, by omega, e, he, hide⟩, ?_⟩
    rw [hbody, hscan, hadd]
    rfl
  · have hmlen : m < addr.length := by omega
    have hulen : u < addr.length := by omega
    have hmget := List.getElem?_eq_getElem hmlen
    have huget := List.getElem?_eq_getElem hulen
    have hbody' : insertSorted distance id addr K nn
        = if id addr[m] = id nn ∨ id addr[u] = id nn then .ok (toInt (K + 1), addr)
          else do
            let moved ← memmove addr (u + 1) u (K.toNat - u)
            return (u, moved.set u nn) := by
      rw [hbody, hscan]
      simp only [Except.bind, bind, entryAt_of_lt hmlen, entryAt_of_lt hulen,
        addInt_of_lt (show u + 1 < 2 ^ 31 by omega)]
      rfl
    by_cases hfound : id addr[m] = id nn ∨ id addr[u] = id nn
    · left
      rw [hbody', if_pos hfound, hadd]
      refine ⟨?_, rfl⟩
      rcases hfound with hfound | hfound
      · exact ⟨m, by omega, _, hmget, hfound⟩
      · exact ⟨u, by omega, _, huget, hfound⟩
    · right
      rw [not_or] at hfound
      obtain ⟨moved, hmoved, hset⟩ := memmove_set nn (show u ≤ K.toNat by omega) hlen
      refine ⟨fun i hi e he hide => ?_, u, moved.set u nn, ?_,
        putAt_of_getElem? (by omega) hsorted (fun i hi e he => ?_) (fun i hi hi' e he => ?_) hset⟩
      · -- an entry of this id would be at the distance of `nn`, hence between `m` and `u`
        have hdist := hid i hi e he hide
        rcases lt_trichotomy i m with hlt | rfl | hgt
        · have hle := hsorted.le hlt.le (by omega) he hmget
          exact absurd (hnear (by omega) _ hmget) (not_lt.mpr (hdist ▸ hle))
        · obtain rfl := Option.some.inj (hmget.symm.trans he)
          exact hfound.1 hide
        · rcases Nat.lt_or_ge l i with hli | hil
          · rcases eq_or_lt_of_le (show u ≤ i by omega) with rfl | hui
            · obtain rfl := Option.some.inj (huget.symm.trans he)
              exact hfound.2 hide
            · have hle := hsorted.le hui.le hi huget he
              exact absurd (hstrict (by omega) _ huget) (not_lt.mpr (hdist ▸ hle))
          · exact hnot i hgt hil e he hide
      · rw [hbody', if_neg (not_or.mpr hfound), hmoved]
        rfl
      · rcases Nat.eq_zero_or_pos (K.toNat - 1) with hone | hmore
        · omega
        · have hlget := List.getElem?_eq_getElem (show l < addr.length by omega)
          have := hsep hmore
          exact (hsorted.le (show i ≤ l by omega) (by omega) he hlget).trans (hl _ hlget)
      · exact (hu _ huget).trans (hsorted.le hi hi' huget he)

/-- **Up to `2 ^ 30 + 1` entries** the insertion is what it is for. -/
theorem keepsSorted_of_le (hpos : 0 < K.toNat) (hK : K.toNat ≤ 2 ^ 30 + 1) :
    KeepsSorted distance id (insertSorted distance id) K := by
  intro addr nn hlen hsorted hsame
  have hfirst : addr[0]? = some addr[0] := List.getElem?_eq_getElem (by omega)
  have hlast : addr[K.toNat - 1]? = some addr[K.toNat - 1] := List.getElem?_eq_getElem (by omega)
  have hpresent : Present id addr K.toNat nn ↔
      ∃ i < K.toNat, ∃ e, addr[i]? = some e ∧ id e = id nn := by
    simp only [Present, mem_take_iff]
    constructor
    · rintro ⟨e, ⟨i, hi, he⟩, hide⟩
      exact ⟨i, hi, e, he, hide⟩
    · rintro ⟨i, hi, e, he, hide⟩
      exact ⟨e, ⟨i, hi, he⟩, hide⟩
  have hid : ∀ i < K.toNat, ∀ e, addr[i]? = some e → id e = id nn → distance e = distance nn :=
    fun i hi e he => hsame e (mem_take_iff.mpr ⟨i, hi, he⟩)
  rw [hpresent]
  by_cases hfront : distance nn < distance addr[0]
  · refine ⟨fun ⟨i, hi, e, he, hide⟩ => ?_, fun _ => ?_⟩
    · have hle := hsorted.le (Nat.zero_le i) hi hfirst he
      exact absurd hfront (not_lt.mpr (hid i hi e he hide ▸ hle))
    · obtain ⟨addr', hrun, hput⟩ := insertSorted_front id hlen hsorted hfirst hfront
      exact ⟨0, addr', hrun, hput⟩
  · by_cases hback : distance addr[K.toNat - 1] < distance nn
    · refine ⟨fun ⟨i, hi, e, he, hide⟩ => ?_, fun _ => ?_⟩
      · have hle := hsorted.le (show i ≤ K.toNat - 1 by omega) (by omega) he hlast
        exact absurd hback (not_lt.mpr (hid i hi e he hide ▸ hle))
      · obtain ⟨addr', hrun, hput⟩ := insertSorted_back id hpos (by omega) hlen hsorted
          hfirst hlast hfront hback
        exact ⟨K.toNat, addr', hrun, hput⟩
    · rcases insertSorted_between hpos hK hlen hsorted hfirst hlast hfront hback hid with
        ⟨hin, hrun⟩ | ⟨hout, hrun⟩
      · exact ⟨fun _ => hrun, fun h => absurd hin h⟩
      · exact ⟨fun ⟨i, hi, e, he, hide⟩ => absurd hide (hout i hi e he), fun _ => hrun⟩

/-! ### More entries -/

/-- An `unsigned` from `2 ^ 31` on is negative as an `int`. -/
lemma toInt_neg {u : UInt32} (h : 2 ^ 31 ≤ u.toNat) : toInt u < 0 := by
  have hu := u.toNat_lt
  have hmod : ((u.toNat : ℤ) - 2 ^ 32).bmod (2 ^ 32) = (u.toNat : ℤ) - 2 ^ 32 :=
    Int.bmod_eq_of_le (by omega) (by omega)
  have hsub : toInt u = ((u.toNat : ℤ) - 2 ^ 32).bmod (2 ^ 32) :=
    (Int.sub_bmod_right (u.toNat : ℤ) (2 ^ 32)).symm
  rw [hsub, hmod]
  omega

/-- Among many entries at one distance the search moves `left` up until the sum of the two positions
is no `int`. -/
lemma bisect_level {fuel left right : ℕ}
    (hlevel : ∀ i < right, ∀ e, addr[i]? = some e → distance e = distance nn)
    (hfuel : right ≤ fuel + left) (hgap : left + 1 < right) (hright : 2 ^ 30 + 1 ≤ right)
    (hlen : right < addr.length) : bisect distance addr nn fuel left right = .error .overflow := by
  induction fuel generalizing left with
  | zero => omega
  | succ fuel ih =>
      rw [bisect, if_pos hgap]
      by_cases hsum : left + right < 2 ^ 31
      · have hmid : (left + right) / 2 < addr.length := by omega
        have hnot : ¬ distance nn < distance addr[(left + right) / 2] :=
          (hlevel _ (by omega) _ (List.getElem?_eq_getElem hmid)).le.not_gt
        rw [addInt_of_lt hsum, ok_bind]
        simp only
        rw [entryAt_of_lt hmid, ok_bind, if_neg hnot]
        exact ih (by omega) (by omega)
      · rw [addInt, if_neg hsum]
        rfl

/-- **A new entry at the distance of all others but the last** does not find its place among more
than `2 ^ 30 + 1` entries. -/
lemma insertSorted_overflow (id : ε → ι) (hK : 2 ^ 30 + 1 < K.toNat) (hK' : K.toNat ≤ 2 ^ 31)
    (hlen : K.toNat ≤ addr.length)
    (hlevel : ∀ i < K.toNat - 1, ∀ e, addr[i]? = some e → distance e = distance nn)
    (hlast : ∀ e, addr[K.toNat - 1]? = some e → distance nn ≤ distance e) :
    insertSorted distance id addr K nn = .error .overflow := by
  have hsub := toNat_sub_one (K := K) (by omega)
  have hright : toInt (K - 1) = ((K.toNat - 1 : ℕ) : ℤ) := by
    rw [toInt_of_lt (by rw [hsub]; omega), hsub]
  have hfirst : 0 < addr.length := by omega
  have hend : K.toNat - 1 < addr.length := by omega
  have hfront : ¬ distance nn < distance addr[0] :=
    (hlevel 0 (by omega) _ (List.getElem?_eq_getElem hfirst)).le.not_gt
  have hback : ¬ distance addr[K.toNat - 1] < distance nn :=
    (hlast _ (List.getElem?_eq_getElem hend)).not_gt
  have hrun : bisect distance addr nn K.toNat 0 (K.toNat - 1) = .error .overflow :=
    bisect_level hlevel (by omega) (by omega) (by omega) hend
  rw [insertSorted, entryAt_of_lt hfirst, ok_bind, if_neg hfront, hright, position_natCast, ok_bind,
    entryAt_of_lt hend, ok_bind, if_neg hback, hrun]
  rfl

/-- A new entry at the distance of all others does not find its place. -/
lemma insertSorted_level (hK : 2 ^ 30 + 1 < K.toNat) {e : ε} (he : distance e = distance nn) :
    insertSorted distance id (List.replicate (K.toNat + 1) e) K nn
      = .error (if K.toNat ≤ 2 ^ 31 then .overflow else .slot) := by
  have hlen : (List.replicate (K.toNat + 1) e).length = K.toNat + 1 := List.length_replicate
  have hall : ∀ i a, (List.replicate (K.toNat + 1) e)[i]? = some a → distance a = distance nn :=
    fun i a ha => by rw [List.eq_of_mem_replicate (List.mem_of_getElem? ha), he]
  by_cases hle : K.toNat ≤ 2 ^ 31
  · rw [if_pos hle]
    exact insertSorted_overflow id hK hle (by omega) (fun i _ a ha => hall i a ha)
      fun a ha => (hall _ a ha).ge
  · have hneg : ¬ 0 ≤ toInt (K - 1) := (toInt_neg (by rw [toNat_sub_one (by omega)]; omega)).not_ge
    rw [insertSorted, entryAt_of_lt (show 0 < _ by omega), List.getElem_replicate, ok_bind,
      if_neg he.le.not_gt, position, if_neg hneg, if_neg hle]
    rfl

/-- **From `2 ^ 30 + 2` entries on** the insertion is not what it is for. -/
theorem not_keepsSorted_of_lt (hK : 2 ^ 30 + 1 < K.toNat) (e nn : ε)
    (he : distance e = distance nn) (hid : id e ≠ id nn) :
      ¬ KeepsSorted distance id (insertSorted distance id) K := by
  intro h
  have hsorted : SortedUpTo distance (List.replicate (K.toNat + 1) e) K.toNat := by
    rw [sortedUpTo_iff]
    intro i j a b _ _ ha hb
    rw [List.eq_of_mem_replicate (List.mem_of_getElem? ha),
      List.eq_of_mem_replicate (List.mem_of_getElem? hb)]
  have hall : ∀ a ∈ (List.replicate (K.toNat + 1) e).take K.toNat, a = e :=
    fun a ha => List.eq_of_mem_replicate (List.mem_of_mem_take ha)
  obtain ⟨-, hnew⟩ := h (List.replicate (K.toNat + 1) e) nn
    (by rw [List.length_replicate]; omega) hsorted fun a ha _ => by rw [hall a ha, he]
  obtain ⟨r, addr', hrun, -⟩ := hnew fun ⟨a, ha, hida⟩ => hid (hall a ha ▸ hida)
  rw [insertSorted_level hK he] at hrun
  exact absurd hrun (by simp)

end Proofs

/-- **Both insertions keep the array sorted and find duplicates exactly up to `2 ^ 30 + 1`
entries.** -/
theorem insertIntoPool_iff {δ : Type} [LinearOrder δ] [Inhabited δ] (K : UInt32)
    (hK : 0 < K.toNat) :
    (KeepsSorted Numaann.Neighbor.distance Numaann.Neighbor.id (insertIntoPool (δ := δ)) K
      ↔ K.toNat ≤ 2 ^ 30 + 1) ∧
    (KeepsSorted NeighborItem.distance NeighborItem.item (insertIntoPoolItem (δ := δ)) K
      ↔ K.toNat ≤ 2 ^ 30 + 1) := by
  refine ⟨⟨fun h => ?_, fun h => keepsSorted_of_le hK h⟩,
    ⟨fun h => ?_, fun h => keepsSorted_of_le hK h⟩⟩
  · by_contra hlt
    exact not_keepsSorted_of_lt (not_le.mp hlt) ⟨0, default, true⟩
      ⟨1, default, true⟩ rfl (show (0 : VertexId) ≠ 1 by decide) h
  · by_contra hlt
    exact not_keepsSorted_of_lt (not_le.mp hlt) ⟨⟨0, 0⟩, default, true⟩
      ⟨⟨0, 1⟩, default, true⟩ rfl (show (⟨0, 0⟩ : Item) ≠ ⟨0, 1⟩ by decide) h

theorem insertIntoPool_iff_three :
    (KeepsSorted Numaann.Neighbor.distance Numaann.Neighbor.id (insertIntoPool (δ := ℤ)) 3
      ↔ (3 : UInt32).toNat ≤ 2 ^ 30 + 1) ∧
    (KeepsSorted NeighborItem.distance NeighborItem.item (insertIntoPoolItem (δ := ℤ)) 3
      ↔ (3 : UInt32).toNat ≤ 2 ^ 30 + 1) :=
  insertIntoPool_iff 3 (by decide)

/-- `2 ^ 31 + 1` entries at one distance: the last position is negative as an `int`. -/
theorem not_keepsSorted_manyEntries :
    insertIntoPool (List.replicate 2147483650 ⟨0, (0 : ℤ), true⟩) 2147483649 ⟨1, 0, true⟩
      = .error .slot ∧
    ¬ KeepsSorted Numaann.Neighbor.distance Numaann.Neighbor.id (insertIntoPool (δ := ℤ))
      2147483649 :=
  ⟨insertSorted_level (K := 2147483649) (by decide) rfl,
    not_keepsSorted_of_lt (by decide) ⟨0, 0, true⟩ ⟨1, 0, true⟩ rfl (by decide)⟩

end SortedPool

end RedAnns
