import Mathlib.Data.Finset.Sort
import Mathlib.Data.List.Sort
import Mathlib.Tactic

/-!
The `k` smallest members of a finite set of a linear order, as an increasing list.

* `smallest`: the first `k` members of the sorted set, of length `min k |S|`
  (`length_smallest`) and strictly increasing (`pairwise_smallest`).
* `mem_smallest`: a member belongs to the list exactly when fewer than `k` members of the
  set lie below it, so the list depends on the set only.
* `smallest_union_subset_iff`: when members that come late leave the list as it is.
* `smallest_insert`: a new member is inserted in order and the list cut back to `k`, the
  rule a bounded sorted pool lives by; `smallest_insert_of_full` is the case where the
  new member lies above a full list and changes nothing, `smallest_insert_of_lt` the one where
  it takes the place of the last member.
* `take_mergeSort`: the front of a sorted list.
* `smallest_image`: a map that is strictly increasing on the set commutes with the list.
-/

namespace RedAnns

variable {α β : Type*} [LinearOrder α] [LinearOrder β]

/-- The `k` smallest members of a finite set, in increasing order. -/
def smallest (k : ℕ) (S : Finset α) : List α := (S.sort (· ≤ ·)).take k

@[simp] lemma smallest_empty (k : ℕ) : smallest k (∅ : Finset α) = [] := by
  simp [smallest]

@[simp] lemma length_smallest (k : ℕ) (S : Finset α) : (smallest k S).length = min k S.card := by
  simp [smallest]

lemma pairwise_smallest (k : ℕ) (S : Finset α) : (smallest k S).Pairwise (· < ·) :=
  S.sortedLT_sort.pairwise.take

lemma nodup_smallest (k : ℕ) (S : Finset α) : (smallest k S).Nodup :=
  (pairwise_smallest k S).imp ne_of_lt

lemma mem_of_mem_smallest {k : ℕ} {S : Finset α} {a : α} (h : a ∈ smallest k S) : a ∈ S :=
  (Finset.mem_sort _).mp (List.mem_of_mem_take h)

lemma smallest_of_card_le {k : ℕ} {S : Finset α} (h : S.card ≤ k) :
    smallest k S = S.sort (· ≤ ·) :=
  List.take_of_length_le (by simpa using h)

lemma mem_smallest_of_card_le {k : ℕ} {S : Finset α} (h : S.card ≤ k) {a : α} :
    a ∈ smallest k S ↔ a ∈ S := by
  rw [smallest_of_card_le h, Finset.mem_sort]

/-- Taking fewer of the smallest members is a prefix of taking more. -/
lemma take_smallest {k m : ℕ} (h : k ≤ m) (S : Finset α) :
    (smallest m S).take k = smallest k S := by
  rw [smallest, smallest, List.take_take, min_eq_left h]

/-! ### Lists sorted by `<` -/

/-- A strictly increasing list is the sorted list of its members. -/
lemma eq_sort_of_pairwise {l : List α} {S : Finset α} (hl : l.Pairwise (· < ·))
    (hmem : ∀ a, a ∈ l ↔ a ∈ S) : l = S.sort (· ≤ ·) := by
  refine List.Perm.eq_of_pairwise
    (fun a b _ _ (hab : a ≤ b) (hba : b ≤ a) => le_antisymm hab hba)
    (hl.imp le_of_lt) (S.sortedLT_sort.pairwise.imp le_of_lt) ?_
  rw [List.perm_ext_iff_of_nodup (hl.imp ne_of_lt) (S.sort_nodup _)]
  simpa using hmem

/-- The number of list members below a given one is its position. -/
lemma countP_lt_getElem {l : List α} (hl : l.Pairwise (· < ·)) {i : ℕ} (hi : i < l.length) :
    l.countP (· < l[i]) = i := by
  induction l generalizing i with
  | nil => simp at hi
  | cons b l ih =>
      have hb := List.pairwise_cons.mp hl
      cases i with
      | zero =>
          simp only [List.getElem_cons_zero, List.countP_cons, lt_irrefl, decide_false,
            Bool.false_eq_true, if_false, Nat.add_zero, List.countP_eq_zero, decide_eq_true_eq]
          exact fun a ha => not_lt.mpr (hb.1 a ha).le
      | succ i =>
          have hi' : i < l.length := by simpa using hi
          have hlt : b < l[i] := hb.1 _ (List.getElem_mem hi')
          simp only [List.getElem_cons_succ, List.countP_cons, ih hb.2 hi', hlt, decide_true,
            if_true]

/-- The rank of a set member, read off the sorted list. -/
lemma card_filter_lt_eq_countP (S : Finset α) (a : α) :
    (S.filter (· < a)).card = (S.sort (· ≤ ·)).countP (· < a) := by
  have h := congrArg (Multiset.countP (· < a)) (Finset.sort_eq S (· ≤ ·))
  rw [Multiset.coe_countP] at h
  rw [h, Multiset.countP_eq_card_filter]
  rfl

/-- **Membership is a matter of rank**: a member is among the `k` smallest exactly when
fewer than `k` members of the set lie below it. -/
theorem mem_smallest {k : ℕ} {S : Finset α} {a : α} :
    a ∈ smallest k S ↔ a ∈ S ∧ (S.filter (· < a)).card < k := by
  have hs : (S.sort (· ≤ ·)).Pairwise (· < ·) := S.sortedLT_sort.pairwise
  rw [card_filter_lt_eq_countP]
  constructor
  · intro h
    refine ⟨mem_of_mem_smallest h, ?_⟩
    obtain ⟨i, hi, rfl⟩ := List.mem_iff_getElem.mp h
    obtain ⟨hik, hi'⟩ : i < k ∧ i < (S.sort (· ≤ ·)).length := by
      simpa [smallest] using hi
    have hget : (smallest k S)[i] = (S.sort (· ≤ ·))[i] := by simp [smallest]
    rw [hget, countP_lt_getElem hs hi']
    exact hik
  · rintro ⟨hmem, hlt⟩
    obtain ⟨i, hi, rfl⟩ := List.mem_iff_getElem.mp ((Finset.mem_sort (· ≤ ·)).mpr hmem)
    rw [countP_lt_getElem hs hi] at hlt
    have hi' : i < (smallest k S).length := by
      simp only [smallest, List.length_take]
      omega
    have hget : (smallest k S)[i] = (S.sort (· ≤ ·))[i] := by simp [smallest]
    rw [← hget]
    exact List.getElem_mem hi'

/-- A smallest member of a set is one of every subset that holds it. -/
lemma mem_smallest_of_subset {k : ℕ} {S T : Finset α} (hST : S ⊆ T) {a : α}
    (ha : a ∈ smallest k T) (haS : a ∈ S) : a ∈ smallest k S :=
  mem_smallest.mpr ⟨haS, (Finset.card_le_card (Finset.filter_subset_filter _ hST)).trans_lt
    (mem_smallest.mp ha).2⟩

/-- A set member that is not among the `k` smallest lies above every listed one. -/
lemma lt_of_not_mem_smallest {k : ℕ} {S : Finset α} {a b : α} (ha : a ∈ smallest k S)
    (hb : b ∈ S) (hb' : b ∉ smallest k S) : a < b := by
  by_contra hba
  refine hb' (mem_smallest.mpr ⟨hb, lt_of_le_of_lt ?_ (mem_smallest.mp ha).2⟩)
  exact Finset.card_le_card fun x hx => by
    rw [Finset.mem_filter] at hx ⊢
    exact ⟨hx.1, lt_of_lt_of_le hx.2 (not_lt.mp hba)⟩

/-- A member left out shows that the list is full. -/
lemma card_of_not_mem_smallest {k : ℕ} {S : Finset α} {a : α} (ha : a ∈ S)
    (ha' : a ∉ smallest k S) : (smallest k S).length = k := by
  have h : ¬ S.card ≤ k := fun h => ha' ((mem_smallest_of_card_le h).mpr ha)
  rw [length_smallest]
  omega

/-- **What comes late stays out** of the `k` smallest, if anything of it is to, exactly when the
list was full before and lies below all that comes late. -/
theorem smallest_union_subset_iff {k : ℕ} {S T X : Finset α} (hX : X ⊆ S)
    (hS : ∀ a ∈ smallest k S, a ∈ X) (hST : Disjoint S T) :
    (∀ a ∈ smallest k (S ∪ T), a ∈ X) ↔
      ∀ b ∈ T, (smallest k S).length = k ∧ ∀ a ∈ smallest k S, a < b := by
  constructor
  · intro hall b hb
    have hbX : b ∉ X := fun h => Finset.disjoint_left.mp hST (hX h) hb
    have hb' : b ∉ smallest k (S ∪ T) := fun h => hbX (hall b h)
    have hmem : b ∈ S ∪ T := Finset.mem_union_right S hb
    have hsub : (smallest k (S ∪ T)).toFinset ⊆ (smallest k S).toFinset := fun a ha => by
      rw [List.mem_toFinset] at ha ⊢
      exact mem_smallest_of_subset Finset.subset_union_left ha (hX (hall a ha))
    -- both lists have at most `k` members, and the first has `k`
    have hcard : (smallest k (S ∪ T)).toFinset.card = k := by
      rw [List.toFinset_card_of_nodup (nodup_smallest k _), card_of_not_mem_smallest hmem hb']
    have hle : (smallest k S).toFinset.card ≤ k := by
      rw [List.toFinset_card_of_nodup (nodup_smallest k _), length_smallest]
      exact min_le_left _ _
    have heq := Finset.eq_of_subset_of_card_le hsub (hle.trans hcard.ge)
    refine ⟨?_, fun a ha => ?_⟩
    · rw [← List.toFinset_card_of_nodup (nodup_smallest k S), ← heq, hcard]
    · refine lt_of_not_mem_smallest ?_ hmem hb'
      rw [← List.mem_toFinset, heq, List.mem_toFinset]
      exact ha
  · intro hout a ha
    rcases Finset.mem_union.mp (mem_of_mem_smallest ha) with haS | haT
    · exact hS a (mem_smallest_of_subset Finset.subset_union_left ha haS)
    · obtain ⟨hlen, hlt⟩ := hout a haT
      have hsub : (smallest k S).toFinset ⊆ (S ∪ T).filter (· < a) := fun b hb => by
        rw [List.mem_toFinset] at hb
        exact Finset.mem_filter.mpr
          ⟨Finset.mem_union_left T (mem_of_mem_smallest hb), hlt b hb⟩
      have hcard := Finset.card_le_card hsub
      rw [List.toFinset_card_of_nodup (nodup_smallest k S), hlen] at hcard
      exact absurd (mem_smallest.mp ha).2 (not_lt.mpr hcard)

/-- **Few members have a property** that is passed on to smaller ones exactly when the list is
not full or one of the listed ones lacks it. -/
theorem card_filter_lt_iff {k : ℕ} {S : Finset α} {p : α → Prop} [DecidablePred p]
    (hp : ∀ a b, a ≤ b → p b → p a) :
    (S.filter p).card < k ↔ (smallest k S).length < k ∨ ∃ a ∈ smallest k S, ¬ p a := by
  constructor
  · intro hlt
    by_contra hcon
    obtain ⟨hlen, hall⟩ := not_or.mp hcon
    have hsub : (smallest k S).toFinset ⊆ S.filter p := fun a ha => by
      rw [List.mem_toFinset] at ha
      refine Finset.mem_filter.mpr ⟨mem_of_mem_smallest ha, ?_⟩
      by_contra hpa
      exact hall ⟨a, ha, hpa⟩
    have hcard := Finset.card_le_card hsub
    rw [List.toFinset_card_of_nodup (nodup_smallest k S)] at hcard
    omega
  · rintro (hlen | ⟨a, ha, hpa⟩)
    · rw [length_smallest] at hlen
      have := Finset.card_le_card (Finset.filter_subset p S)
      omega
    · refine (Finset.card_le_card fun b hb => ?_).trans_lt (mem_smallest.mp ha).2
      obtain ⟨hbS, hpb⟩ := Finset.mem_filter.mp hb
      exact Finset.mem_filter.mpr ⟨hbS, not_le.mp fun hab => hpa (hp a b hab hpb)⟩

/-! ### Insertion -/

/-- Cutting back before an ordered insertion loses nothing that survives the cut after it. -/
lemma take_orderedInsert (a : α) : ∀ (l : List α) (k : ℕ),
    (l.orderedInsert (· ≤ ·) a).take k = ((l.take k).orderedInsert (· ≤ ·) a).take k
  | [], k => by simp
  | b :: l, 0 => by simp
  | b :: l, k + 1 => by
      by_cases h : a ≤ b
      · rw [List.take_succ_cons, List.orderedInsert_cons_of_le _ _ h,
          List.orderedInsert_cons_of_le _ _ h, List.take_succ_cons, List.take_succ_cons]
        cases k with
        | zero => rfl
        | succ k =>
            rw [List.take_succ_cons, List.take_succ_cons, List.take_take,
              min_eq_left (Nat.le_succ k)]
      · rw [List.take_succ_cons, List.orderedInsert_of_not_le _ _ h,
          List.orderedInsert_of_not_le _ _ h, List.take_succ_cons, List.take_succ_cons,
          take_orderedInsert a l k]

/-- The sorted list of a set with one more member. -/
lemma sort_insert_eq {S : Finset α} {a : α} (ha : a ∉ S) :
    (insert a S).sort (· ≤ ·) = (S.sort (· ≤ ·)).orderedInsert (· ≤ ·) a := by
  symm
  refine eq_sort_of_pairwise ?_ (by simp)
  have hle := (S.sortedLT_sort.pairwise.imp le_of_lt).orderedInsert a (S.sort (· ≤ ·))
  have hnd : ((S.sort (· ≤ ·)).orderedInsert (· ≤ ·) a).Nodup := by
    rw [(List.perm_orderedInsert (· ≤ ·) a _).nodup_iff, List.nodup_cons]
    exact ⟨by simpa using ha, S.sort_nodup _⟩
  exact (hle.and hnd).imp fun h => lt_of_le_of_ne h.1 h.2

/-- **Insertion into the `k` smallest**: insert in order, then cut back to `k`. -/
theorem smallest_insert (k : ℕ) {S : Finset α} {a : α} (ha : a ∉ S) :
    smallest k (insert a S) = ((smallest k S).orderedInsert (· ≤ ·) a).take k := by
  rw [smallest, sort_insert_eq ha, take_orderedInsert, smallest]

/-- Ordered insertion at a known place. -/
lemma orderedInsert_append {a : α} {l₁ l₂ : List α} (h₁ : ∀ b ∈ l₁, b < a)
    (h₂ : ∀ b ∈ l₂, a < b) : (l₁ ++ l₂).orderedInsert (· ≤ ·) a = l₁ ++ a :: l₂ := by
  induction l₁ with
  | nil =>
      cases l₂ with
      | nil => rfl
      | cons b l₂ => exact List.orderedInsert_cons_of_le _ _ (h₂ b (by simp)).le
  | cons b l₁ ih =>
      rw [List.cons_append, List.orderedInsert_of_not_le _ _ (not_le.mpr (h₁ b (by simp))),
        ih fun c hc => h₁ c (by simp [hc])]
      rfl

/-- A member above all of a full list leaves the list as it is. -/
lemma smallest_insert_of_full {k : ℕ} {S : Finset α} {a : α} (hk : k ≤ S.card)
    (ha : ∀ b ∈ smallest k S, b < a) : smallest k (insert a S) = smallest k S := by
  by_cases hS : a ∈ S
  · rw [Finset.insert_eq_of_mem hS]
  have hlen : (smallest k S).length = k := by simp [hk]
  have hins := orderedInsert_append ha (List.forall_mem_nil (a < ·))
  rw [List.append_nil] at hins
  rw [smallest_insert k hS, hins, List.take_append_of_le_length (by omega),
    List.take_of_length_le (by omega)]

/-- A member below the last one of a full list takes its place. -/
lemma smallest_insert_of_lt {k : ℕ} {S : Finset α} {a t : α} {init : List α}
    (hl : smallest k S = init ++ [t]) (hk : k ≤ S.card) (ha : a ∉ S) (hat : a < t) :
    smallest k (insert a S) = init.orderedInsert (· ≤ ·) a := by
  have hins : ∀ l : List α,
      (l ++ [t]).orderedInsert (· ≤ ·) a = l.orderedInsert (· ≤ ·) a ++ [t] := by
    intro l
    induction l with
    | nil => exact List.orderedInsert_cons_of_le _ _ hat.le
    | cons b l ih =>
        by_cases hab : a ≤ b
        · rw [List.cons_append, List.orderedInsert_cons_of_le _ _ hab,
            List.orderedInsert_cons_of_le _ _ hab]
          rfl
        · rw [List.cons_append, List.orderedInsert_of_not_le _ _ hab,
            List.orderedInsert_of_not_le _ _ hab, ih]
          rfl
  have hlen : (smallest k S).length = k := by simp [hk]
  rw [hl, List.length_append, List.length_singleton] at hlen
  rw [smallest_insert k ha, hl, hins, List.take_append_of_le_length, List.take_of_length_le]
  · rw [List.orderedInsert_length]
    omega
  · rw [List.orderedInsert_length]
    omega

/-- Sorting a list without repetitions and taking the front. -/
lemma take_mergeSort {l : List α} (hl : l.Nodup) (k : ℕ) :
    (l.mergeSort (· ≤ ·)).take k = smallest k l.toFinset := by
  have hsorted : (l.mergeSort (· ≤ ·)).Pairwise (· ≤ ·) := List.pairwise_mergeSort' _ l
  have hnodup : (l.mergeSort (· ≤ ·)).Nodup := (List.mergeSort_perm l _).nodup_iff.mpr hl
  have hlt : (l.mergeSort (· ≤ ·)).Pairwise (· < ·) :=
    (hsorted.and hnodup).imp fun h => lt_of_le_of_ne h.1 h.2
  rw [eq_sort_of_pairwise hlt fun a => by rw [List.mem_mergeSort, List.mem_toFinset], smallest]

/-! ### Images -/

/-- **A strictly increasing map commutes with the `k` smallest.** -/
theorem smallest_image {f : α → β} {S : Finset α} (hf : StrictMonoOn f S) (k : ℕ) :
    smallest k (S.image f) = (smallest k S).map f := by
  have hs : ((S.sort (· ≤ ·)).map f).Pairwise (· < ·) := by
    rw [List.pairwise_map]
    refine S.sortedLT_sort.pairwise.imp_of_mem fun ha hb h => ?_
    exact hf (Finset.mem_coe.mpr ((Finset.mem_sort _).mp ha))
      (Finset.mem_coe.mpr ((Finset.mem_sort _).mp hb)) h
  rw [smallest, smallest, ← eq_sort_of_pairwise hs (by simp), List.map_take]

end RedAnns
