import Mathlib.Algebra.Order.BigOperators.Group.Finset
import Mathlib.Data.Finset.Card
import Mathlib.Data.List.Sort
import Mathlib.Tactic

/-!
A best selection of bounded size, with ties in any order.

`Smallest.lean` is about members that a linear order tells apart. Here the members are ranked by a
distance that may be the same for several of them, so there can be more than one selection.

* `Best d k S l`: the list `l` holds `k` members of `S`, or all of them, in increasing distance, and
  no member that is left out is closer than one that is listed.
* `Best.of_sorted`: the front of a sorted list of all members is one.
* `Best.insert`: a new member joins at a place that keeps the order, and the list is cut back to
  `k`; `Best.skip` is the case where it joins behind a full list.
* `Best.of_parts`: the best selections of disjoint parts, sorted together, start with a best
  selection of the whole; `Best.map` takes a selection along an embedding.
* `Best.head_le`: the first listed member is a closest one.
* `Best.sum_le`: when the distance falls with a weight, no selection of at most `k` members weighs
  more.
-/

namespace RedAnns

variable {α δ : Type*} [DecidableEq α] [LinearOrder δ]

/-- **A best selection** of at most `k` members of `S`. -/
structure Best (d : α → δ) (k : ℕ) (S : Finset α) (l : List α) : Prop where
  sorted : l.Pairwise fun a b => d a ≤ d b
  nodup : l.Nodup
  subset : ∀ a ∈ l, a ∈ S
  length_eq : l.length = min k S.card
  rest : ∀ a ∈ S, a ∉ l → ∀ b ∈ l, d b ≤ d a

namespace Best

variable {d : α → δ} {k r : ℕ} {S : Finset α} {l : List α} {a : α}

omit [DecidableEq α] in
lemma singleton (hk : 0 < k) (a : α) : Best d k {a} [a] where
  sorted := List.pairwise_singleton _ _
  nodup := List.nodup_singleton a
  subset b hb := Finset.mem_singleton.mpr (List.mem_singleton.mp hb)
  length_eq := by rw [List.length_singleton, Finset.card_singleton, min_eq_right hk]
  rest b hb hnot := absurd (List.mem_singleton.mpr (Finset.mem_singleton.mp hb)) hnot

omit [DecidableEq α] in
/-- What is cut off a sorted list lies behind what stays. -/
lemma le_of_cut (hsorted : l.Pairwise fun a b => d a ≤ d b) (ha : a ∈ l) (hnot : a ∉ l.take k) :
    ∀ b ∈ l.take k, d b ≤ d a := by
  intro b hb
  have hsplit : (l.take k ++ l.drop k).Pairwise fun a b => d a ≤ d b := by
    rwa [List.take_append_drop]
  have hor : a ∈ l.take k ++ l.drop k := by rwa [List.take_append_drop]
  exact (List.pairwise_append.mp hsplit).2.2 b hb a ((List.mem_append.mp hor).resolve_left hnot)

omit [DecidableEq α] in
/-- The front of a sorted list of all members. -/
lemma of_sorted (hsorted : l.Pairwise fun a b => d a ≤ d b) (hnodup : l.Nodup)
    (hmem : ∀ a, a ∈ l ↔ a ∈ S) (k : ℕ) : Best d k S (l.take k) where
  sorted := hsorted.take
  nodup := hnodup.sublist (List.take_sublist _ _)
  subset a ha := (hmem a).mp (List.mem_of_mem_take ha)
  length_eq := by
    classical
    have hset : l.toFinset = S := Finset.ext fun a => List.mem_toFinset.trans (hmem a)
    rw [List.length_take, ← hset, List.toFinset_card_of_nodup hnodup]
  rest _ ha hnot := le_of_cut hsorted ((hmem _).mpr ha) hnot

omit [DecidableEq α] in
/-- With room for all, all are listed. -/
lemma mem_of_card_le (h : Best d k S l) (hk : S.card ≤ k) (ha : a ∈ S) : a ∈ l := by
  classical
  have hcard : l.toFinset.card = S.card := by
    rw [List.toFinset_card_of_nodup h.nodup, h.length_eq, min_eq_right hk]
  have hsub : l.toFinset ⊆ S := fun b hb => h.subset b (List.mem_toFinset.mp hb)
  rw [← Finset.eq_of_subset_of_card_le hsub hcard.ge] at ha
  exact List.mem_toFinset.mp ha

omit [DecidableEq α] in
/-- A member left out shows that the list is full. -/
lemma length_eq_of_not_mem (h : Best d k S l) (ha : a ∈ S) (hnot : a ∉ l) : l.length = k := by
  have hk : ¬ S.card ≤ k := fun hk => hnot (h.mem_of_card_le hk ha)
  rw [h.length_eq, min_eq_left (not_le.mp hk).le]

omit [DecidableEq α] in
/-- The first listed member is a closest one. -/
lemma head_le {m : α} (h : Best d k S (m :: l)) (ha : a ∈ S) : d m ≤ d a := by
  by_cases hmem : a ∈ m :: l
  · cases hmem with
    | head => exact le_rfl
    | tail _ htail => exact List.rel_of_pairwise_cons h.sorted htail
  · exact h.rest a ha hmem m List.mem_cons_self

/-- **A new member behind a full list** changes nothing. -/
lemma skip (h : Best d k S l) (ha : a ∉ S) (hfull : l.length = k)
    (hfar : ∀ b ∈ l, d b ≤ d a) : Best d k (insert a S) l where
  sorted := h.sorted
  nodup := h.nodup
  subset b hb := Finset.mem_insert_of_mem (h.subset b hb)
  length_eq := by
    have hlen := h.length_eq
    rw [Finset.card_insert_of_notMem ha]
    omega
  rest b hb hnot c hc := by
    rcases Finset.mem_insert.mp hb with rfl | hb
    · exact hfar c hc
    · exact h.rest b hb hnot c hc

omit [DecidableEq α] in
/-- Putting a member between those that are at most as far and those that are at least as far
keeps the order. -/
lemma sorted_insertAt (h : l.Pairwise fun a b => d a ≤ d b)
    (hbelow : ∀ b ∈ l.take r, d b ≤ d a) (habove : ∀ b ∈ l.drop r, d a ≤ d b) :
    (l.take r ++ a :: l.drop r).Pairwise fun a b => d a ≤ d b := by
  have hsplit : (l.take r ++ l.drop r).Pairwise fun a b => d a ≤ d b := by
    rwa [List.take_append_drop]
  obtain ⟨htake, hdrop, hcross⟩ := List.pairwise_append.mp hsplit
  refine List.pairwise_append.mpr ⟨htake, List.pairwise_cons.mpr ⟨habove, hdrop⟩,
    fun b hb c hc => ?_⟩
  rcases List.mem_cons.mp hc with rfl | hc
  · exact hbelow b hb
  · exact hcross b hb c hc

/-- **A new member** joins at a place that keeps the order, and the list is cut back. -/
theorem insert (h : Best d k S l) (ha : a ∉ S) (hbelow : ∀ b ∈ l.take r, d b ≤ d a)
    (habove : ∀ b ∈ l.drop r, d a ≤ d b) :
    Best d k (insert a S) ((l.take r ++ a :: l.drop r).take k) := by
  set ins := l.take r ++ a :: l.drop r with hins
  have hsorted : ins.Pairwise fun a b => d a ≤ d b := sorted_insertAt h.sorted hbelow habove
  have hperm : ins.Perm (a :: l) := by
    refine List.perm_middle.trans (List.Perm.cons a ?_)
    rw [List.take_append_drop]
  have hnodup : ins.Nodup :=
    hperm.nodup_iff.mpr (List.nodup_cons.mpr ⟨fun hmem => ha (h.subset a hmem), h.nodup⟩)
  have hlen : ins.length = l.length + 1 := by rw [hperm.length_eq, List.length_cons]
  have hmem : ∀ b, b ∈ ins ↔ b = a ∨ b ∈ l := fun b => by rw [hperm.mem_iff, List.mem_cons]
  have hcut : ∀ b ∈ ins, b ∉ ins.take k → ∀ c ∈ ins.take k, d c ≤ d b :=
    fun b hb hnot => le_of_cut hsorted hb hnot
  refine ⟨hsorted.take, hnodup.sublist (List.take_sublist _ _), fun b hb => ?_, ?_,
    fun b hb hnot c hc => ?_⟩
  · rcases (hmem b).mp (List.mem_of_mem_take hb) with rfl | hb
    · exact Finset.mem_insert_self _ _
    · exact Finset.mem_insert_of_mem (h.subset b hb)
  · have hold := h.length_eq
    rw [List.length_take, hlen, Finset.card_insert_of_notMem ha]
    omega
  · by_cases hbins : b ∈ ins
    · exact hcut b hbins hnot c hc
    · -- it was left out before, so the list was full
      obtain ⟨hba, hbl⟩ := not_or.mp fun hor => hbins ((hmem b).mpr hor)
      have hbS : b ∈ S := (Finset.mem_insert.mp hb).resolve_left hba
      rcases (hmem c).mp (List.mem_of_mem_take hc) with rfl | hcl
      · -- the new member stays: another one was cut off, or it is at most as far as a listed one
        have hfull := h.length_eq_of_not_mem hbS hbl
        obtain ⟨e, he, hecut⟩ : ∃ e ∈ ins, e ∉ ins.take k := by
          by_contra hall
          push Not at hall
          have hsub : ins ⊆ ins.take k := fun e he => hall e he
          have hle := (List.Nodup.subperm hnodup hsub).length_le
          rw [List.length_take, hlen] at hle
          omega
        have hne : e ≠ c := fun heq => hecut (heq ▸ hc)
        have hel : e ∈ l := ((hmem e).mp he).resolve_left hne
        exact (hcut e he hecut c hc).trans (h.rest b hbS hbl e hel)
      · exact h.rest b hbS hbl c hcl

omit [DecidableEq α] in
/-- Only the order of the distances matters. -/
lemma of_le_iff {ρ : Type*} [LinearOrder ρ] {d' : α → ρ} (h : Best d k S l)
    (hd : ∀ a b, d a ≤ d b ↔ d' a ≤ d' b) : Best d' k S l where
  sorted := h.sorted.imp fun hab => (hd _ _).mp hab
  nodup := h.nodup
  subset := h.subset
  length_eq := h.length_eq
  rest a ha hnot b hb := (hd _ _).mp (h.rest a ha hnot b hb)

omit [DecidableEq α] in
/-- A selection goes along an embedding. -/
lemma map {β : Type*} {d : β → δ} {f : α ↪ β} (h : Best (fun a => d (f a)) k S l) :
    Best d k (S.map f) (l.map f) where
  sorted := List.pairwise_map.mpr h.sorted
  nodup := h.nodup.map f.injective
  subset b hb := by
    obtain ⟨a, ha, rfl⟩ := List.mem_map.mp hb
    exact Finset.mem_map_of_mem f (h.subset a ha)
  length_eq := by rw [List.length_map, Finset.card_map, h.length_eq]
  rest b hb hnot c hc := by
    obtain ⟨a, ha, rfl⟩ := Finset.mem_map.mp hb
    obtain ⟨e, he, rfl⟩ := List.mem_map.mp hc
    exact h.rest a ha (fun hal => hnot (List.mem_map_of_mem hal)) e he

omit [DecidableEq α] in
/-- **The best selections of the parts**, sorted together, start with a best selection of the
whole. -/
theorem of_parts {parts : List (Finset α × List α)} {T : Finset α}
    (hbest : ∀ p ∈ parts, Best d k p.1 p.2)
    (hdisj : parts.Pairwise fun p q => Disjoint p.1 q.1)
    (hT : ∀ a, a ∈ T ↔ ∃ p ∈ parts, a ∈ p.1) (hperm : l.Perm (parts.flatMap Prod.snd))
    (hsorted : l.Pairwise fun a b => d a ≤ d b) : Best d k T (l.take k) := by
  classical
  have hmem : ∀ a, a ∈ l ↔ ∃ p ∈ parts, a ∈ p.2 := fun a => by
    rw [hperm.mem_iff, List.mem_flatMap]
  have hsub : ∀ a ∈ l, a ∈ T := by
    intro a ha
    obtain ⟨p, hp, hap⟩ := (hmem a).mp ha
    exact (hT a).mpr ⟨p, hp, (hbest p hp).subset a hap⟩
  have hnodup : l.Nodup := by
    rw [hperm.nodup_iff, List.nodup_flatMap]
    refine ⟨fun p hp => (hbest p hp).nodup, hdisj.imp_of_mem fun hp hq hpq a hap haq => ?_⟩
    exact Finset.disjoint_left.mp hpq ((hbest _ hp).subset a hap) ((hbest _ hq).subset a haq)
  -- a member that no part lists belongs to a part with a full list
  have hfull : ∀ a ∈ T, a ∉ l → ∃ p ∈ parts, p.2.length = k ∧ ∀ b ∈ p.2, d b ≤ d a := by
    intro a ha hnot
    obtain ⟨p, hp, hap⟩ := (hT a).mp ha
    have hapl : a ∉ p.2 := fun hal => hnot ((hmem a).mpr ⟨p, hp, hal⟩)
    exact ⟨p, hp, (hbest p hp).length_eq_of_not_mem hap hapl, (hbest p hp).rest a hap hapl⟩
  have hpart : ∀ p ∈ parts, p.2.length ≤ l.length := by
    intro p hp
    have hps : p.2 ⊆ l := fun a ha => (hmem a).mpr ⟨p, hp, ha⟩
    exact ((hbest p hp).nodup.subperm hps).length_le
  refine ⟨hsorted.take, hnodup.sublist (List.take_sublist _ _),
    fun a ha => hsub a (List.mem_of_mem_take ha), ?_, fun a ha hnot b hb => ?_⟩
  · have hcard : l.length ≤ T.card := by
      rw [← List.toFinset_card_of_nodup hnodup]
      exact Finset.card_le_card fun a ha => hsub a (List.mem_toFinset.mp ha)
    rw [List.length_take]
    by_cases hall : ∀ a ∈ T, a ∈ l
    · have hset : l.toFinset = T := Finset.ext fun a =>
        ⟨fun ha => hsub a (List.mem_toFinset.mp ha), fun ha => List.mem_toFinset.mpr (hall a ha)⟩
      rw [← hset, List.toFinset_card_of_nodup hnodup]
    · push Not at hall
      obtain ⟨a, ha, hnot⟩ := hall
      obtain ⟨p, hp, hlen, -⟩ := hfull a ha hnot
      have := hpart p hp
      omega
  · by_cases hal : a ∈ l
    · exact le_of_cut hsorted hal hnot b hb
    · obtain ⟨p, hp, hlen, hfar⟩ := hfull a ha hal
      by_cases hin : ∀ c ∈ p.2, c ∈ l.take k
      · -- the front is the list of this part
        have hbp : b ∈ p.2 := by
          by_contra hbp
          have hle := ((List.nodup_cons.mpr ⟨hbp, (hbest p hp).nodup⟩).subperm
            (List.cons_subset.mpr ⟨hb, hin⟩)).length_le
          rw [List.length_cons, List.length_take] at hle
          omega
        exact hfar b hbp
      · push Not at hin
        obtain ⟨c, hc, hcut⟩ := hin
        exact (le_of_cut hsorted ((hmem c).mpr ⟨p, hp, hc⟩) hcut b hb).trans (hfar c hc)

/-- **No selection of at most `k` members weighs more**, for a weight that falls with the
distance. -/
theorem sum_le (h : Best d k S l) {w : α → ℕ} (hw : ∀ a b, d a ≤ d b → w b ≤ w a)
    {T : Finset α} (hT : T ⊆ S) (hcard : T.card ≤ k) :
    ∑ a ∈ T, w a ≤ ∑ a ∈ l.toFinset, w a := by
  set A := l.toFinset with hA
  set M := (T \ A).sup w with hM
  have hmem : ∀ a, a ∈ A ↔ a ∈ l := fun a => List.mem_toFinset
  -- what is left out weighs at most as much as anything listed
  have hheavy : ∀ b ∈ A \ T, M ≤ w b := by
    intro b hb
    refine Finset.sup_le fun a ha => ?_
    obtain ⟨haT, haA⟩ := Finset.mem_sdiff.mp ha
    have hbl : b ∈ l := (hmem b).mp (Finset.mem_sdiff.mp hb).1
    exact hw b a (h.rest a (hT haT) (fun hal => haA ((hmem a).mpr hal)) b hbl)
  have hmore : (T \ A).card ≤ (A \ T).card := by
    by_cases hempty : T \ A = ∅
    · rw [hempty, Finset.card_empty]
      exact Nat.zero_le _
    · obtain ⟨a, ha⟩ := Finset.nonempty_iff_ne_empty.mpr hempty
      obtain ⟨haT, haA⟩ := Finset.mem_sdiff.mp ha
      have hfull := h.length_eq_of_not_mem (hT haT) fun hal => haA ((hmem a).mpr hal)
      have hcardA : A.card = k := by rw [hA, List.toFinset_card_of_nodup h.nodup, hfull]
      have h1 := Finset.card_sdiff_add_card_inter T A
      have h2 := Finset.card_sdiff_add_card_inter A T
      rw [Finset.inter_comm] at h2
      omega
  calc ∑ a ∈ T, w a
      = ∑ a ∈ T \ A, w a + ∑ a ∈ T ∩ A, w a := by
        rw [add_comm, Finset.sum_inter_add_sum_sdiff]
    _ ≤ (T \ A).card * M + ∑ a ∈ T ∩ A, w a :=
        Nat.add_le_add_right (Finset.sum_le_card_nsmul _ _ _ fun a ha => Finset.le_sup ha) _
    _ ≤ (A \ T).card * M + ∑ a ∈ T ∩ A, w a :=
        Nat.add_le_add_right (Nat.mul_le_mul_right M hmore) _
    _ ≤ ∑ a ∈ A \ T, w a + ∑ a ∈ A ∩ T, w a := by
        rw [Finset.inter_comm]
        exact Nat.add_le_add_right (Finset.card_nsmul_le_sum _ _ _ hheavy) _
    _ = ∑ a ∈ A, w a := by rw [add_comm, Finset.sum_inter_add_sum_sdiff]

end Best

end RedAnns
