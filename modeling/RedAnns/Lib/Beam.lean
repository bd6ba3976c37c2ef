import Mathlib.Logic.Function.Iterate
import Mathlib.Logic.Relation
import RedAnns.Lib.Smallest

/-!
Best-first search with a bounded beam, on sets.

The vertices carry the order in which they are to be expanded, and a state is the set of
vertices seen so far together with the set of those already expanded. One step expands
the first unexpanded vertex among the `L` smallest seen ones (`frontier`), which makes its
out-neighbours seen. No list, no cursor and no eviction is left: the beam is a function of
the set `seen`, so the order in which the neighbours of one expansion arrive is immaterial.

* `Inv`: what every step preserves, `inv_step`, and `inv_iterate` for whole runs.
* `frontier_iterate_eq_none`: the search halts, after at most as many steps as there are
  vertices reachable from the entry points.
* `seen_eq_of_halted`: a beam at least as wide as the reachable set sees all of it;
  `min_card_seen_of_halted`: any beam ends as full as the reachable set can make it.
* `iterate_eq_of_halted`, `iterate_congr`: a search has one end, and its runs depend on the
  neighbours of reachable vertices only.
* `iterate_map`: a map that is strictly increasing and commutes with the neighbours carries
  runs to runs.
-/

namespace RedAnns

/-- The state of a best-first search: what has been seen and what has been expanded. -/
@[ext]
structure Beam (κ : Type*) where
  seen : Finset κ
  expanded : Finset κ

namespace Beam

section Reach

variable {κ : Type*} {nbr : κ → Finset κ} {e : Finset κ}

/-- The vertices reachable from the entry points. -/
def Reach (nbr : κ → Finset κ) (e : Finset κ) (y : κ) : Prop :=
  ∃ x ∈ e, Relation.ReflTransGen (fun a b => b ∈ nbr a) x y

lemma reach_of_mem {x : κ} (h : x ∈ e) : Reach nbr e x := ⟨x, h, .refl⟩

lemma Reach.tail {x y : κ} (h : Reach nbr e x) (hy : y ∈ nbr x) : Reach nbr e y := by
  obtain ⟨z, hz, hzx⟩ := h
  exact ⟨z, hz, hzx.tail hy⟩

/-- The reachable vertices are the least set that holds the entry points and is closed. -/
lemma Reach.mem_of_closed {R : Finset κ} (he : e ⊆ R) (hR : ∀ x ∈ R, nbr x ⊆ R) {y : κ}
    (h : Reach nbr e y) : y ∈ R := by
  obtain ⟨x, hx, hxy⟩ := h
  induction hxy with
  | refl => exact he hx
  | tail _ hbc ih => exact hR _ ih hbc

end Reach

variable {κ ξ : Type*} [LinearOrder κ] [LinearOrder ξ]

/-- The next vertex to expand: the first unexpanded one among the `L` smallest seen. -/
def frontier (L : ℕ) (s : Beam κ) : Option κ := (smallest L s.seen).find? (· ∉ s.expanded)

/-- One expansion; the state stands still once the whole beam is expanded. -/
def step (L : ℕ) (nbr : κ → Finset κ) (s : Beam κ) : Beam κ :=
  match s.frontier L with
  | none => s
  | some x => ⟨s.seen ∪ nbr x, insert x s.expanded⟩

/-- The search before its first expansion: the entry points are seen. -/
def start (e : Finset κ) : Beam κ := ⟨e, ∅⟩

variable {L : ℕ} {nbr : κ → Finset κ} {e : Finset κ} {s : Beam κ}

lemma frontier_eq_none : s.frontier L = none ↔ ∀ x ∈ smallest L s.seen, x ∈ s.expanded := by
  simp [frontier]

lemma mem_of_frontier {x : κ} (h : s.frontier L = some x) :
    x ∈ smallest L s.seen ∧ x ∉ s.expanded :=
  ⟨List.mem_of_find?_eq_some h, by simpa using List.find?_some h⟩

lemma step_of_none (h : s.frontier L = none) : step L nbr s = s := by
  rw [step, h]

lemma step_of_some {x : κ} (h : s.frontier L = some x) :
    step L nbr s = ⟨s.seen ∪ nbr x, insert x s.expanded⟩ := by
  rw [step, h]

/-! ### What every step preserves -/

/-- The invariant of the search: only seen vertices are expanded, and the seen ones are the
entry points with the out-neighbours of the expanded ones. -/
structure Inv (nbr : κ → Finset κ) (e : Finset κ) (s : Beam κ) : Prop where
  expanded_subset : s.expanded ⊆ s.seen
  seen_eq : s.seen = e ∪ s.expanded.biUnion nbr
  reach : ∀ x ∈ s.seen, Reach nbr e x

lemma inv_start : Inv nbr e (start e) :=
  ⟨Finset.empty_subset _, by simp [start], fun _ h => reach_of_mem h⟩

lemma inv_step (h : Inv nbr e s) : Inv nbr e (step L nbr s) := by
  cases hf : s.frontier L with
  | none => rwa [step_of_none hf]
  | some x =>
      have hx : x ∈ s.seen := mem_of_mem_smallest (mem_of_frontier hf).1
      rw [step_of_some hf]
      refine ⟨?_, ?_, fun y hy => ?_⟩
      · exact Finset.insert_subset (Finset.mem_union_left _ hx)
          (h.expanded_subset.trans Finset.subset_union_left)
      · rw [Finset.biUnion_insert, h.seen_eq, Finset.union_comm (nbr x), Finset.union_assoc]
      · rcases Finset.mem_union.mp hy with hy | hy
        · exact h.reach y hy
        · exact (h.reach x hx).tail hy

lemma inv_iterate (L : ℕ) (nbr : κ → Finset κ) (e : Finset κ) (n : ℕ) :
    Inv nbr e ((step L nbr)^[n] (start e)) := by
  induction n with
  | zero => exact inv_start
  | succ n ih => rw [Function.iterate_succ_apply']; exact inv_step ih

lemma Inv.entry_subset (h : Inv nbr e s) : e ⊆ s.seen := by
  rw [h.seen_eq]; exact Finset.subset_union_left

lemma Inv.nbr_subset (h : Inv nbr e s) {x : κ} (hx : x ∈ s.expanded) : nbr x ⊆ s.seen := by
  rw [h.seen_eq]
  exact (Finset.subset_biUnion_of_mem nbr hx).trans Finset.subset_union_right

/-! ### Halting -/

/-- **The search halts.** Every step before the halt expands one more vertex of a closed
finite set, so as many steps as the set has members suffice. -/
theorem frontier_iterate_eq_none {R : Finset κ} (hR : ∀ x, Reach nbr e x → x ∈ R) {n : ℕ}
    (hn : R.card ≤ n) : ((step L nbr)^[n] (start e)).frontier L = none := by
  have key : ∀ n (s : Beam κ), Inv nbr e s → R.card ≤ n + s.expanded.card →
      ((step L nbr)^[n] s).frontier L = none := by
    intro n
    induction n with
    | zero =>
        intro s hs hc
        have hsub : s.expanded ⊆ R := fun x hx => hR x (hs.reach x (hs.expanded_subset hx))
        have heq : s.expanded = R :=
          Finset.eq_of_subset_of_card_le hsub (by simpa using hc)
        refine frontier_eq_none.mpr fun x hx => ?_
        show x ∈ s.expanded
        rw [heq]
        exact hR x (hs.reach x (mem_of_mem_smallest hx))
    | succ n ih =>
        intro s hs hc
        rw [Function.iterate_succ_apply]
        cases hf : s.frontier L with
        | none =>
            rw [step_of_none hf, Function.iterate_fixed (step_of_none hf)]
            exact hf
        | some x =>
            refine ih _ (inv_step hs) ?_
            rw [step_of_some hf, Finset.card_insert_of_notMem (mem_of_frontier hf).2]
            omega
  exact key n _ inv_start (by omega)

/-- The closure of a halted search: every vertex of the beam has had its out-neighbours seen. -/
lemma Inv.nbr_subset_of_halted (h : Inv nbr e s) (hf : s.frontier L = none) {x : κ}
    (hx : x ∈ smallest L s.seen) : nbr x ⊆ s.seen :=
  h.nbr_subset (frontier_eq_none.mp hf x hx)

/-- A halted search whose beam has room for all it has seen has seen every reachable vertex. -/
lemma Inv.reach_mem_of_halted (h : Inv nbr e s) (hf : s.frontier L = none)
    (hL : s.seen.card ≤ L) {x : κ} (hx : Reach nbr e x) : x ∈ s.seen :=
  hx.mem_of_closed h.entry_subset fun _ hy =>
    h.nbr_subset_of_halted hf ((mem_smallest_of_card_le hL).mpr hy)

/-- **A wide beam sees everything**: a halted search whose beam has room for the reachable
vertices has seen exactly them. -/
theorem seen_eq_of_halted {R : Finset κ} (hR : ∀ x, x ∈ R ↔ Reach nbr e x) (hL : R.card ≤ L)
    (h : Inv nbr e s) (hf : s.frontier L = none) : s.seen = R := by
  have hsub : s.seen ⊆ R := fun x hx => (hR x).mpr (h.reach x hx)
  refine Finset.Subset.antisymm hsub fun x hx => ?_
  exact h.reach_mem_of_halted hf ((Finset.card_le_card hsub).trans hL) ((hR x).mp hx)

/-- **The beam of a halted search is as full as the reachable vertices can make it.** -/
theorem min_card_seen_of_halted {R : Finset κ} (hR : ∀ x, x ∈ R ↔ Reach nbr e x)
    (h : Inv nbr e s) (hf : s.frontier L = none) : min L s.seen.card = min L R.card := by
  have hsub : s.seen ⊆ R := fun x hx => (hR x).mpr (h.reach x hx)
  rcases Nat.le_total s.seen.card L with hle | hge
  · have hsup : R ⊆ s.seen := fun x hx => h.reach_mem_of_halted hf hle ((hR x).mp hx)
    rw [Finset.Subset.antisymm hsub hsup]
  · rw [min_eq_left hge, min_eq_left (hge.trans (Finset.card_le_card hsub))]

/-- **A halted search has only one end**, however many steps led to it. -/
theorem iterate_eq_of_halted {m n : ℕ} (hm : ((step L nbr)^[m] s).frontier L = none)
    (hn : ((step L nbr)^[n] s).frontier L = none) :
    (step L nbr)^[m] s = (step L nbr)^[n] s := by
  have key : ∀ {m n : ℕ}, m ≤ n → ((step L nbr)^[m] s).frontier L = none →
      (step L nbr)^[m] s = (step L nbr)^[n] s := by
    intro m n hmn hm
    obtain ⟨k, rfl⟩ := Nat.exists_eq_add_of_le hmn
    rw [Nat.add_comm, Function.iterate_add_apply, Function.iterate_fixed (step_of_none hm)]
  rcases Nat.le_total m n with hmn | hnm
  · exact key hmn hm
  · exact (key hnm hn).symm

/-- Runs over neighbours that agree on a closed set around the entry points agree. -/
lemma iterate_congr {B : Finset κ} {nbr' : κ → Finset κ} (hB : ∀ x ∈ B, nbr' x = nbr x)
    (hcl : ∀ x ∈ B, nbr x ⊆ B) (he : e ⊆ B) (n : ℕ) :
    (step L nbr')^[n] (start e) = (step L nbr)^[n] (start e) := by
  induction n with
  | zero => rfl
  | succ n ih =>
      rw [Function.iterate_succ_apply', Function.iterate_succ_apply', ih]
      cases hf : ((step L nbr)^[n] (start e)).frontier L with
      | none => rw [step_of_none hf, step_of_none hf]
      | some x =>
          have hx : x ∈ B := ((inv_iterate L nbr e n).reach x
            (mem_of_mem_smallest (mem_of_frontier hf).1)).mem_of_closed he hcl
          rw [step_of_some hf, step_of_some hf, hB x hx]

/-! ### Maps -/

/-- The image of a state. -/
def map (f : κ → ξ) (s : Beam κ) : Beam ξ := ⟨s.seen.image f, s.expanded.image f⟩

variable {f : κ → ξ} {B : Finset κ} {nbr' : ξ → Finset ξ}

lemma frontier_map (hf : StrictMonoOn f B) (hs : s.seen ⊆ B) (he : s.expanded ⊆ B) :
    (s.map f).frontier L = (s.frontier L).map f := by
  have key : ∀ l : List κ, (∀ x ∈ l, x ∈ B) →
      (l.map f).find? (· ∉ s.expanded.image f) = (l.find? (· ∉ s.expanded)).map f := by
    intro l
    induction l with
    | nil => simp
    | cons a l ih =>
        intro h
        have ha : a ∈ B := h a (by simp)
        have hiff : f a ∈ s.expanded.image f ↔ a ∈ s.expanded := by
          refine ⟨fun hfa => ?_, Finset.mem_image_of_mem f⟩
          obtain ⟨b, hb, hba⟩ := Finset.mem_image.mp hfa
          rwa [← hf.injOn (he hb) ha hba]
        have ihl := ih fun x hx => h x (by simp [hx])
        by_cases hx : a ∈ s.expanded
        · rw [List.map_cons, List.find?_cons_of_neg (by simpa using hiff.mpr hx),
            List.find?_cons_of_neg (by simpa using hx), ihl]
        · have hx' : f a ∉ s.expanded.image f := fun h' => hx (hiff.mp h')
          rw [List.map_cons, List.find?_cons_of_pos (by simpa using hx'),
            List.find?_cons_of_pos (by simpa using hx), Option.map_some]
  rw [frontier, frontier, map,
    smallest_image (hf.mono (by simpa using hs))]
  exact key _ fun x hx => hs (mem_of_mem_smallest hx)

lemma step_map (hf : StrictMonoOn f B) (hB : ∀ x ∈ B, nbr' (f x) = (nbr x).image f)
    (hs : s.seen ⊆ B) (he : s.expanded ⊆ B) :
    step L nbr' (s.map f) = (step L nbr s).map f := by
  cases hx : s.frontier L with
  | none =>
      have hx' : (s.map f).frontier L = none := by rw [frontier_map hf hs he, hx]; rfl
      rw [step_of_none hx, step_of_none hx']
  | some x =>
      have hx' : (s.map f).frontier L = some (f x) := by rw [frontier_map hf hs he, hx]; rfl
      have hxB : x ∈ B := hs (mem_of_mem_smallest (mem_of_frontier hx).1)
      rw [step_of_some hx, step_of_some hx', hB x hxB]
      simp only [map, Finset.image_union, Finset.image_insert]

/-- **A strictly increasing map that commutes with the neighbours carries runs to runs.** -/
theorem iterate_map (hf : StrictMonoOn f B) (hB : ∀ x ∈ B, nbr' (f x) = (nbr x).image f)
    (hcl : ∀ x ∈ B, nbr x ⊆ B) (he : e ⊆ B) (n : ℕ) :
    (step L nbr')^[n] (start (e.image f)) = ((step L nbr)^[n] (start e)).map f := by
  induction n with
  | zero => simp [start, map]
  | succ n ih =>
      have hinv : Inv nbr e ((step L nbr)^[n] (start e)) := inv_iterate L nbr e n
      have hseen : ((step L nbr)^[n] (start e)).seen ⊆ B := fun x hx =>
        (hinv.reach x hx).mem_of_closed he hcl
      rw [Function.iterate_succ_apply', Function.iterate_succ_apply', ih,
        step_map hf hB hseen (hinv.expanded_subset.trans hseen)]

end Beam

end RedAnns
