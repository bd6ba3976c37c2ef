import RedAnns.Index.Hungary

/-!
The matching of `include/hungary.h` is a best one: the labels, the loop over the left nodes, and
what `HungaryMatch` returns.

* `Labelled`: the invariant of the labels; `Labelled.relabel`: a change of the labels keeps it, and
  none of its operations overflows.
* `searchFrom_augments`: the `while (true)` loop ends after at most `n + 1` searches.
* `matchAll_best`: the matching is a best assignment.
* `solvesAssignment`: what `HungaryMatch` returns for both values of `maxsum`;
  `not_solves_nineHeavyColumns`: where the sum overflows although all totals fit.
-/

namespace RedAnns

namespace Hungary

open Assignment

variable {n : ℕ}

/-! ### The labels -/

/-- **The invariant of the labels**: they cover the weights, meet them along the matching, are zero
at the right nodes that are free, and are small. -/
structure Labelled (s : State n) : Prop where
  small : ∀ u v, -2 ^ 28 ≤ s.weight u v ∧ s.weight u v ≤ 2 ^ 28
  covers : Covers s.weight s.lx s.ly
  tight : ∀ v u, s.mate v = some u → s.Edge u v
  free : ∀ v, s.mate v = none → s.ly v = 0
  left : ∀ u, -2 ^ 28 ≤ s.lx u ∧ s.lx u ≤ 2 ^ 28
  right : ∀ v, 0 ≤ s.ly v ∧ s.ly v ≤ 2 ^ 29

/-- The difference that the loops for `dx` compute. -/
def State.slack (s : State n) (u v : Fin n) : ℤ := s.lx u + s.ly v - s.weight u v

/-- The labels after a change by `d`. -/
def State.relabelled (s : State n) (d : ℤ) : State n :=
  { s with lx := lower s.sx d s.lx, ly := raise s.sy d s.ly }

namespace Labelled

variable {s s' : State n} (h : Labelled s)
include h

lemma of_same (hs : SameLabels s s') (hm : s'.mate = s.mate) : Labelled s' where
  small := hs.weight ▸ h.small
  covers := by rw [hs.weight, hs.lx, hs.ly]; exact h.covers
  tight := by rw [hs.edge, hm]; exact h.tight
  free := by rw [hs.ly, hm]; exact h.free
  left := hs.lx ▸ h.left
  right := hs.ly ▸ h.right

lemma fitLabels : s.FitLabels := fun u v => by
  have hu := h.left u
  have hv := h.right v
  constructor <;> omega

lemma slack_nonneg (u v : Fin n) : 0 ≤ s.slack u v := by
  have hc := h.covers u v
  rw [State.slack]
  omega

lemma slack_le (u v : Fin n) : s.slack u v ≤ 2 ^ 30 := by
  have hu := h.left u
  have hv := h.right v
  have hw := h.small u v
  rw [State.slack]
  omega

/-- **The loops for `dx`** find the largest number below all slacks from a visited left node to a
right node that was not visited. -/
lemma leastSlack_eq : ∃ d, leastSlack s = .ok d ∧ ∀ c, c ≤ d ↔
    c ≤ 0x7FFFFFFF ∧ ∀ u v, s.sx u = true → s.sy v = false → c ≤ s.slack u v := by
  have hinner : ∀ u dx, (List.finRange n).foldlM (fun dx v =>
        if s.sy v then return dx
        else do
          let label ← int (s.lx u + s.ly v)
          let slack ← int (label - s.weight u v)
          return min slack dx) dx
      = (.ok ((List.finRange n).foldl (fun dx v =>
          if s.sy v then dx else min (s.slack u v) dx) dx) : Except Fault ℤ) := by
    intro u dx
    refine foldlM_eq_foldl (fun dx v => ?_) _ _
    cases hv : s.sy v with
    | true => rfl
    | false =>
        have hslack : FitsInt (s.lx u + s.ly v - s.weight u v) := by
          have h0 := h.slack_nonneg u v
          have h1 := h.slack_le u v
          rw [State.slack] at h0 h1
          constructor <;> omega
        simp only [Bool.false_eq_true, if_false, int_of_fits (h.fitLabels u v), State.slack]
        show (int (s.lx u + s.ly v - s.weight u v) >>= _) = _
        rw [int_of_fits hslack]
        rfl
  refine ⟨(List.finRange n).foldl (fun dx u =>
    if s.sx u then (List.finRange n).foldl (fun dx v =>
      if s.sy v then dx else min (s.slack u v) dx) dx
    else dx) 0x7FFFFFFF, ?_, fun c => ?_⟩
  · refine foldlM_eq_foldl (fun dx u => ?_) _ _
    cases hu : s.sx u with
    | true => exact hinner u dx
    | false => rfl
  · rw [foldl_iff (C := fun dx => c ≤ dx)
      (P := fun u => s.sx u = true → ∀ v, s.sy v = false → c ≤ s.slack u v)]
    · simp only [List.mem_finRange, true_implies]
      exact and_congr_right' ⟨fun hall u v hu => hall u hu v, fun hall u hu v => hall u v hu⟩
    · intro dx u
      cases hu : s.sx u with
      | false => simp
      | true =>
          simp only [if_true, true_implies]
          rw [foldl_iff (C := fun dx => c ≤ dx) (P := fun v => s.sy v = false → c ≤ s.slack u v)]
          · simp
          · intro dx v
            cases hv : s.sy v with
            | true => simp
            | false => simp [and_comm]

end Labelled

/-- The loop that changes the labels, where none of its operations overflows. -/
lemma relabel_eq {s : State n} {d : ℤ} (hl : ∀ u, FitsInt (lower s.sx d s.lx u))
    (hr : ∀ v, FitsInt (raise s.sy d s.ly v)) : relabel d s = .ok (s.relabelled d) := by
  have hstep : ∀ i, (do
      let lx ← if s.sx i then int (s.lx i - d) else pure (s.lx i)
      let ly ← if s.sy i then int (s.ly i + d) else pure (s.ly i)
      return (lx, ly)) = (.ok (lower s.sx d s.lx i, raise s.sy d s.ly i) :
        Except Fault (ℤ × ℤ)) := by
    intro i
    have hli := hl i
    have hri := hr i
    rw [lower] at hli ⊢
    rw [raise] at hri ⊢
    split_ifs at hli hri ⊢ <;> simp only [int_of_fits hli, int_of_fits hri] <;> rfl
  rw [relabel, updateEach_finRange hstep]
  rfl

/-- **A change of the labels** after a search that failed: no operation overflows, the labels keep
their invariant, and the next search reaches more. -/
theorem Labelled.relabel {s : State n} (h : Labelled s) {u : Fin n}
    (hex : Explored s.Edge s.mate u s.sx s.sy) (hfree : ∃ v, s.mate v = none) :
    ∃ d, leastSlack s = .ok d ∧ Hungary.relabel d s = .ok (s.relabelled d) ∧
      Labelled (s.relabelled d) ∧
      frontierSize s.Edge s.mate u < frontierSize (s.relabelled d).Edge s.mate u := by
  obtain ⟨v₀, hv₀⟩ := hfree
  have hsy₀ : s.sy v₀ = false := hex.free hv₀
  obtain ⟨d, hd, hiff⟩ := h.leastSlack_eq
  have hbelow : ∀ u v, s.sx u = true → s.sy v = false → d ≤ s.slack u v := ((hiff d).mp le_rfl).2
  -- a pair out of the explored part is not tight
  have hpos : 0 < d := by
    refine (hiff 1).mpr ⟨by norm_num, fun u v hu hv => ?_⟩
    have hslack : s.slack u v ≠ 0 := fun hzero => by
      have hsy := hex.closed u v hu (sub_eq_zero.mp hzero)
      rw [hv] at hsy
      exact absurd hsy (by simp)
    have := h.slack_nonneg u v
    omega
  -- the least slack is the slack of a pair
  obtain ⟨x, v, hx, hv, hxv⟩ : ∃ x v, s.sx x = true ∧ s.sy v = false ∧ s.slack x v = d := by
    by_contra hnone
    push Not at hnone
    have hle : d + 1 ≤ d := by
      refine (hiff (d + 1)).mpr ⟨?_, fun x v hx hv => ?_⟩
      · have h1 := hbelow u v₀ hex.root hsy₀
        have h2 := h.slack_le u v₀
        omega
      · have h1 := hbelow x v hx hv
        have h2 := hnone x v hx hv
        omega
    omega
  have hcovers : Covers s.weight (lower s.sx d s.lx) (raise s.sy d s.ly) :=
    h.covers.relabel hpos.le hbelow
  have htight : ∀ v u, s.mate v = some u → (s.relabelled d).Edge u v := fun v u hm =>
    (tight_relabel_iff (hex.matched_iff hm (h.tight v u hm))).mpr (h.tight v u hm)
  have hzero : ∀ v, s.mate v = none → raise s.sy d s.ly v = 0 := fun v hm => by
    rw [raise_of_notMem (hex.free hm), h.free v hm]
  have hleft : ∀ u, -2 ^ 28 ≤ lower s.sx d s.lx u ∧ lower s.sx d s.lx u ≤ 2 ^ 28 := fun u => by
    have hc := hcovers u v₀
    rw [hzero v₀ hv₀, add_zero] at hc
    exact ⟨(h.small u v₀).1.trans hc, (lower_le hpos.le u).trans (h.left u).2⟩
  have hright : ∀ v, 0 ≤ raise s.sy d s.ly v ∧ raise s.sy d s.ly v ≤ 2 ^ 29 := fun v => by
    refine ⟨(h.right v).1.trans (le_raise hpos.le v), ?_⟩
    cases hsy : s.sy v with
    | false => exact (raise_of_notMem hsy).trans_le (h.right v).2
    | true =>
        obtain ⟨y, hy, -⟩ := hex.back v hsy
        have ht : lower s.sx d s.lx y + raise s.sy d s.ly v = s.weight y v := htight v y hy
        have hy₁ := hleft y
        have hw := h.small y v
        omega
  refine ⟨d, hd, relabel_eq (fun u => ?_) fun v => ?_, ?_, ?_⟩
  · have := hleft u
    constructor <;> omega
  · have := hright v
    constructor <;> omega
  · exact ⟨h.small, hcovers, htight, hzero, hleft, hright⟩
  · refine hex.frontierSize_lt (fun x v hx hv he => ?_) hx hv ?_
    · exact (tight_relabel_iff (by rw [hx, hv])).mpr he
    · show lower s.sx d s.lx x + raise s.sy d s.ly v = s.weight x v
      rw [lower_of_mem hx, raise_of_notMem hv, ← hxv, State.slack]
      ring

/-! ### The matching -/

/-- **The loop for one left node** ends: every search that fails is followed by one that reaches
more. -/
theorem searchFrom_augments (u : Fin n) (fuel : ℕ) {s : State n} (h : Labelled s)
    (hfree : ∃ v, s.mate v = none) (hfuel : n < fuel + frontierSize s.Edge s.mate u) :
    ∃ s', searchFrom u fuel s = .ok s' ∧ Labelled s' ∧ s'.weight = s.weight ∧
      ∀ x, holds s'.mate (some x) = holds s.mate (some x) + if x = u then 1 else 0 := by
  induction fuel generalizing s with
  | zero =>
      have hle : frontierSize s.Edge s.mate u ≤ Fintype.card (Fin n) := frontierSize_le
      rw [Fintype.card_fin] at hle
      omega
  | succ fuel ih =>
      obtain ⟨r, hr, hout⟩ := dfs_outcome (n + 1) u s.clear h.fitLabels (unvisited_lt _)
      cases hout with
      | @found s₁ hfound =>
          refine ⟨s₁, ?_, ?_, hfound.same.weight, hfound.augments.holds⟩
          · rw [searchFrom, hr]
            rfl
          · have hsame : SameLabels s s₁ := ⟨hfound.same.weight, hfound.same.lx, hfound.same.ly⟩
            have hedge : s₁.Edge = s.Edge := hsame.edge
            exact
              { small := hsame.weight ▸ h.small
                covers := by rw [hsame.weight, hsame.lx, hsame.ly]; exact h.covers
                tight := hedge ▸ hfound.augments.pairs h.tight
                free := fun v hv => by
                  rw [hsame.ly]
                  exact h.free v (hfound.augments.free v hv)
                left := hsame.lx ▸ h.left
                right := hsame.ly ▸ h.right }
      | @exhausted s₁ hexh =>
          have hsame : SameLabels s s₁ := ⟨hexh.same.weight, hexh.same.lx, hexh.same.ly⟩
          have hmate : s₁.mate = s.mate := hexh.mate
          have hedge : s₁.Edge = s.Edge := hsame.edge
          obtain ⟨d, hd, hrel, hlab, hlt⟩ :=
            (h.of_same hsame hmate).relabel hexh.explored (hmate ▸ hfree)
          have hmate' : (s₁.relabelled d).mate = s.mate := hmate
          rw [hmate, hedge] at hlt
          obtain ⟨s', hs', hlab', hweight, hholds⟩ := ih hlab (hmate' ▸ hfree) (by
            rw [hmate']
            omega)
          refine ⟨s', ?_, hlab', hweight.trans hsame.weight, hmate' ▸ hholds⟩
          rw [searchFrom, hr]
          show (leastSlack s₁ >>= fun dx => Hungary.relabel dx s₁ >>= searchFrom u fuel) = _
          rw [hd]
          show (Hungary.relabel d s₁ >>= searchFrom u fuel) = _
          rw [hrel]
          exact hs'

/-- The label of a row is its largest weight. -/
lemma initLabels_le_iff (s : State n) (u : Fin n) (c : ℤ) :
    s.initLabels.lx u ≤ c ↔ -0x1FFFFFFF ≤ c ∧ ∀ v, s.weight u v ≤ c := by
  have h := foldl_iff (f := fun lx v => if lx < s.weight u v then s.weight u v else lx)
    (C := fun lx => lx ≤ c) (P := fun v => s.weight u v ≤ c) (fun lx v => by
      split_ifs <;> constructor <;> intro h <;> omega) (List.finRange n) (-0x1FFFFFFF)
  simp only [List.mem_finRange, true_implies] at h
  exact h

lemma initLabels_labelled {s : State n}
    (hsmall : ∀ u v, -2 ^ 28 ≤ s.weight u v ∧ s.weight u v ≤ 2 ^ 28) :
    Labelled { s.initLabels with mate := fun _ => none } := by
  have hrow : ∀ u v, s.weight u v ≤ s.initLabels.lx u := fun u =>
    ((initLabels_le_iff s u _).mp le_rfl).2
  refine
    { small := hsmall
      covers := fun u v => (hrow u v).trans (add_zero _).ge
      tight := fun v u h => absurd h (by simp)
      free := fun v _ => rfl
      left := fun u => ⟨(hsmall u u).1.trans (hrow u u), ?_⟩
      right := fun v => ⟨le_rfl, by norm_num [State.initLabels]⟩ }
  exact (initLabels_le_iff s u _).mpr ⟨by norm_num, fun v => (hsmall u v).2⟩

/-- **All left nodes are matched**, and the matching is a best assignment. -/
theorem matchAll_best {s : State n}
    (hsmall : ∀ u v, -2 ^ 28 ≤ s.weight u v ∧ s.weight u v ≤ 2 ^ 28) :
    ∃ s', matchAll s = .ok s' ∧ s'.weight = s.weight ∧
      ∃ p : Fin n ≃ Fin n, (∀ v, s'.mate v = some (p v)) ∧
        ∀ q, total s.weight q ≤ total s.weight p := by
  obtain ⟨s', hs', hlab, hweight, hholds⟩ := foldlM_finRange
    (I := fun k t => Labelled t ∧ t.weight = s.weight ∧
      ∀ x, holds t.mate (some x) = if x.val < k then 1 else 0)
    (f := fun t u => searchFrom u (n + 1) t)
    (fun u t ⟨hlab, hweight, hholds⟩ => by
      have hfew : ∑ x, holds t.mate (some x) < Fintype.card (Fin n) := by
        calc ∑ x, holds t.mate (some x) < ∑ _x : Fin n, 1 := by
              refine Finset.sum_lt_sum (fun x _ => ?_) ⟨u, Finset.mem_univ u, ?_⟩
              · rw [hholds x]
                split_ifs <;> simp
              · rw [hholds u, if_neg (lt_irrefl _)]
                exact Nat.one_pos
          _ = Fintype.card (Fin n) := by simp
      obtain ⟨t', ht', hlab', hweight', hholds'⟩ :=
        searchFrom_augments u (n + 1) hlab (exists_free hfew) (by omega)
      refine ⟨t', ht', hlab', hweight'.trans hweight, fun x => ?_⟩
      rw [hholds', hholds x]
      by_cases hx : x = u
      · subst hx
        rw [if_neg (lt_irrefl _), if_pos rfl, if_pos (Nat.lt_succ_self _)]
      · have hval : x.val ≠ u.val := fun h => hx (Fin.ext h)
        rw [if_neg hx, Nat.add_zero]
        exact if_congr (by omega) rfl rfl)
    (s := { s.initLabels with mate := fun _ => none })
    ⟨initLabels_labelled hsmall, rfl, fun x => by simp [holds, tally]⟩
  have hall : ∀ x, holds s'.mate (some x) = 1 := fun x => by rw [hholds x, if_pos x.isLt]
  obtain ⟨p, hp⟩ := exists_assignment rfl hall
  refine ⟨s', hs', hweight, p, hp, fun q => ?_⟩
  have hbest := hlab.covers.total_le_total (fun v => hlab.tight v (p v) (hp v)) q
  rwa [hweight] at hbest

/-! ### The sum -/

/-- The sum of the weights along an assignment, column by column. -/
def sumAlong (w : Fin n → Fin n → ℤ) (p : Fin n ≃ Fin n) : Except Fault ℤ :=
  (List.finRange n).foldlM (fun sum v => int (sum + w (p v) v)) 0

lemma sumMatch_eq {s : State n} {p : Fin n ≃ Fin n} (hp : ∀ v, s.mate v = some (p v)) :
    sumMatch s = sumAlong s.weight p := by
  rw [sumMatch, sumAlong]
  simp only [hp]

lemma sum_finRange (w : Fin n → Fin n → ℤ) (p : Fin n ≃ Fin n) :
    ((List.finRange n).map fun v => w (p v) v).sum = total w p := by
  rw [total, ← List.sum_ofFn, List.ofFn_eq_map]

/-- The weight of the first `k` columns of an assignment. -/
def partialSum (w : Fin n → Fin n → ℤ) (p : Fin n ≃ Fin n) (k : ℕ) : ℤ :=
  (((List.finRange n).take k).map fun v => w (p v) v).sum

lemma partialSum_all (w : Fin n → Fin n → ℤ) (p : Fin n ≃ Fin n) :
    partialSum w p n = total w p := by
  rw [partialSum, List.take_of_length_le (List.length_finRange (n := n)).le, sum_finRange]

lemma partialSum_neg (w : Fin n → Fin n → ℤ) (p : Fin n ≃ Fin n) (k : ℕ) :
    partialSum (-w) p k = -partialSum w p k := by
  rw [partialSum, partialSum, List.sum_neg, List.map_map]
  rfl

/-- The sum does not overflow if no partial sum does. -/
lemma sumAlong_eq {w : Fin n → Fin n → ℤ} {p : Fin n ≃ Fin n}
    (h : ∀ k, FitsInt (partialSum w p k)) : sumAlong w p = .ok (total w p) := by
  have hloop : ∀ (vs : List (Fin n)) (z : ℤ),
      (∀ k, FitsInt (z + ((vs.take k).map fun v => w (p v) v).sum)) →
      vs.foldlM (fun sum v => int (sum + w (p v) v)) z
        = .ok (z + (vs.map fun v => w (p v) v).sum) := by
    intro vs
    induction vs with
    | nil => exact fun z _ => by rw [List.map_nil, List.sum_nil, add_zero]; rfl
    | cons v vs ih =>
        intro z hz
        have hfirst : FitsInt (z + w (p v) v) := by simpa using hz 1
        rw [List.foldlM_cons, int_of_fits hfirst, List.map_cons, List.sum_cons, ← add_assoc]
        refine ih _ fun k => ?_
        have hk := hz (k + 1)
        rwa [List.take_succ_cons, List.map_cons, List.sum_cons, ← add_assoc] at hk
  have hall := hloop (List.finRange n) 0 fun k => by rw [zero_add]; exact h k
  rwa [zero_add, sum_finRange] at hall

/-! ### `HungaryMatch` -/

lemma negate_eq {s : State n}
    (hsmall : ∀ u v, -2 ^ 28 ≤ s.weight u v ∧ s.weight u v ≤ 2 ^ 28) :
    s.negate = .ok { s with weight := -s.weight } := by
  have hrow : ∀ u, updateEach (fun _ a => int (-a)) (List.finRange n) (s.weight u)
      = .ok fun v => -s.weight u v := fun u =>
    updateEach_finRange fun v => int_of_fits (by
      have := hsmall u v
      constructor <;> omega)
  rw [State.negate, updateEach_finRange hrow]
  rfl

/-- What a call of `HungaryMatch` leaves and returns: an assignment, the matrix as it was, and the
weight of the assignment, which every other weight is `le` to. -/
structure Solves (le : ℤ → ℤ → Prop) (s : State n) (r : ℤ × State n) (p : Fin n ≃ Fin n) :
    Prop where
  mate : ∀ v, r.2.mate v = some (p v)
  weight : r.2.weight = s.weight
  sum : r.1 = total s.weight p
  best : ∀ q, le (total s.weight q) r.1

section Solves

variable {s : State n}

/-- `HungaryMatch(true)` sums along a largest assignment. -/
lemma hungaryMatch_max (hsmall : ∀ u v, -2 ^ 28 ≤ s.weight u v ∧ s.weight u v ≤ 2 ^ 28) :
    ∃ s' p, hungaryMatch true s = (sumAlong s.weight p).map (fun sum => (sum, s')) ∧
      s'.weight = s.weight ∧ (∀ v, s'.mate v = some (p v)) ∧
      ∀ q, total s.weight q ≤ total s.weight p := by
  obtain ⟨s', hs', hweight, p, hp, hbest⟩ := matchAll_best hsmall
  refine ⟨s', p, ?_, hweight, hp, hbest⟩
  show (matchAll s >>= fun t => sumMatch t >>= fun sum => pure (sum, t)) = _
  rw [hs']
  show (sumMatch s' >>= fun sum => pure (sum, s')) = _
  rw [sumMatch_eq hp, hweight]
  cases sumAlong s.weight p <;> rfl

/-- `HungaryMatch(true)`, if no partial sum overflows. -/
lemma solves_max (hsmall : ∀ u v, -2 ^ 28 ≤ s.weight u v ∧ s.weight u v ≤ 2 ^ 28)
    (hsum : ∀ p, sumAlong s.weight p = .ok (total s.weight p)) :
    ∃ r p, hungaryMatch true s = .ok r ∧ Solves (· ≤ ·) s r p := by
  obtain ⟨s', p, hmatch, hweight, hp, hbest⟩ := hungaryMatch_max hsmall
  refine ⟨(total s.weight p, s'), p, ?_, ⟨hp, hweight, rfl, hbest⟩⟩
  rw [hmatch, hsum]
  rfl

/-- `HungaryMatch(false)`, if no partial sum along the negated weights overflows. -/
lemma solves_min (hsmall : ∀ u v, -2 ^ 28 ≤ s.weight u v ∧ s.weight u v ≤ 2 ^ 28)
    (hsum : ∀ p, ∃ sum, sumAlong (-s.weight) p = .ok sum ∧
      int (-sum) = .ok (total s.weight p)) :
    ∃ r p, hungaryMatch false s = .ok r ∧ Solves (· ≥ ·) s r p := by
  have hneg : ∀ u v, -2 ^ 28 ≤ (-s.weight) u v ∧ (-s.weight) u v ≤ 2 ^ 28 := fun u v => by
    have := hsmall u v
    simp only [Pi.neg_apply]
    omega
  obtain ⟨t, ht, hweight, p, hp, hbest⟩ :=
    matchAll_best (s := { s with weight := -s.weight }) hneg
  have hback : t.negate = .ok { t with weight := s.weight } := by
    rw [negate_eq (fun u v => hweight ▸ hneg u v), hweight]
    simp
  obtain ⟨sum, halong, hround⟩ := hsum p
  have hleast : ∀ q, total s.weight q ≥ total s.weight p := fun q => by
    have hq := hbest q
    rw [total_neg, total_neg] at hq
    omega
  refine ⟨(total s.weight p, { t with weight := s.weight }), p, ?_, ⟨hp, rfl, rfl, hleast⟩⟩
  -- what is left of the call after each of its steps
  have hend : (t.negate >>= fun t => pure (total s.weight p, t))
      = (.ok (total s.weight p, { t with weight := s.weight }) : Except Fault _) := by
    rw [hback]
    rfl
  have hsumming : (sumMatch t >>= fun sum => int (-sum) >>= fun sum =>
      t.negate >>= fun t => pure (sum, t)) = t.negate >>= fun t => pure (total s.weight p, t) := by
    rw [sumMatch_eq hp, hweight, halong]
    show (int (-sum) >>= fun sum => t.negate >>= fun t => pure (sum, t)) = _
    rw [hround]
    rfl
  calc hungaryMatch false s
      = matchAll { s with weight := -s.weight } >>= fun t => sumMatch t >>= fun sum =>
          int (-sum) >>= fun sum => t.negate >>= fun t => pure (sum, t) := by
        show (s.negate >>= _) = _
        rw [negate_eq hsmall]
        rfl
    _ = sumMatch t >>= fun sum => int (-sum) >>= fun sum =>
          t.negate >>= fun t => pure (sum, t) := by rw [ht]; rfl
    _ = .ok (total s.weight p, { t with weight := s.weight }) := hsumming.trans hend

end Solves

/-- **`HungaryMatch` solves the assignment problem** where all partial sums fit: it returns, no
operation overflows, and what it leaves is a largest assignment, or for `maxsum = false` a least
one. -/
theorem solvesAssignment {s : State n} (hsmall : ∀ u v, |s.weight u v| ≤ 2 ^ 28)
    (hsum : ∀ p k, |partialSum s.weight p k| < 2 ^ 31) :
    (∃ r p, hungaryMatch true s = .ok r ∧ Solves (· ≤ ·) s r p) ∧
      ∃ r p, hungaryMatch false s = .ok r ∧ Solves (· ≥ ·) s r p := by
  have hbounds : ∀ u v, -2 ^ 28 ≤ s.weight u v ∧ s.weight u v ≤ 2 ^ 28 := fun u v =>
    abs_le.mp (hsmall u v)
  have hfits : ∀ p k, FitsInt (partialSum s.weight p k) := fun p k => by
    obtain ⟨hlo, hhi⟩ := abs_lt.mp (hsum p k)
    exact ⟨hlo.le, hhi⟩
  have hneg : ∀ p k, FitsInt (partialSum (-s.weight) p k) := fun p k => by
    obtain ⟨hlo, hhi⟩ := abs_lt.mp (hsum p k)
    rw [partialSum_neg]
    constructor <;> omega
  refine ⟨solves_max hbounds fun p => sumAlong_eq (hfits p),
    solves_min hbounds fun p => ⟨_, sumAlong_eq (hneg p), ?_⟩⟩
  rw [total_neg, neg_neg, ← partialSum_all]
  exact int_of_fits (hfits p n)

/-- Three queries, the second of which is worth most in the slot of the first. -/
def threeQueries : State 3 where
  weight := fun u v => if u = 1 then (if v = 0 then 9 else 4) else 5 - 2 * (v : ℤ)
  lx := fun _ => 0
  ly := fun _ => 0
  sx := fun _ => false
  sy := fun _ => false
  mate := fun _ => none

theorem solvesAssignment_threeQueries :
    (∃ r p, hungaryMatch true threeQueries = .ok r ∧ Solves (· ≤ ·) threeQueries r p) ∧
      ∃ r p, hungaryMatch false threeQueries = .ok r ∧ Solves (· ≥ ·) threeQueries r p := by
  have hweight : ∀ u v, 0 ≤ threeQueries.weight u v ∧ threeQueries.weight u v ≤ 9 := by decide
  refine solvesAssignment (fun u v => ?_) fun p k => ?_
  · have := hweight u v
    rw [abs_le]
    omega
  · have h0 := hweight (p 0) 0
    have h1 := hweight (p 1) 1
    have h2 := hweight (p 2) 2
    have hcolumns : List.finRange 3 = [0, 1, 2] := rfl
    rw [partialSum, hcolumns, abs_lt]
    rcases k with _ | _ | _ | k <;> simp <;> omega

/-- The weights of nine columns are as large as they may be, those of the other eight as small. -/
def nineHeavyColumns : State 17 where
  weight := fun _ v => if v < 9 then 2 ^ 28 else -2 ^ 28
  lx := fun _ => 0
  ly := fun _ => 0
  sx := fun _ => false
  sy := fun _ => false
  mate := fun _ => none

/-- That all weights of assignments fit is not enough: every one of them is `2 ^ 28` here, and the
sum of the first eight columns is `2 ^ 31`. -/
theorem not_solves_nineHeavyColumns :
    (∀ u v, |nineHeavyColumns.weight u v| ≤ 2 ^ 28) ∧
      (∀ p, FitsInt (total nineHeavyColumns.weight p)) ∧
      hungaryMatch true nineHeavyColumns = .error .overflow := by
  have hsmall : ∀ u v, -2 ^ 28 ≤ nineHeavyColumns.weight u v ∧
      nineHeavyColumns.weight u v ≤ 2 ^ 28 := by decide
  have hcolumn : ∀ (p : Fin 17 ≃ Fin 17) v,
      nineHeavyColumns.weight (p v) v = nineHeavyColumns.weight 0 v := fun _ _ => rfl
  refine ⟨fun u v => abs_le.mpr (hsmall u v), fun p => ?_, ?_⟩
  · rw [total, Finset.sum_congr rfl fun v _ => hcolumn p v]
    decide
  · obtain ⟨s', p, hmatch, -⟩ := hungaryMatch_max hsmall
    have hoverflow : sumAlong nineHeavyColumns.weight p = .error .overflow := by
      rw [sumAlong]
      simp only [hcolumn]
      rfl
    rw [hmatch, hoverflow]
    rfl

end Hungary

end RedAnns
