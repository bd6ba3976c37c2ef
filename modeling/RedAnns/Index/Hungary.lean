import RedAnns.Lib.Assignment
import RedAnns.Lib.Loop

/-!
The matching of the training queries to slots: `dfs` and `HungaryMatch` of `include/hungary.h`.

The globals are the fields of a state, each array cut to the `n` entries in use. An `int` operation
that leaves the range of `int` is a fault.

* `dfs`, `searchFrom`, `hungaryMatch`: the program.
* `Found`, `Exhausted`: what a search leaves when it succeeds, and when it fails.
* `dfs_outcome`: the fuel is enough, and one search augments the matching or marks all that
  alternating paths reach.
-/

namespace RedAnns

namespace Hungary

open Assignment

/-! ### The program -/

/-- Why a run does not go on. -/
inductive Fault
  | overflow
  | outOfBounds
  | outOfFuel

/-- `z` is a value of type `int`. -/
def FitsInt (z : ℤ) : Prop := -2 ^ 31 ≤ z ∧ z < 2 ^ 31

instance fitsIntDecidable (z : ℤ) : Decidable (FitsInt z) := inferInstanceAs (Decidable (_ ∧ _))

/-- The result of an `int` operation. -/
def int (z : ℤ) : Except Fault ℤ := if FitsInt z then .ok z else .error .overflow

/-- The globals; `mate` is `match`, and -1 in it is `none`. -/
structure State (n : ℕ) where
  weight : Fin n → Fin n → ℤ
  lx : Fin n → ℤ
  ly : Fin n → ℤ
  sx : Fin n → Bool
  sy : Fin n → Bool
  mate : Fin n → Option (Fin n)

variable {n : ℕ}

namespace State

/-- `sx[u] = true`. -/
def visitLeft (s : State n) (u : Fin n) : State n :=
  { s with sx := Function.update s.sx u true }

/-- `sy[v] = true`. -/
def visitRight (s : State n) (v : Fin n) : State n :=
  { s with sy := Function.update s.sy v true }

lemma visitLeft_sx_iff {s : State n} {u x : Fin n} :
    (s.visitLeft u).sx x = true ↔ x = u ∨ s.sx x = true := by
  show Function.update s.sx u true x = true ↔ _
  rw [Function.update_apply]
  split_ifs with h <;> simp [h]

lemma visitRight_sy_iff {s : State n} {v w : Fin n} :
    (s.visitRight v).sy w = true ↔ w = v ∨ s.sy w = true := by
  show Function.update s.sy v true w = true ↔ _
  rw [Function.update_apply]
  split_ifs with h <;> simp [h]

/-- `match[v] = u`. -/
def setMate (s : State n) (v u : Fin n) : State n :=
  { s with mate := Function.update s.mate v (some u) }

/-- `memset` of `sx` and `sy`. -/
def clear (s : State n) : State n := { s with sx := fun _ => false, sy := fun _ => false }

/-- The loops that negate the matrix. -/
def negate (s : State n) : Except Fault (State n) := do
  let weight ← updateEach (fun _ row => updateEach (fun _ a => int (-a)) (List.finRange n) row)
    (List.finRange n) s.weight
  return { s with weight }

/-- The loop that sets the labels, `lx[i]` to the largest weight of its row. -/
def initLabels (s : State n) : State n :=
  { s with
    lx := fun i => (List.finRange n).foldl
      (fun lx j => if lx < s.weight i j then s.weight i j else lx) (-0x1FFFFFFF)
    ly := fun _ => 0 }

end State

/-- The loop of `dfs(u)` over the right nodes that are left; `next` is the recursive call. -/
def dfsLoop (next : Fin n → State n → Except Fault (Bool × State n)) (u : Fin n) :
    List (Fin n) → State n → Except Fault (Bool × State n)
  | [], s => return (false, s)
  | v :: vs, s =>
      if s.sy v then dfsLoop next u vs s
      else do
        let label ← int (s.lx u + s.ly v)
        if label = s.weight u v then
          match s.mate v with
          | none => return (true, (s.visitRight v).setMate v u)
          | some u' =>
              let (isFind, s) ← next u' (s.visitRight v)
              if isFind then return (true, s.setMate v u) else dfsLoop next u vs s
        else dfsLoop next u vs s

/-- `dfs`, at most as deep as the fuel. -/
def dfs : ℕ → Fin n → State n → Except Fault (Bool × State n)
  | 0, _, _ => throw .outOfFuel
  | fuel + 1, u, s => dfsLoop (dfs fuel) u (List.finRange n) (s.visitLeft u)

/-- The loops for `dx`. -/
def leastSlack (s : State n) : Except Fault ℤ :=
  (List.finRange n).foldlM (fun dx i =>
    if s.sx i then
      (List.finRange n).foldlM (fun dx j =>
        if s.sy j then return dx
        else do
          let label ← int (s.lx i + s.ly j)
          let slack ← int (label - s.weight i j)
          return min slack dx) dx
    else return dx) 0x7FFFFFFF

/-- The loop that changes the labels of the visited nodes by `dx`. -/
def relabel (dx : ℤ) (s : State n) : Except Fault (State n) := do
  let labels ← updateEach (fun i (label : ℤ × ℤ) => do
      let lx ← if s.sx i then int (label.1 - dx) else pure label.1
      let ly ← if s.sy i then int (label.2 + dx) else pure label.2
      return (lx, ly)) (List.finRange n) fun i => (s.lx i, s.ly i)
  return { s with lx := fun i => (labels i).1, ly := fun i => (labels i).2 }

/-- The loop `while (true)` for the left node `u`. -/
def searchFrom (u : Fin n) : ℕ → State n → Except Fault (State n)
  | 0, _ => throw .outOfFuel
  | fuel + 1, s => do
      let (isFind, s) ← dfs (n + 1) u s.clear
      if isFind then return s
      else
        let dx ← leastSlack s
        let s ← relabel dx s
        searchFrom u fuel s

/-- The loop for `sum`. -/
def sumMatch (s : State n) : Except Fault ℤ :=
  (List.finRange n).foldlM (fun sum i =>
    match s.mate i with
    | none => throw .outOfBounds
    | some u => int (sum + s.weight u i)) 0

/-- The part of `HungaryMatch` that matches the left nodes one by one. -/
def matchAll (s : State n) : Except Fault (State n) :=
  (List.finRange n).foldlM (fun s u => searchFrom u (n + 1) s)
    { s.initLabels with mate := fun _ => none }

/-- `HungaryMatch`. -/
def hungaryMatch (maxsum : Bool) (s : State n) : Except Fault (ℤ × State n) := do
  let s ← if maxsum then pure s else s.negate
  let s ← matchAll s
  let sum ← sumMatch s
  if maxsum then return (sum, s)
  else
    let sum ← int (-sum)
    let s ← s.negate
    return (sum, s)

/-! ### One search -/

/-- The tight pairs. -/
def State.Edge (s : State n) : Fin n → Fin n → Prop := Tight s.weight s.lx s.ly

/-- The sums of labels that `dfs` compares are values of type `int`. -/
def State.FitLabels (s : State n) : Prop := ∀ u v, FitsInt (s.lx u + s.ly v)

lemma int_of_fits {z : ℤ} (h : FitsInt z) : int z = .ok z := if_pos h

/-- Weights and labels are the same. -/
structure SameLabels (s s' : State n) : Prop where
  weight : s'.weight = s.weight
  lx : s'.lx = s.lx
  ly : s'.ly = s.ly

namespace SameLabels

variable {s s' t : State n}

lemma trans (h : SameLabels s s') (h' : SameLabels s' t) : SameLabels s t :=
  ⟨h'.weight.trans h.weight, h'.lx.trans h.lx, h'.ly.trans h.ly⟩

lemma edge (h : SameLabels s s') : s'.Edge = s.Edge := by
  rw [State.Edge, State.Edge, h.weight, h.lx, h.ly]

lemma fitLabels (h : SameLabels s s') (hs : s.FitLabels) : s'.FitLabels := by
  rw [State.FitLabels, h.lx, h.ly]
  exact hs

end SameLabels

/-- **A search that succeeded** below `u`: the matching holds `u` too, and nodes that were visited
before keep their mates. -/
structure Found (u : Fin n) (s s' : State n) : Prop where
  same : SameLabels s s'
  visited : ∀ v, s.sy v = true → s'.mate v = s.mate v
  augments : Augments s.Edge s.mate s'.mate u

/-- **A search that failed** below `u`, where it has tried the right nodes `vs`: what it marked is
reached from `u`, and every left node that it marked has been searched. -/
structure Exhausted (u : Fin n) (vs : List (Fin n)) (s s' : State n) : Prop where
  same : SameLabels s s'
  mate : s'.mate = s.mate
  leftGrows : ∀ x, s.sx x = true → s'.sx x = true
  rightGrows : ∀ v, s.sy v = true → s'.sy v = true
  tried : ∀ v ∈ vs, s.Edge u v → s'.sy v = true
  left : ∀ x, s'.sx x = true → s.sx x = true ∨
    Reach s.Edge s.mate u x ∧ ∀ v, s.Edge x v → s'.sy v = true
  right : ∀ v, s'.sy v = true → s.sy v = true ∨
    Frontier s.Edge s.mate u v ∧ ∃ y, s.mate v = some y ∧ s'.sx y = true

/-- What a search ends with. -/
inductive Outcome (u : Fin n) (vs : List (Fin n)) (s : State n) : Bool × State n → Prop
  | found {s' : State n} : Found u s s' → Outcome u vs s (true, s')
  | exhausted {s' : State n} : Exhausted u vs s s' → Outcome u vs s (false, s')

section Search

variable {u u' v : Fin n} {vs : List (Fin n)} {s s₁ s' : State n}

lemma Exhausted.nil (u : Fin n) (s : State n) : Exhausted u [] s s where
  same := ⟨rfl, rfl, rfl⟩
  mate := rfl
  leftGrows := fun _ h => h
  rightGrows := fun _ h => h
  tried := fun _ h => absurd h List.not_mem_nil
  left := fun _ h => Or.inl h
  right := fun _ h => Or.inl h

/-- A right node that is marked in the end, or not next to `u`. -/
lemma Exhausted.skip (h : Exhausted u vs s s') (hv : s.Edge u v → s'.sy v = true) :
    Exhausted u (v :: vs) s s' :=
  { h with
    tried := fun w hw he => by
      rcases List.mem_cons.mp hw with rfl | hw
      · exact hv he
      · exact h.tried w hw he }

/-- A right node whose mate has been searched. -/
lemma Exhausted.descend (he : s.Edge u v) (hm : s.mate v = some u')
    (h : Exhausted u' (List.finRange n) ((s.visitRight v).visitLeft u') s₁)
    (h' : Exhausted u vs s₁ s') : Exhausted u (v :: vs) s s' := by
  have hedge : s₁.Edge = s.Edge := h.same.edge
  have hmate : s₁.mate = s.mate := h.mate
  have hleft : ∀ x, x = u' ∨ s.sx x = true → s₁.sx x = true :=
    fun x hx => h.leftGrows x (State.visitLeft_sx_iff.mpr hx)
  have hright : ∀ w, w = v ∨ s.sy w = true → s₁.sy w = true :=
    fun w hw => h.rightGrows w (State.visitRight_sy_iff.mpr hw)
  refine
    { same := SameLabels.trans ⟨h.same.weight, h.same.lx, h.same.ly⟩ h'.same
      mate := h'.mate.trans hmate
      leftGrows := fun x hx => h'.leftGrows x (hleft x (Or.inr hx))
      rightGrows := fun w hw => h'.rightGrows w (hright w (Or.inr hw))
      tried := ?_
      left := ?_
      right := ?_ }
  · intro w hw hew
    rcases List.mem_cons.mp hw with rfl | hw
    · exact h'.rightGrows w (hright w (Or.inl rfl))
    · exact h'.tried w hw (hedge ▸ hew)
  · intro x hx
    rcases h'.left x hx with hx₁ | ⟨hreach, hdone⟩
    · rcases h.left x hx₁ with hx₀ | ⟨hreach, hdone⟩
      · rcases State.visitLeft_sx_iff.mp hx₀ with rfl | hx₀
        · refine Or.inr ⟨.step .root he hm, fun w hew => h'.rightGrows w ?_⟩
          exact h.tried w (List.mem_finRange w) hew
        · exact Or.inl hx₀
      · exact Or.inr ⟨.of_step he hm hreach, fun w hew => h'.rightGrows w (hdone w hew)⟩
    · rw [hedge, hmate] at hreach
      exact Or.inr ⟨hreach, fun w hew => hdone w (hedge ▸ hew)⟩
  · intro w hw
    rcases h'.right w hw with hw₁ | ⟨hfront, y, hy, hsx⟩
    · rcases h.right w hw₁ with hw₀ | ⟨hfront, y, hy, hsx⟩
      · rcases State.visitRight_sy_iff.mp hw₀ with rfl | hw₀
        · have hu' : s'.sx u' = true := h'.leftGrows u' (hleft u' (Or.inl rfl))
          exact Or.inr ⟨⟨u, .root, he⟩, u', hm, hu'⟩
        · exact Or.inl hw₀
      · exact Or.inr ⟨.of_step he hm hfront, y, hy, h'.leftGrows y hsx⟩
    · rw [hedge, hmate] at hfront
      exact Or.inr ⟨hfront, y, hmate ▸ hy, hsx⟩

/-- A free right node takes `u`. -/
lemma Found.of_free (hsy : s.sy v = false) (he : s.Edge u v) (hm : s.mate v = none) :
    Found u s ((s.visitRight v).setMate v u) where
  same := ⟨rfl, rfl, rfl⟩
  visited := fun w hw => by
    have hwv : w ≠ v := fun h => absurd hw (by simp [h, hsy])
    exact Function.update_of_ne hwv ..
  augments := augments_of_free hm he

/-- A right node takes `u` once its mate has found another. -/
lemma Found.of_next (hsy : s.sy v = false) (he : s.Edge u v) (hm : s.mate v = some u')
    (h : Found u' ((s.visitRight v).visitLeft u') s₁) : Found u s (s₁.setMate v u) where
  same := ⟨h.same.weight, h.same.lx, h.same.ly⟩
  visited := fun w hw => by
    have hwv : w ≠ v := fun h => absurd hw (by simp [h, hsy])
    have hmark : (s.visitRight v).sy w = true := State.visitRight_sy_iff.mpr (Or.inr hw)
    calc (s₁.setMate v u).mate w = s₁.mate w := Function.update_of_ne hwv ..
      _ = s.mate w := h.visited w hmark
  augments := by
    have hmark : (s.visitRight v).sy v = true := State.visitRight_sy_iff.mpr (Or.inl rfl)
    exact h.augments.shift ((h.visited v hmark).trans hm) he

/-- A search that succeeds after another has failed. -/
lemma Found.of_exhausted
    (h : Exhausted u' (List.finRange n) ((s.visitRight v).visitLeft u') s₁) (h' : Found u s₁ s') :
    Found u s s' where
  same := SameLabels.trans ⟨h.same.weight, h.same.lx, h.same.ly⟩ h'.same
  visited := fun w hw => by
    have hmark : (s.visitRight v).sy w = true := State.visitRight_sy_iff.mpr (Or.inr hw)
    rw [h'.visited w (h.rightGrows w hmark), h.mate]
    rfl
  augments := by
    have hedge : s₁.Edge = s.Edge := h.same.edge
    have hmate : s₁.mate = s.mate := h.mate
    have haug := h'.augments
    rwa [hedge, hmate] at haug

/-- The right nodes that are not marked. -/
def unvisited (s : State n) : ℕ := tally (fun _ b => if b then 0 else 1) s.sy

lemma unvisited_visitRight (hsy : s.sy v = false) : unvisited (s.visitRight v) < unvisited s := by
  have h := tally_update (fun _ b => if b then 0 else 1) s.sy v true
  rw [hsy] at h
  simp only [Bool.false_eq_true, if_false, if_true] at h
  show tally _ (Function.update s.sy v true) < tally _ s.sy
  omega

lemma unvisited_le (h : ∀ v, s.sy v = true → s'.sy v = true) : unvisited s' ≤ unvisited s := by
  rw [unvisited, unvisited, tally, tally]
  refine Finset.sum_le_sum fun v _ => ?_
  cases hv : s.sy v with
  | true => rw [h v hv]
  | false => cases s'.sy v <;> simp

lemma unvisited_lt (s : State n) : unvisited s < n + 1 := by
  have h : unvisited s ≤ ∑ _v : Fin n, 1 := by
    rw [unvisited, tally]
    exact Finset.sum_le_sum fun v _ => by cases s.sy v <;> simp
  rw [Finset.sum_const, smul_eq_mul, mul_one, Finset.card_univ, Fintype.card_fin] at h
  omega

/-! #### The loop over the right nodes -/

variable {next : Fin n → State n → Except Fault (Bool × State n)}

lemma dfsLoop_of_visited (hsy : s.sy v = true) :
    dfsLoop next u (v :: vs) s = dfsLoop next u vs s := by
  rw [dfsLoop, if_pos hsy]

variable (hfit : s.FitLabels) (hsy : s.sy v = false)
include hfit hsy

lemma dfsLoop_of_slack (he : ¬ s.Edge u v) : dfsLoop next u (v :: vs) s = dfsLoop next u vs s := by
  rw [dfsLoop, if_neg (by simp [hsy]), int_of_fits (hfit u v)]
  exact if_neg he

lemma dfsLoop_of_free (he : s.Edge u v) (hm : s.mate v = none) :
    dfsLoop next u (v :: vs) s = .ok (true, (s.visitRight v).setMate v u) := by
  rw [dfsLoop, if_neg (by simp [hsy]), int_of_fits (hfit u v), hm]
  exact if_pos he

lemma dfsLoop_of_held (he : s.Edge u v) (hm : s.mate v = some u') {isFind : Bool}
    (h : next u' (s.visitRight v) = .ok (isFind, s₁)) :
    dfsLoop next u (v :: vs) s
      = if isFind then .ok (true, s₁.setMate v u) else dfsLoop next u vs s₁ := by
  rw [dfsLoop, if_neg (by simp [hsy]), int_of_fits (hfit u v), hm]
  refine (if_pos he).trans ?_
  show (next u' (s.visitRight v) >>= _) = _
  rw [h]
  rfl

end Search

/-- **The loop over the right nodes**, for a recursive call that is right as long as fewer than `k`
right nodes are not marked. -/
lemma dfsLoop_outcome {next : Fin n → State n → Except Fault (Bool × State n)} {k : ℕ}
    (hnext : ∀ u s, s.FitLabels → unvisited s < k →
      ∃ r, next u s = .ok r ∧ Outcome u (List.finRange n) (s.visitLeft u) r)
    (u : Fin n) (vs : List (Fin n)) {s : State n} (hfit : s.FitLabels) (hk : unvisited s ≤ k) :
    ∃ r, dfsLoop next u vs s = .ok r ∧ Outcome u vs s r := by
  induction vs generalizing s with
  | nil => exact ⟨(false, s), rfl, .exhausted (.nil u s)⟩
  | cons v vs ih =>
      have hrest : ∀ {s : State n}, s.FitLabels → unvisited s ≤ k →
          (s.Edge u v → s.sy v = true) →
          ∃ r, dfsLoop next u vs s = .ok r ∧ Outcome u (v :: vs) s r := by
        intro s hfit hk hv
        obtain ⟨r, hr, hout⟩ := ih hfit hk
        refine ⟨r, hr, ?_⟩
        cases hout with
        | found h => exact .found h
        | exhausted h => exact .exhausted (h.skip fun he => h.rightGrows v (hv he))
      cases hsy : s.sy v with
      | true =>
          rw [dfsLoop_of_visited hsy]
          exact hrest hfit hk fun _ => hsy
      | false =>
          by_cases he : s.Edge u v
          · cases hm : s.mate v with
            | none => exact ⟨_, dfsLoop_of_free hfit hsy he hm, .found (.of_free hsy he hm)⟩
            | some u' =>
                have hlt : unvisited (s.visitRight v) < k := (unvisited_visitRight hsy).trans_le hk
                obtain ⟨r, hr, hout⟩ := hnext u' (s.visitRight v) hfit hlt
                cases hout with
                | found h =>
                    exact ⟨_, dfsLoop_of_held hfit hsy he hm hr, .found (.of_next hsy he hm h)⟩
                | @exhausted s₁ h =>
                    -- the failed search has left the labels and the matching as they were
                    have hle : unvisited s₁ ≤ k := (unvisited_le h.rightGrows).trans hlt.le
                    obtain ⟨r', hr', hout'⟩ := ih (h.same.fitLabels hfit) hle
                    refine ⟨r', (dfsLoop_of_held hfit hsy he hm hr).trans hr', ?_⟩
                    cases hout' with
                    | found h' => exact .found (.of_exhausted h h')
                    | exhausted h' => exact .exhausted (.descend he hm h h')
          · rw [dfsLoop_of_slack hfit hsy he]
            exact hrest hfit hk fun h => absurd h he

/-- **One search**: every call of `dfs` marks a right node first, so the fuel bounds its depth. -/
theorem dfs_outcome (fuel : ℕ) (u : Fin n) (s : State n) (hfit : s.FitLabels)
    (hfuel : unvisited s < fuel) :
    ∃ r, dfs fuel u s = .ok r ∧ Outcome u (List.finRange n) (s.visitLeft u) r := by
  induction fuel generalizing u s with
  | zero => exact absurd hfuel (Nat.not_lt_zero _)
  | succ fuel ih => exact dfsLoop_outcome ih u _ hfit (Nat.le_of_lt_succ hfuel)

/-- What a search that failed from cleared marks has explored. -/
lemma Exhausted.explored {u : Fin n} {s s' : State n}
    (h : Exhausted u (List.finRange n) (s.clear.visitLeft u) s') :
    Explored s'.Edge s'.mate u s'.sx s'.sy := by
  have hedge : s'.Edge = s.Edge := h.same.edge
  have hmate : s'.mate = s.mate := h.mate
  have hstart : ∀ x, (s.clear.visitLeft u).sx x = true → x = u := fun x hx =>
    (State.visitLeft_sx_iff.mp hx).resolve_right (by simp [State.clear])
  have hright : ∀ v, s'.sy v = true →
      Frontier s.Edge s.mate u v ∧ ∃ y, s.mate v = some y ∧ s'.sx y = true :=
    fun v hv => (h.right v hv).resolve_left (by simp [State.visitLeft, State.clear])
  rw [hedge, hmate]
  refine
    { root := h.leftGrows u (State.visitLeft_sx_iff.mpr (Or.inl rfl))
      reach := fun x hx => ?_
      met := fun v hv => (hright v hv).1
      closed := fun x v hx he => ?_
      back := fun v hv => (hright v hv).2 }
  · rcases h.left x hx with hx | ⟨hreach, -⟩
    · exact hstart x hx ▸ .root
    · exact hreach
  · rcases h.left x hx with hx | ⟨-, hdone⟩
    · exact h.tried v (List.mem_finRange v) (hstart x hx ▸ he)
    · exact hdone v he

end Hungary

end RedAnns
