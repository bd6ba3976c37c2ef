import Mathlib.Data.List.FinRange
import Mathlib.Logic.Function.Iterate
import Mathlib.Tactic

/-!
While loops cut off by a fuel, and loops over a list.

* `whileLoop cond body n s`: at most `n` rounds of `body`, as long as `cond` holds.
* `whileLoop_invariant`, `whileLoop_exits`: what a body preserves holds at the exit, and a
  measure that every round lowers bounds the fuel the loop needs.
* `whileLoop_eq_of_exit`: once the loop has left, more fuel changes nothing, so a bound on
  the fuel is a proof that the loop terminates.
* `whileLoop_refines`: a loop whose rounds follow the steps of a machine that stands still
  once the condition fails ends where as many steps of the machine end.
* `whileLoopM`: the same loop for a body that may fail, with the rules `whileLoopM_total`
  (an invariant under which the body never fails), `whileLoopM_exits`, `whileLoopM_rel`
  (what every round relates to its start) and `whileLoopM_simulates` (two loops in lockstep);
  `whileLoopM_eq` is the case of a body that never fails.
* `foldlM_range`, `of_foldlM_range`: the invariant rules of a counting loop, when no round fails and
  when the loop has not failed; `foldlM_finRange` is the first one over an index type.
* `foldl_iff`: what a loop for a minimum computes; `updateEach`: the loop that changes every entry
  of an array.
-/

namespace RedAnns

variable {σ τ : Type*}

/-- The loop `while (cond) body`, cut off after `n` rounds. -/
def whileLoop (cond : σ → Bool) (body : σ → σ) : ℕ → σ → σ
  | 0, s => s
  | n + 1, s => if cond s then whileLoop cond body n (body s) else s

section Rules

variable {cond : σ → Bool} {body : σ → σ}

lemma whileLoop_of_false {s : σ} (h : cond s = false) (n : ℕ) :
    whileLoop cond body n s = s := by
  cases n with
  | zero => rfl
  | succ n => rw [whileLoop, h]; rfl

lemma whileLoop_of_true {s : σ} (h : cond s = true) (n : ℕ) :
    whileLoop cond body (n + 1) s = whileLoop cond body n (body s) := by
  rw [whileLoop, h, if_pos rfl]

/-- The invariant rule: what every round preserves holds at the end. -/
lemma whileLoop_invariant {I : σ → Prop} (hI : ∀ s, I s → cond s = true → I (body s))
    {s : σ} (h : I s) (n : ℕ) : I (whileLoop cond body n s) := by
  induction n generalizing s with
  | zero => exact h
  | succ n ih =>
      cases hc : cond s with
      | false => rwa [whileLoop_of_false hc]
      | true => rw [whileLoop_of_true hc]; exact ih (hI s h hc)

/-- The measure rule: a measure that every round lowers bounds the rounds needed. -/
lemma whileLoop_exits {I : σ → Prop} (μ : σ → ℕ)
    (hI : ∀ s, I s → cond s = true → I (body s) ∧ μ (body s) < μ s)
    {s : σ} (h : I s) {n : ℕ} (hn : μ s ≤ n) : cond (whileLoop cond body n s) = false := by
  induction n generalizing s with
  | zero =>
      cases hc : cond s with
      | false => rwa [whileLoop_of_false hc]
      | true => have := (hI s h hc).2; omega
  | succ n ih =>
      cases hc : cond s with
      | false => rwa [whileLoop_of_false hc]
      | true =>
          rw [whileLoop_of_true hc]
          obtain ⟨h1, h2⟩ := hI s h hc
          exact ih h1 (by omega)

lemma whileLoop_add (m n : ℕ) (s : σ) :
    whileLoop cond body (m + n) s = whileLoop cond body n (whileLoop cond body m s) := by
  induction m generalizing s with
  | zero => simp [whileLoop]
  | succ m ih =>
      cases hc : cond s with
      | false => simp only [whileLoop_of_false hc]
      | true => rw [Nat.succ_add, whileLoop_of_true hc, whileLoop_of_true hc, ih]

/-- Once the loop has left, more fuel changes nothing. -/
lemma whileLoop_eq_of_exit {m n : ℕ} {s : σ} (h : cond (whileLoop cond body m s) = false)
    (hmn : m ≤ n) : whileLoop cond body n s = whileLoop cond body m s := by
  obtain ⟨k, rfl⟩ := Nat.exists_eq_add_of_le hmn
  rw [whileLoop_add, whileLoop_of_false h]

/-- The refinement rule: a loop that follows the steps of a machine, where the machine
stands still once the loop has left, ends related to that many steps. -/
lemma whileLoop_refines {R : σ → τ → Prop} {step : τ → τ}
    (hstep : ∀ s t, R s t → cond s = true → R (body s) (step t))
    (hstop : ∀ s t, R s t → cond s = false → step t = t)
    {s : σ} {t : τ} (h : R s t) (n : ℕ) : R (whileLoop cond body n s) (step^[n] t) := by
  induction n generalizing s t with
  | zero => exact h
  | succ n ih =>
      cases hc : cond s with
      | false =>
          rw [whileLoop_of_false hc, Function.iterate_fixed (hstop s t h hc)]
          exact h
      | true =>
          rw [whileLoop_of_true hc, Function.iterate_succ_apply]
          exact ih (hstep s t h hc)

end Rules

/-! ### Bodies that may fail -/

variable {ε : Type*}

/-- A step that does not fail. -/
lemma ok_bind.{u} {α β : Type u} (a : α) (f : α → Except ε β) : (Except.ok a >>= f) = f a := rfl

lemma ok_of_mapError {ε' α : Type*} {x : Except ε α} {g : ε → ε'} {a : α}
    (h : x.mapError g = .ok a) : x = .ok a := by
  cases x with
  | error e => exact absurd h (by rintro ⟨⟩)
  | ok b => rw [Except.ok.inj h]

/-- A sequence that returns has returned in both parts. -/
lemma bind_eq_ok.{u} {α β : Type u} {x : Except ε α} {f : α → Except ε β} {b : β} :
    (x >>= f) = .ok b ↔ ∃ a, x = .ok a ∧ f a = .ok b := by
  cases x with
  | error e => exact ⟨fun h => absurd h (by rintro ⟨⟩), fun ⟨a, ha, _⟩ => absurd ha (by rintro ⟨⟩)⟩
  | ok a => exact ⟨fun h => ⟨a, rfl, h⟩, fun ⟨_, ha, h⟩ => by cases ha; exact h⟩

/-- The loop `while (cond) body` for a body that may fail, cut off after `n` rounds. -/
def whileLoopM (cond : σ → Bool) (body : σ → Except ε σ) : ℕ → σ → Except ε σ
  | 0, s => .ok s
  | n + 1, s => if cond s then body s >>= whileLoopM cond body n else .ok s

section RulesM

variable {cond : σ → Bool} {body : σ → Except ε σ}

lemma whileLoopM_of_false {s : σ} (h : cond s = false) (n : ℕ) :
    whileLoopM cond body n s = .ok s := by
  cases n with
  | zero => rfl
  | succ n => rw [whileLoopM, h]; rfl

lemma whileLoopM_of_ok {s s' : σ} (h : cond s = true) (hs : body s = .ok s') (n : ℕ) :
    whileLoopM cond body (n + 1) s = whileLoopM cond body n s' := by
  rw [whileLoopM, h, if_pos rfl, hs]
  rfl

lemma whileLoopM_of_error {s : σ} {e : ε} (h : cond s = true) (hs : body s = .error e) (n : ℕ) :
    whileLoopM cond body (n + 1) s = .error e := by
  rw [whileLoopM, h, if_pos rfl, hs]
  rfl

lemma whileLoopM_add (m n : ℕ) (s : σ) :
    whileLoopM cond body (m + n) s = whileLoopM cond body m s >>= whileLoopM cond body n := by
  induction m generalizing s with
  | zero => rw [Nat.zero_add]; rfl
  | succ m ih =>
      cases hc : cond s with
      | false =>
          rw [whileLoopM_of_false hc, whileLoopM_of_false hc]
          exact (whileLoopM_of_false hc n).symm
      | true =>
          rw [Nat.succ_add, whileLoopM, whileLoopM, hc, if_pos rfl, if_pos rfl]
          cases body s with
          | error e => rfl
          | ok s' => exact ih s'

/-- The invariant rule: under an invariant that keeps the body from failing, the loop never
fails, and the invariant holds wherever it is cut off. -/
lemma whileLoopM_total {I : σ → Prop}
    (hI : ∀ s, I s → cond s = true → ∃ s', body s = .ok s' ∧ I s') {s : σ} (h : I s) (n : ℕ) :
    ∃ s', whileLoopM cond body n s = .ok s' ∧ I s' := by
  induction n generalizing s with
  | zero => exact ⟨s, rfl, h⟩
  | succ n ih =>
      cases hc : cond s with
      | false => exact ⟨s, whileLoopM_of_false hc _, h⟩
      | true =>
          obtain ⟨s', hs, hI'⟩ := hI s h hc
          rw [whileLoopM_of_ok hc hs]
          exact ih hI'

/-- A loop whose body never fails. -/
lemma whileLoopM_eq {body' : σ → σ} (h : ∀ s, cond s = true → body s = .ok (body' s))
    (n : ℕ) (s : σ) :
    whileLoopM cond body n s = .ok (whileLoop cond body' n s) := by
  induction n generalizing s with
  | zero => rfl
  | succ n ih =>
      cases hc : cond s with
      | false => rw [whileLoopM_of_false hc, whileLoop_of_false hc]
      | true => rw [whileLoopM_of_ok hc (h s hc), whileLoop_of_true hc, ih]

/-- The measure rule: a measure that every round lowers bounds the rounds needed. -/
lemma whileLoopM_exits {I : σ → Prop} (μ : σ → ℕ)
    (hI : ∀ s, I s → cond s = true → ∃ s', body s = .ok s' ∧ I s' ∧ μ s' < μ s)
    {s s' : σ} (h : I s) {n : ℕ} (hn : μ s ≤ n) (hs : whileLoopM cond body n s = .ok s') :
    cond s' = false := by
  induction n generalizing s with
  | zero =>
      rw [← Except.ok.inj hs]
      cases hc : cond s with
      | false => rfl
      | true =>
          obtain ⟨t, -, -, hlt⟩ := hI s h hc
          omega
  | succ n ih =>
      cases hc : cond s with
      | false =>
          rw [whileLoopM_of_false hc] at hs
          rwa [← Except.ok.inj hs]
      | true =>
          obtain ⟨t, ht, hIt, hlt⟩ := hI s h hc
          rw [whileLoopM_of_ok hc ht] at hs
          exact ih hIt (by omega) hs

/-- The relation rule: what relates the result of every round to its start relates the end
of the loop to its start. -/
lemma whileLoopM_rel {I : σ → Prop} {R : σ → σ → Prop} (hrefl : ∀ s, R s s)
    (htrans : ∀ s t u, R s t → R t u → R s u)
    (hI : ∀ s, I s → cond s = true → ∃ s', body s = .ok s' ∧ I s' ∧ R s s')
    {s s' : σ} (h : I s) {n : ℕ} (hs : whileLoopM cond body n s = .ok s') : R s s' := by
  induction n generalizing s with
  | zero => rw [← Except.ok.inj hs]; exact hrefl s
  | succ n ih =>
      cases hc : cond s with
      | false =>
          rw [whileLoopM_of_false hc] at hs
          rw [← Except.ok.inj hs]
          exact hrefl s
      | true =>
          obtain ⟨t, ht, hIt, hR⟩ := hI s h hc
          rw [whileLoopM_of_ok hc ht] at hs
          exact htrans s t s' hR (ih hIt hs)

/-- The simulation rule: two loops whose rounds keep their states related run in lockstep. -/
lemma whileLoopM_simulates {ε' : Type*} {cond' : τ → Bool} {body' : τ → Except ε' τ}
    {R : σ → τ → Prop} (hcond : ∀ s t, R s t → cond' t = cond s)
    (hstep : ∀ s t, R s t → cond s = true →
      ∃ s' t', body s = .ok s' ∧ body' t = .ok t' ∧ R s' t')
    {s : σ} {t : τ} (h : R s t) (n : ℕ) :
    ∃ s' t', whileLoopM cond body n s = .ok s' ∧ whileLoopM cond' body' n t = .ok t' ∧
      R s' t' := by
  induction n generalizing s t with
  | zero => exact ⟨s, t, rfl, rfl, h⟩
  | succ n ih =>
      cases hc : cond s with
      | false =>
          exact ⟨s, t, whileLoopM_of_false hc _, whileLoopM_of_false ((hcond s t h).trans hc) _, h⟩
      | true =>
          obtain ⟨s', t', hs, ht, hR⟩ := hstep s t h hc
          rw [whileLoopM_of_ok hc hs, whileLoopM_of_ok ((hcond s t h).trans hc) ht]
          exact ih hR

end RulesM

/-! ### Loops over a list -/

section Lists

variable {ι α : Type*}

/-- A loop none of whose rounds fails. -/
lemma foldlM_eq_foldl {f : σ → ι → Except ε σ} {g : σ → ι → σ} (h : ∀ s i, f s i = .ok (g s i))
    (is : List ι) (s : σ) : is.foldlM f s = .ok (is.foldl g s) := by
  induction is generalizing s with
  | nil => rfl
  | cons i is ih =>
      rw [List.foldlM_cons, h s i, List.foldl_cons]
      exact ih (g s i)

/-- A loop over two variables that do not depend on each other. -/
lemma foldl_pair (f : σ → ι → σ) (g : τ → ι → τ) (is : List ι) (s : σ) (t : τ) :
    is.foldl (fun st i => (f st.1 i, g st.2 i)) (s, t) = (is.foldl f s, is.foldl g t) := by
  induction is generalizing s t with
  | nil => rfl
  | cons i is ih => rw [List.foldl_cons, ih, List.foldl_cons, List.foldl_cons]

/-- A loop none of whose rounds fails under an invariant. -/
lemma foldlM_eq_foldl_of_inv {P : σ → Prop} {f : σ → ι → Except ε σ} {g : σ → ι → σ} {is : List ι}
    (h : ∀ i ∈ is, ∀ s, P s → f s i = .ok (g s i) ∧ P (g s i)) {s : σ} (hs : P s) :
    is.foldlM f s = .ok (is.foldl g s) := by
  induction is generalizing s with
  | nil => rfl
  | cons i is ih =>
      obtain ⟨hf, hP⟩ := h i (List.mem_cons_self ..) s hs
      rw [List.foldlM_cons, hf, List.foldl_cons]
      exact ih (fun j hj => h j (List.mem_cons_of_mem i hj)) hP

/-- A loop that did not fail has come through every round. -/
lemma exists_of_foldlM {f : σ → ι → Except ε σ} {is : List ι} {s r : σ} (h : is.foldlM f s = .ok r)
    {i : ι} (hi : i ∈ is) : ∃ t t', f t i = .ok t' := by
  induction is generalizing s with
  | nil => exact absurd hi List.not_mem_nil
  | cons j is ih =>
      rw [List.foldlM_cons] at h
      obtain ⟨t, hj, h⟩ := bind_eq_ok.mp h
      rcases List.mem_cons.mp hi with rfl | hi
      · exact ⟨s, t, hj⟩
      · exact ih h hi

/-- If every round does to a part of the state what `g` does, then so does a loop that did not
fail. -/
lemma foldlM_part {f : σ → ι → Except ε σ} (part : σ → τ) (g : τ → ι → τ)
    (h : ∀ s s' i, f s i = .ok s' → part s' = g (part s) i) {is : List ι} {s r : σ}
    (hr : is.foldlM f s = .ok r) : part r = is.foldl g (part s) := by
  induction is generalizing s with
  | nil => exact congrArg part (Except.ok.inj hr).symm
  | cons i is ih =>
      rw [List.foldlM_cons] at hr
      obtain ⟨t, hround, hr⟩ := bind_eq_ok.mp hr
      rw [ih hr, h s t i hround, List.foldl_cons]

/-- The invariant rule for the loop `for (i = 0; i < n; i++)`, in any monad. -/
lemma foldlM_range.{u, v} {m : Type u → Type v} [Monad m] [LawfulMonad m] {σ : Type u} {n : ℕ}
    {f : σ → ℕ → m σ} {I : ℕ → σ → Prop}
    (h : ∀ k < n, ∀ s, I k s → ∃ s', f s k = pure s' ∧ I (k + 1) s') {s : σ} (hs : I 0 s) :
    ∃ s', (List.range n).foldlM f s = pure s' ∧ I n s' := by
  induction n with
  | zero => exact ⟨s, rfl, hs⟩
  | succ n ih =>
      obtain ⟨s₁, hrun, h₁⟩ := ih fun k hk => h k (Nat.lt_succ_of_lt hk)
      obtain ⟨s₂, hround, h₂⟩ := h n (Nat.lt_succ_self n) s₁ h₁
      refine ⟨s₂, ?_, h₂⟩
      rw [List.range_succ, List.foldlM_append, hrun, pure_bind, List.foldlM_cons, hround, pure_bind]
      rfl

/-- What every round of such a loop keeps holds at the end, if the loop does not fail. -/
lemma of_foldlM_range {n : ℕ} {f : σ → ℕ → Except ε σ} {I : ℕ → σ → Prop}
    (h : ∀ k < n, ∀ s s', I k s → f s k = .ok s' → I (k + 1) s') {s r : σ} (hs : I 0 s)
    (hr : (List.range n).foldlM f s = .ok r) : I n r := by
  induction n generalizing r with
  | zero => rwa [← Except.ok.inj hr]
  | succ n ih =>
      rw [List.range_succ, List.foldlM_append] at hr
      obtain ⟨s₁, hrun, hr⟩ := bind_eq_ok.mp hr
      rw [List.foldlM_cons] at hr
      obtain ⟨s₂, hround, hr⟩ := bind_eq_ok.mp hr
      rw [← Except.ok.inj hr]
      exact h n (Nat.lt_succ_self n) s₁ s₂ (ih (fun k hk => h k (Nat.lt_succ_of_lt hk)) hrun) hround

/-- The invariant rule for the same loop over an index type. -/
lemma foldlM_finRange {n : ℕ} {f : σ → Fin n → Except ε σ} {I : ℕ → σ → Prop}
    (h : ∀ (i : Fin n) s, I i s → ∃ s', f s i = .ok s' ∧ I (i + 1) s') {s : σ} (hs : I 0 s) :
    ∃ s', (List.finRange n).foldlM f s = .ok s' ∧ I n s' := by
  induction n generalizing I s with
  | zero => exact ⟨s, rfl, hs⟩
  | succ n ih =>
      obtain ⟨s₁, hfirst, h₁⟩ := h 0 s hs
      obtain ⟨s', hrest, h'⟩ := ih (f := fun s i => f s i.succ) (I := fun k => I (k + 1))
        (fun i s hi => h i.succ s hi) h₁
      refine ⟨s', ?_, h'⟩
      rw [List.finRange_succ, List.foldlM_cons, hfirst, ← hrest]
      exact List.foldlM_map

/-- What the result of a loop satisfies, if every round adds a condition of its own: the bounds of a
minimum or a maximum. -/
lemma foldl_iff {f : σ → ι → σ} {C : σ → Prop} {P : ι → Prop} (h : ∀ s i, C (f s i) ↔ C s ∧ P i)
    (is : List ι) (s : σ) : C (is.foldl f s) ↔ C s ∧ ∀ i ∈ is, P i := by
  induction is generalizing s with
  | nil => simp
  | cons i is ih => rw [List.foldl_cons, ih, h, List.forall_mem_cons, and_assoc]

variable [DecidableEq ι]

/-- The loop `a[i] = f(i, a[i])` over some indices. -/
def updateEach (f : ι → α → Except ε α) (is : List ι) (a : ι → α) : Except ε (ι → α) :=
  is.foldlM (fun a i => (f i (a i)).map (Function.update a i)) a

/-- Every entry is changed once. -/
lemma updateEach_of_ok {f : ι → α → Except ε α} {g : ι → α} {is : List ι} {a : ι → α}
    (hnodup : is.Nodup) (h : ∀ i ∈ is, f i (a i) = .ok (g i)) :
    updateEach f is a = .ok fun i => if i ∈ is then g i else a i := by
  induction is generalizing a with
  | nil => simp [updateEach]; rfl
  | cons i is ih =>
      obtain ⟨hi, hrest⟩ := List.nodup_cons.mp hnodup
      have hne : ∀ j ∈ is, j ≠ i := fun j hj hji => hi (hji ▸ hj)
      have hstep : updateEach f (i :: is) a = updateEach f is (Function.update a i (g i)) := by
        rw [updateEach, List.foldlM_cons, h i (List.mem_cons_self ..)]
        rfl
      rw [hstep, ih hrest fun j hj => by
        rw [Function.update_of_ne (hne j hj)]
        exact h j (List.mem_cons_of_mem i hj)]
      congr 1
      funext j
      by_cases hji : j = i
      · subst hji
        simp [hi]
      · simp [hji]

lemma updateEach_finRange {n : ℕ} {f : Fin n → α → Except ε α} {g a : Fin n → α}
    (h : ∀ i, f i (a i) = .ok (g i)) : updateEach f (List.finRange n) a = .ok g := by
  rw [updateEach_of_ok (List.nodup_finRange n) fun i _ => h i]
  congr 1
  funext i
  rw [if_pos (List.mem_finRange i)]

end Lists

end RedAnns
