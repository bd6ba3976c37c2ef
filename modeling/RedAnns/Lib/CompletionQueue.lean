import Mathlib.Data.List.Basic
import Mathlib.Tactic

/-!
A queue pair with selective signalling.

Requests complete in the order in which they were posted, and only the signaled ones leave a
completion to be polled. A program that posts its requests in groups, each with its last
request signaled and no other (`IsGroup`), can tell from one completion that a whole group
is done.

* `Tracks q G done`: of the groups `G` not polled for yet, the requests `done` are complete
  and the others still posted.
* `Tracks.post`, `Tracks.complete`, `Tracks.front`: posting a group, completing a request,
  and polling one completion for the first group, which is then done as a whole.
* `Tracks.posted_ne_nil`: as long as no completion has arrived for a nonempty first group,
  something is left to complete, so polling does not wait in vain.
* `Follows q rs done`: the same for requests that are not grouped yet, to follow a group while it
  is being posted; `Follows.tracks` groups them.
-/

namespace RedAnns

/-- A queue pair: the posted requests, oldest first, and the completions to be polled. -/
@[ext]
structure CompletionQueue (ρ : Type*) where
  posted : List ρ
  completions : List ρ

namespace CompletionQueue

variable {ρ : Type*}

/-- Nothing posted, nothing to poll. -/
def idle : CompletionQueue ρ := ⟨[], []⟩

/-- Requests are posted behind the others. -/
def post (q : CompletionQueue ρ) (rs : List ρ) : CompletionQueue ρ :=
  { q with posted := q.posted ++ rs }

/-- The oldest request completes, with a completion if it is signaled. -/
def complete (signaled : ρ → Bool) (q : CompletionQueue ρ) : CompletionQueue ρ :=
  match q.posted with
  | [] => q
  | r :: rs => ⟨rs, if signaled r then q.completions ++ [r] else q.completions⟩

/-- A group of requests: the last one is signaled and no other. An empty group is none. -/
def IsGroup (signaled : ρ → Bool) (g : List ρ) : Prop :=
  ∀ init r, g = init ++ [r] → signaled r = true ∧ ∀ r' ∈ init, signaled r' = false

/-- Of the requests `rs`, oldest first, `done` are complete and all the others still posted. -/
structure Follows (signaled : ρ → Bool) (q : CompletionQueue ρ) (rs done : List ρ) : Prop where
  requests : done ++ q.posted = rs
  completions : q.completions = done.filter signaled

/-- **What is known of a queue pair**: of the groups not polled for yet, oldest first, the
requests `done` are complete and all the others still posted. -/
structure Tracks (signaled : ρ → Bool) (q : CompletionQueue ρ) (G : List (List ρ))
    (done : List ρ) : Prop where
  flatten : done ++ q.posted = G.flatten
  completions : q.completions = done.filter signaled
  groups : ∀ g ∈ G, IsGroup signaled g

variable {signaled : ρ → Bool} {q : CompletionQueue ρ} {G : List (List ρ)} {done rs : List ρ}

lemma complete_of_posted {r : ρ} {rs : List ρ} (hq : q.posted = r :: rs) :
    q.complete signaled = ⟨rs, if signaled r then q.completions ++ [r] else q.completions⟩ := by
  rw [CompletionQueue.complete, hq]

lemma follows_idle : Follows signaled idle [] [] := ⟨rfl, rfl⟩

lemma Follows.post (h : Follows signaled q rs done) (rs' : List ρ) :
    Follows signaled (q.post rs') (rs ++ rs') done where
  requests := by rw [CompletionQueue.post, ← List.append_assoc, h.requests]
  completions := h.completions

lemma Follows.complete (h : Follows signaled q rs done) {r : ρ} {rs' : List ρ}
    (hq : q.posted = r :: rs') : Follows signaled (q.complete signaled) rs (done ++ [r]) := by
  rw [complete_of_posted hq]
  refine ⟨?_, ?_⟩
  · rw [List.append_assoc, List.singleton_append, ← hq, h.requests]
  · rw [List.filter_append, ← h.completions]
    cases hr : signaled r with
    | true => rw [if_pos rfl, List.filter_cons_of_pos hr, List.filter_nil]
    | false =>
        rw [if_neg (by simp), List.filter_cons_of_neg (by simp [hr]), List.filter_nil,
          List.append_nil]

/-- The requests may be grouped in any way that ends every group with a signaled request. -/
lemma Follows.tracks (h : Follows signaled q rs done) (hG : rs = G.flatten)
    (hgroups : ∀ g ∈ G, IsGroup signaled g) : Tracks signaled q G done :=
  ⟨h.requests.trans hG, h.completions, hgroups⟩

lemma Tracks.follows (h : Tracks signaled q G done) : Follows signaled q G.flatten done :=
  ⟨h.flatten, h.completions⟩

lemma tracks_idle : Tracks signaled idle [] [] := ⟨rfl, rfl, by simp⟩

/-- Nothing to poll for is nothing outstanding. -/
lemma Tracks.eq_idle (h : Tracks signaled q [] done) : q = idle ∧ done = [] := by
  have hnil := h.flatten
  rw [List.flatten_nil, List.append_eq_nil_iff] at hnil
  have hc := h.completions
  rw [hnil.1] at hc
  exact ⟨CompletionQueue.ext hnil.2 hc, hnil.1⟩

lemma Tracks.post (h : Tracks signaled q G done) {g : List ρ} (hg : IsGroup signaled g) :
    Tracks signaled (q.post g) (G ++ [g]) done where
  flatten := by
    rw [CompletionQueue.post, ← List.append_assoc, h.flatten, List.flatten_append,
      List.flatten_singleton]
  completions := h.completions
  groups g' hg' := by
    rcases List.mem_append.mp hg' with hg' | hg'
    · exact h.groups g' hg'
    · rwa [List.mem_singleton.mp hg']

lemma Tracks.complete (h : Tracks signaled q G done) {r : ρ} {rs : List ρ}
    (hq : q.posted = r :: rs) : Tracks signaled (q.complete signaled) G (done ++ [r]) :=
  (h.follows.complete hq).tracks rfl h.groups

/-- An empty first group needs no polling. -/
lemma Tracks.skip {G : List (List ρ)} (h : Tracks signaled q ([] :: G) done) :
    Tracks signaled q G done :=
  ⟨h.flatten, h.completions, fun g hg => h.groups g (List.mem_cons_of_mem _ hg)⟩

/-- A nonempty group has a last request, and it is signaled. -/
lemma IsGroup.exists_last {g : List ρ} (h : IsGroup signaled g) (hne : g ≠ []) :
    ∃ init r, g = init ++ [r] ∧ signaled r = true ∧ ∀ r' ∈ init, signaled r' = false :=
  ⟨g.dropLast, g.getLast hne, (List.dropLast_append_getLast hne).symm,
    h _ _ (List.dropLast_append_getLast hne).symm⟩

/-- Requests complete in order: what is done is a part of the first group, or all of it and
more. -/
lemma Tracks.split {g : List ρ} {G : List (List ρ)} (h : Tracks signaled q (g :: G) done) :
    (∃ rest, rest ≠ [] ∧ g = done ++ rest) ∨
      ∃ done', done = g ++ done' ∧ done' ++ q.posted = G.flatten := by
  have hflat := h.flatten
  rw [List.flatten_cons] at hflat
  rcases List.append_eq_append_iff.mp hflat with ⟨rest, hg, hposted⟩ | ⟨done', hdone, hrest⟩
  · rcases eq_or_ne rest [] with rfl | hne
    · rw [List.append_nil] at hg
      refine Or.inr ⟨[], by rw [List.append_nil]; exact hg.symm, ?_⟩
      simpa using hposted
    · exact Or.inl ⟨rest, hne, hg⟩
  · exact Or.inr ⟨done', hdone, hrest.symm⟩

/-- **One completion stands for a whole group.** If a completion has arrived while the first
group is nonempty, then all of that group is done, and taking the completion away leaves
what is known of the later groups. -/
theorem Tracks.front {g : List ρ} {G : List (List ρ)} (h : Tracks signaled q (g :: G) done)
    (hne : g ≠ []) {c : ρ} {cs : List ρ} (hq : q.completions = c :: cs) :
    ∃ done', done = g ++ done' ∧ Tracks signaled ⟨q.posted, cs⟩ G done' := by
  obtain ⟨init, r, hg, hr, hinit⟩ := (h.groups g (by simp)).exists_last hne
  have hfilter : g.filter signaled = [r] := by
    rw [hg, List.filter_append, List.filter_cons_of_pos hr, List.filter_nil,
      List.filter_eq_nil_iff.mpr fun r' hr' => by simp [hinit r' hr'], List.nil_append]
  rcases h.split with ⟨rest, hrest, hgd⟩ | ⟨done', hdone, hflat⟩
  · -- the last request of the group is not done, so no completion can have arrived
    have hsplit : done ++ rest.dropLast = init := by
      have hlast := List.dropLast_append_getLast hrest
      rw [← hlast, ← List.append_assoc] at hgd
      exact (List.append_inj' (hgd.symm.trans hg) rfl).1
    have hnone : done.filter signaled = [] :=
      List.filter_eq_nil_iff.mpr fun r' hr' => by
        simp [hinit r' (hsplit ▸ List.mem_append_left _ hr')]
    rw [h.completions, hnone] at hq
    exact absurd hq (by simp)
  · have hcs := h.completions
    rw [hq, hdone, List.filter_append, hfilter, List.singleton_append, List.cons.injEq] at hcs
    exact ⟨done', hdone, hflat, hcs.2, fun g' hg' => h.groups g' (List.mem_cons_of_mem _ hg')⟩

/-- **Polling does not wait in vain**: without a completion, part of a nonempty first group
is still posted. -/
theorem Tracks.posted_ne_nil {g : List ρ} {G : List (List ρ)}
    (h : Tracks signaled q (g :: G) done) (hne : g ≠ []) (hq : q.completions = []) :
    q.posted ≠ [] := by
  obtain ⟨init, r, hg, hr, -⟩ := (h.groups g (by simp)).exists_last hne
  intro hnil
  have hflat := h.flatten
  rw [hnil, List.append_nil, List.flatten_cons, hg] at hflat
  have hmem : r ∈ done.filter signaled :=
    List.mem_filter.mpr ⟨by rw [hflat]; simp, hr⟩
  rw [← h.completions, hq] at hmem
  exact absurd hmem (by simp)

end CompletionQueue

end RedAnns
