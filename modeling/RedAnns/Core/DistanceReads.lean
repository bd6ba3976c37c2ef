import RedAnns.Core.Distance

/-!
What the vectorised distances of `include/distance.h` read.

`Distance.lean` has them over the coordinates that are left. Here the two pointers run over arrays,
and every read of an entry is checked.

* `loaduAt`, `maskedReadAt`, `laneSumAt`: the source, with the pointers and the counter.
* `laneSumAt_eq`: on arrays of exactly `d` entries all reads succeed, and the lanes are the same.
* `comparesPlainSums`: the distances are the plain sums, and symmetric.
-/

namespace RedAnns

namespace Distance

variable {K : Type*} [Field K] (term : K → K → K) (x y : List K)

/-! ### The source -/

/-- `_mm512_loadu_ps` and its narrower forms: the `n` entries from `p` on. -/
def loaduAt (n : ℕ) (x : List K) (p : ℕ) : Option (Fin n → K) :=
  (List.finRange n).foldlM (fun register i => (x[p + i.val]?).map (Function.update register i))
    fun _ => 0

/-- `masked_read`. -/
def maskedReadAt (d : ℕ) (x : List K) (p : ℕ) : Option (Fin 4 → K) :=
  (maskedLanes d).foldlM (fun buf i => (x[p + i.val]?).map (Function.update buf i)) fun _ => 0

/-- The register, the place of both pointers, and what is left of the counter. -/
structure Lanes (n : ℕ) (K : Type*) where
  msum : Fin n → K
  p : ℕ
  d : ℕ

/-- A block of `n` lanes, if that many entries are left. -/
def blockAt {n : ℕ} (s : Lanes n K) : Option (Lanes n K) :=
  if n ≤ s.d then do
    let mx ← loaduAt n x s.p
    let my ← loaduAt n y s.p
    return ⟨accumulate term s.msum mx my, s.p + n, s.d - n⟩
  else some s

/-- The loop over blocks of sixteen. -/
def blocks16At : ℕ → Lanes 16 K → Option (Lanes 16 K)
  | 0, s => some s
  | fuel + 1, s => if 16 ≤ s.d then blockAt term x y s >>= blocks16At fuel else some s

/-- The vectorised sum for a counter `d`. -/
def laneSumAt (d : ℕ) : Option K := do
  let s0 ← blocks16At term x y d ⟨fun _ => 0, 0, d⟩
  let s1 ← blockAt term x y (n := 8) ⟨fold s0.msum, s0.p, s0.d⟩
  let s2 ← blockAt term x y (n := 4) ⟨fold s1.msum, s1.p, s1.d⟩
  if 0 < s2.d then
    let mx ← maskedReadAt s2.d x s2.p
    let my ← maskedReadAt s2.d y s2.p
    return cvtss (hadd (hadd (accumulate term s2.msum mx my)))
  else return cvtss (hadd (hadd s2.msum))

/-- `DistanceL2::compare`. -/
def compareL2 (d : ℕ) : Option K := laneSumAt (fun a b => (a - b) * (a - b)) x y d

/-- `DistanceIP::compare`. -/
def compareIP (d : ℕ) : Option K := (laneSumAt (fun a b => a * b) x y d).map fun sum => -1 * sum

/-! ### The reads -/

section Reads

variable {x y} {term}

/-- Filling lanes with entries that are there. -/
lemma foldlM_lanes {n : ℕ} {p : ℕ} (lanes : List (Fin n)) (h : ∀ i ∈ lanes, p + i.val < x.length)
    (register : Fin n → K) :
    lanes.foldlM (fun register i => (x[p + i.val]?).map (Function.update register i)) register
      = some fun i => if i ∈ lanes then x.getD (p + i.val) 0 else register i := by
  induction lanes generalizing register with
  | nil => simp
  | cons j lanes ih =>
      have hj : x[p + j.val]? = some (x.getD (p + j.val) 0) := by
        have hlt := h j (List.mem_cons_self ..)
        rw [List.getD_eq_getElem?_getD, List.getElem?_eq_getElem hlt, Option.getD_some]
      rw [List.foldlM_cons, hj]
      show lanes.foldlM _ (Function.update register j (x.getD (p + j.val) 0)) = _
      rw [ih fun i hi => h i (List.mem_cons_of_mem _ hi)]
      congr 1
      funext i
      by_cases hmem : i ∈ lanes
      · simp [hmem]
      · by_cases hij : i = j
        · subst hij
          simp [hmem]
        · simp [hmem, hij]

lemma loaduAt_eq {n p : ℕ} (h : p + n ≤ x.length) : loaduAt n x p = some (loadu n (x.drop p)) := by
  rw [loaduAt, foldlM_lanes _ fun i _ => by omega]
  congr 1
  funext i
  rw [if_pos (List.mem_finRange i), loadu, List.getD_eq_getElem?_getD, List.getD_eq_getElem?_getD,
    List.getElem?_drop]

lemma mem_maskedLanes {d : ℕ} (h : d < 4) (i : Fin 4) : i ∈ maskedLanes d ↔ i.val < d := by
  revert d i
  decide

lemma maskedReadAt_eq {d p : ℕ} (hd : d < 4) (h : p + d ≤ x.length) :
    maskedReadAt d x p = some (maskedRead d (x.drop p)) := by
  rw [maskedReadAt, foldlM_lanes _ fun i hi => by
    have := (mem_maskedLanes hd i).mp hi
    omega]
  congr 1
  funext i
  rw [maskedRead]
  refine if_congr (mem_maskedLanes hd i) ?_ rfl
  rw [List.getD_eq_getElem?_getD, List.getD_eq_getElem?_getD, List.getElem?_drop]

/-- The pointers and the counter stand for what is left of the two vectors. -/
structure Stands {n : ℕ} (x y : List K) (s : Lanes n K) (r : (Fin n → K) × List K × List K) :
    Prop where
  register : r.1 = s.msum
  left : r.2.1 = x.drop s.p
  right : r.2.2 = y.drop s.p
  count : s.p + s.d = x.length

omit [Field K] in
lemma Stands.length {n : ℕ} {s : Lanes n K} {r : (Fin n → K) × List K × List K}
    (h : Stands x y s r) : r.2.1.length = s.d := by
  rw [h.left, List.length_drop]
  have := h.count
  omega

/-- **A block reads entries that are there.** -/
lemma Stands.block (term : K → K → K) (hxy : y.length = x.length) {n : ℕ} {s : Lanes n K}
    {r : (Fin n → K) × List K × List K} (h : Stands x y s r) :
    ∃ s', blockAt term x y s = some s' ∧ Stands x y s' (readBlock term r.1 r.2.1 r.2.2) := by
  have hlen := h.length
  have hcount := h.count
  rw [blockAt, readBlock, hlen]
  by_cases hn : n ≤ s.d
  · rw [if_pos hn, if_pos hn, loaduAt_eq (by omega), loaduAt_eq (by omega)]
    refine ⟨_, rfl, ?_, ?_, ?_, ?_⟩
    · rw [h.register, h.left, h.right]
    · rw [h.left, List.drop_drop]
    · rw [h.right, List.drop_drop]
    · show s.p + n + (s.d - n) = x.length
      omega
  · rw [if_neg hn, if_neg hn]
    exact ⟨s, rfl, h⟩

lemma Stands.blocks16 (term : K → K → K) (hxy : y.length = x.length) (fuel : ℕ) {s : Lanes 16 K}
    {r : (Fin 16 → K) × List K × List K} (h : Stands x y s r) :
    ∃ s', blocks16At term x y fuel s = some s' ∧
      Stands x y s' (Distance.blocks16 term fuel r.1 r.2.1 r.2.2) := by
  induction fuel generalizing s r with
  | zero => exact ⟨s, rfl, h⟩
  | succ fuel ih =>
      obtain ⟨s', hs', hblock⟩ := h.block term hxy
      rw [blocks16At, Distance.blocks16, h.length]
      by_cases hd : 16 ≤ s.d
      · rw [if_pos hd, if_pos hd, hs']
        rw [readBlock, h.length, if_pos hd] at hblock
        exact ih hblock
      · rw [if_neg hd, if_neg hd]
        exact ⟨s, rfl, h⟩

/-- **All reads succeed**, and the lanes are those of the coordinates. -/
theorem laneSumAt_eq (term : K → K → K) (hxy : y.length = x.length) :
    laneSumAt term x y x.length = some (laneSum term x y) := by
  obtain ⟨s0, hs0, h0⟩ := Stands.blocks16 term hxy x.length
    (s := ⟨fun _ => 0, 0, x.length⟩) (r := (fun _ => 0, x, y)) ⟨rfl, rfl, rfl, Nat.zero_add _⟩
  set r0 := blocks16 term x.length (fun _ => 0) x y with hr0
  obtain ⟨s1, hs1, h1⟩ := Stands.block term hxy (n := 8)
    (s := ⟨fold s0.msum, s0.p, s0.d⟩) (r := (fold r0.1, r0.2.1, r0.2.2))
    ⟨congrArg (fold (n := 8)) h0.register, h0.left, h0.right, h0.count⟩
  set r1 := readBlock term (fold (n := 8) r0.1) r0.2.1 r0.2.2 with hr1
  obtain ⟨s2, hs2, h2⟩ := Stands.block term hxy (n := 4)
    (s := ⟨fold s1.msum, s1.p, s1.d⟩) (r := (fold r1.1, r1.2.1, r1.2.2))
    ⟨congrArg (fold (n := 4)) h1.register, h1.left, h1.right, h1.count⟩
  set r2 := readBlock term (fold (n := 4) r1.1) r1.2.1 r1.2.2 with hr2
  have hfew : r2.2.1.length < 4 := by
    have h16 : r0.2.1.length < 8 + 8 := length_blocks16 term _ _ x y (by omega)
    have h8 : r1.2.1.length < 4 + 4 := length_readBlock term _ _ _ h16
    exact length_readBlock term _ _ _ (by omega)
  have hcount := h2.count
  have hd : s2.d < 4 := h2.length ▸ hfew
  have hsum : laneSum term x y = hadd (hadd (if 0 < r2.2.1.length then
      accumulate term r2.1 (maskedRead r2.2.1.length r2.2.1) (maskedRead r2.2.1.length r2.2.2)
      else r2.1)) 0 := rfl
  rw [hsum, h2.length, h2.register, h2.left, h2.right, laneSumAt, hs0]
  show (blockAt term x y (n := 8) ⟨fold s0.msum, s0.p, s0.d⟩ >>= _) = _
  rw [hs1]
  show (blockAt term x y (n := 4) ⟨fold s1.msum, s1.p, s1.d⟩ >>= _) = _
  rw [hs2]
  show (if 0 < s2.d then _ else _) = _
  by_cases hpos : 0 < s2.d
  · rw [if_pos hpos, if_pos hpos, maskedReadAt_eq hd (by omega), maskedReadAt_eq hd (by omega)]
    rfl
  · rw [if_neg hpos, if_neg hpos]
    rfl

/-- **The distances are the plain sums**: on vectors of `d` entries every read is inside them, and
the two vectors may be swapped. -/
theorem comparesPlainSums (x y : List K) {d : ℕ} (hx : x.length = d) (hy : y.length = d) :
    (compareL2 x y d
        = some (∑ i ∈ Finset.range d, (x.getD i 0 - y.getD i 0) ^ 2) ∧
      compareIP x y d = some (-∑ i ∈ Finset.range d, x.getD i 0 * y.getD i 0)) ∧
    compareL2 y x d = compareL2 x y d ∧ compareIP y x d = compareIP x y d := by
  subst hx
  have hL2 : ∀ x y : List K, y.length = x.length → compareL2 x y x.length
      = some (∑ i ∈ Finset.range x.length, (x.getD i 0 - y.getD i 0) ^ 2) := fun x y h => by
    rw [compareL2, laneSumAt_eq _ h, laneSum_eq (by ring), coordSum]
    simp only [sq]
  have hIP : ∀ x y : List K, y.length = x.length → compareIP x y x.length
      = some (-∑ i ∈ Finset.range x.length, x.getD i 0 * y.getD i 0) := fun x y h => by
    rw [compareIP, laneSumAt_eq _ h, laneSum_eq (by ring), coordSum, Option.map_some, neg_one_mul]
  refine ⟨⟨hL2 x y hy, hIP x y hy⟩, ?_, ?_⟩
  · rw [hL2 x y hy, ← hy, hL2 y x hy.symm]
    refine congrArg some (Finset.sum_congr rfl fun i _ => ?_)
    ring
  · rw [hIP x y hy, ← hy, hIP y x hy.symm]
    refine congrArg (fun sum => some (-sum)) (Finset.sum_congr rfl fun i _ => ?_)
    ring

theorem comparesPlainSums_five :
    (compareL2 [(1 : ℚ), 2, 3, 4, 5] [0, 0, 1, 1, 1] 5
        = some (∑ i ∈ Finset.range 5, ([1, 2, 3, 4, 5].getD i 0 - [0, 0, 1, 1, 1].getD i 0) ^ 2) ∧
      compareIP [(1 : ℚ), 2, 3, 4, 5] [0, 0, 1, 1, 1] 5
        = some (-∑ i ∈ Finset.range 5, [1, 2, 3, 4, 5].getD i 0 * [0, 0, 1, 1, 1].getD i 0)) ∧
    compareL2 [(0 : ℚ), 0, 1, 1, 1] [1, 2, 3, 4, 5] 5
        = compareL2 [1, 2, 3, 4, 5] [0, 0, 1, 1, 1] 5 ∧
      compareIP [(0 : ℚ), 0, 1, 1, 1] [1, 2, 3, 4, 5] 5
        = compareIP [1, 2, 3, 4, 5] [0, 0, 1, 1, 1] 5 :=
  comparesPlainSums _ _ rfl rfl

/-- The distance of a search is what `DistanceL2` computes on the words it reads. -/
theorem compare_distanceL2_eq (val : UInt32 → K) (x y : List UInt32) (h : y.length = x.length) :
    compareL2 (x.map val) (y.map val) x.length = some ((distanceL2 val).compare x y) := by
  have hxy : (y.map val).length = (x.map val).length := by
    rw [List.length_map, List.length_map, h]
  have hlane := laneSumAt_eq (fun a b : K => (a - b) * (a - b)) hxy
  rwa [List.length_map] at hlane

/-- The same for `DistanceIP`. -/
theorem compare_distanceIP_eq (val : UInt32 → K) (x y : List UInt32) (h : y.length = x.length) :
    compareIP (x.map val) (y.map val) x.length = some ((distanceIP val).compare x y) := by
  have hxy : (y.map val).length = (x.map val).length := by
    rw [List.length_map, List.length_map, h]
  have hlane := laneSumAt_eq (fun a b : K => a * b) hxy
  rw [List.length_map] at hlane
  rw [compareIP, hlane]
  rfl

end Reads

end Distance

end RedAnns
