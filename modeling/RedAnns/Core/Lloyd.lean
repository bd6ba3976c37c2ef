import RedAnns.Core.NearestCenters
import RedAnns.Lib.Means

/-!
Lloyd's iterations: `lloyds_iter` and `run_lloyds` of `src/math_utils.cpp`.

* `Points`, `lloydsIter`: one iteration; `LloydsState`, `lloydsRound`, `runLloyds`: the loop, with
  the residuals of the last two iterations.
* `lloydsIter_spec`: what an iteration leaves: the first nearest centers, the lists of their points,
  the means, and the sum of the squared distances.
* `Assigned`: every point is in one list, of a nearest center.
* `lloyds_iff`: the numbers of centers for which the iterations assign well and never raise the
  residual.
-/

namespace RedAnns.Kmeans

open MathUtils

/-- The points of a clustering, and their squared norms if these are given. -/
structure Points (K : Type) [Field K] (numPoints dim : ℕ) where
  data : Buffer K
  docsL2sq : Option (Buffer K)
  norms_eq : ∀ norms ∈ docsL2sq, ∀ i < numPoints,
    norms i = ∑ l ∈ Finset.range dim, data (i * dim + l) * data (i * dim + l)

/-- `CHUNK_SIZE`. -/
def chunkSize : ℕ := 2 * 8192

/-- `nchunks`. -/
def nchunks (numPoints : ℕ) : ℕ :=
  numPoints / chunkSize + if numPoints % chunkSize = 0 then 0 else 1

/-- What `lloyds_iter` leaves, and the residual that it returns. -/
structure LloydsOut (K : Type) where
  centers : Buffer K
  closestDocs : Buffer (List ℕ)
  closestCenter : Buffer UInt32
  residual : K

section Source

variable {K : Type} [Field K] [LinearOrder K] {numPoints dim : ℕ} (env : MathEnv K)
  (p : Points K numPoints dim) (numCenters : ℕ)

/-- The arguments of the search for closest centers. -/
def Points.call (centers : Buffer K) : CentersCall K where
  data := p.data
  numPoints := numPoints
  dim := dim
  pivotData := centers
  numCenters := numCenters
  k := 1
  ptsNormsSquared := p.docsL2sq
  norms_eq := p.norms_eq

/-- The body of the loop over the centers: the mean of a list, unless the list is empty. -/
def updateCenter (closestDocs : Buffer (List ℕ)) (centers : Buffer K) (c : ℕ) : Buffer K :=
  let clusterSum := (closestDocs c).foldl
    (fun clusterSum d => Buffer.addEach clusterSum 0 dim (p.data.view (d * dim)))
    (Buffer.clear env.heap.floats dim)
  if 0 < (closestDocs c).length then
    centers.copy (c * dim) dim fun i => clusterSum i / (closestDocs c).length
  else centers

/-- The loop over a chunk of the points. -/
def chunkResidual (centers : Buffer K) (closestCenter : Buffer UInt32) (chunk : ℕ) : K :=
  (List.range (min numPoints ((chunk + 1) * chunkSize) - chunk * chunkSize)).foldl
    (fun residual t =>
      let d := chunk * chunkSize + t
      residual + calcDistance (p.data.view (d * dim)) (centers.view ((closestCenter d).toNat * dim))
        dim) 0

/-- The lists at the beginning of an iteration: new ones, or the given ones cleared. -/
def clearDocs : Option (Buffer (List ℕ)) → Buffer (List ℕ)
  | none => fun _ => []
  | some docs => docs.mapRows numCenters 1 1 0 fun _ _ _ => []

/-- `lloyds_iter`; the lists and the ids are `none` for `NULL`. -/
def lloydsIter (centers : Buffer K) (closestDocs : Option (Buffer (List ℕ)))
    (closestCenter : Option (Buffer UInt32)) : Except AccessFault (LloydsOut K) := do
  let closestCenter := closestCenter.getD env.heap.ids
  let closestDocs := clearDocs numCenters closestDocs
  let out ← MathUtils.computeClosestCenters env (p.call numCenters centers)
    ⟨closestCenter, some closestDocs⟩
  let closestDocs := out.invertedIndex.getD closestDocs
  let centers := centers.clear (numCenters * dim)
  let centers := (List.range numCenters).foldl (updateCenter env p closestDocs) centers
  let residual := (List.range (nchunks numPoints)).foldl (fun residual chunk =>
    residual + chunkResidual p centers out.ivf chunk) 0
  return ⟨centers, closestDocs, out.ivf, residual⟩

/-- The variables of the loop of `run_lloyds`. -/
structure LloydsState (K : Type) where
  i : ℕ
  centers : Buffer K
  closestDocs : Buffer (List ℕ)
  closestCenter : Buffer UInt32
  residual : K
  oldResidual : K
  done : Bool

variable (envs : ℕ → MathEnv K)

/-- One round of the loop of `run_lloyds`. -/
def lloydsRound (s : LloydsState K) : Except AccessFault (LloydsState K) := do
  let oldResidual := s.residual
  let out ← lloydsIter (envs s.i) p numCenters s.centers (some s.closestDocs) (some s.closestCenter)
  return {
    i := s.i + 1
    centers := out.centers
    closestDocs := out.closestDocs
    closestCenter := out.closestCenter
    residual := out.residual
    oldResidual
    done := decide ((s.i ≠ 0 ∧ (oldResidual - out.residual) / out.residual < 0.00001) ∨
      out.residual < 1 / (2 ^ 23 : ℕ)) }

/-- The state before the loop; arrays that are `NULL` are allocated. -/
def lloydsStart (env : MathEnv K) (centers : Buffer K) (closestDocs : Option (Buffer (List ℕ)))
    (closestCenter : Option (Buffer UInt32)) : LloydsState K where
  i := 0
  centers
  closestDocs := closestDocs.getD fun _ => []
  closestCenter := closestCenter.getD env.heap.ids
  residual := (floatMax : K)
  oldResidual := env.heap.floats 0
  done := false

/-- The points with their squared norms, as `run_lloyds` computes them. -/
def Points.withNorms (env : MathEnv K) (data : Buffer K) (numPoints dim : ℕ) :
    Points K numPoints dim where
  data
  docsL2sq := some (computeVecsL2sq env.blas env.heap.floats data numPoints dim)
  norms_eq := fun norms hnorms i hi => by
    rw [← Option.some.inj hnorms]
    exact computeVecsL2sq_apply env.blas _ _ hi

/-- There is another round. -/
def LloydsState.goesOn (maxReps : ℕ) (s : LloydsState K) : Bool := decide (s.i < maxReps) && !s.done

/-- The loop of `run_lloyds` after at most `n` rounds. -/
def lloydsLoop (maxReps n : ℕ) (s : LloydsState K) : Except AccessFault (LloydsState K) :=
  whileLoopM (LloydsState.goesOn maxReps) (lloydsRound p numCenters envs) n s

/-- `run_lloyds`: the residual, and the state of the arrays. -/
def runLloyds (data : Buffer K) (numPoints dim : ℕ) (centers : Buffer K) (numCenters maxReps : ℕ)
    (closestDocs : Option (Buffer (List ℕ))) (closestCenter : Option (Buffer UInt32)) :
    Except AccessFault (K × LloydsState K) := do
  let p := Points.withNorms (envs 0) data numPoints dim
  let s ← lloydsLoop p numCenters envs maxReps maxReps
    (lloydsStart (envs 0) centers closestDocs closestCenter)
  return (s.residual, s)

end Source

/-! ### One iteration -/

section Iteration

variable {K : Type} [Field K] [LinearOrder K] {numPoints dim numCenters : ℕ} {env : MathEnv K}
  {p : Points K numPoints dim} {centers : Buffer K}

/-- The points of the center `c`, if the ids are `ids`. -/
def members (numPoints : ℕ) (ids : Buffer UInt32) (c : ℕ) : List ℕ :=
  (List.range numPoints).filter fun i => (ids i).toNat = c

/-- The points and centers as families of rows. -/
def rowsOf (dim : ℕ) (b : Buffer K) (i l : ℕ) : K := b (i * dim + l)

/-- The cost of the ids `ids` for the centers `centers`. -/
def cost (p : Points K numPoints dim) (centers : Buffer K) (ids : Buffer UInt32) : K :=
  sqCost (Finset.range numPoints) (Finset.range dim) (rowsOf dim p.data) (rowsOf dim centers)
    fun i => (ids i).toNat

/-- An iteration went well: the ids are the nearest centers, the lists hold the points of their
centers, the new centers are means, and the residual is the cost. -/
structure Iterated (p : Points K numPoints dim) (numCenters : ℕ) (centers : Buffer K)
    (out : LloydsOut K) : Prop where
  closestCenter : ∀ i < numPoints,
    out.closestCenter i = (p.call numCenters centers).centerId i
  closestDocs : ∀ c < numCenters, (out.closestDocs c).Perm (members numPoints out.closestCenter c)
  means : ∀ c < numCenters, ∀ l < dim, out.closestDocs c ≠ [] →
    out.centers (c * dim + l)
      = ((out.closestDocs c).map fun d => p.data (d * dim + l)).sum / (out.closestDocs c).length
  residual : out.residual = cost p out.centers out.closestCenter

/-- The loop over the centers, row by row. -/
lemma updateCenter_row (docs : Buffer (List ℕ)) (centers : Buffer K) {c l : ℕ} (hl : l < dim) :
    updateCenter env p docs centers c (c * dim + l)
      = if 0 < (docs c).length then
          ((docs c).map fun d => p.data (d * dim + l)).sum / (docs c).length
        else centers (c * dim + l) := by
  have hsum : (docs c).foldl (fun clusterSum d => Buffer.addEach clusterSum 0 dim
        (p.data.view (d * dim))) (Buffer.clear env.heap.floats dim) l
      = ((docs c).map fun d => p.data (d * dim + l)).sum := by
    have h := Buffer.foldl_addEach (m := Buffer.clear env.heap.floats dim) (p := 0)
      (f := fun d => p.data.view (d * dim)) (docs c) hl
    rw [Nat.zero_add, Buffer.clear_of_lt hl, zero_add] at h
    exact h
  rw [updateCenter]
  split
  · rw [Buffer.copy_row hl, if_pos rfl, hsum]
  · rfl

lemma updateCenter_of_ne (docs : Buffer (List ℕ)) (centers : Buffer K) {c i l : ℕ} (hne : i ≠ c)
    (hl : l < dim) : updateCenter env p docs centers c (i * dim + l) = centers (i * dim + l) := by
  rw [updateCenter]
  split
  · rw [Buffer.copy_row hl, if_neg hne]
  · rfl

lemma foldl_updateCenter (docs : Buffer (List ℕ)) (centers : Buffer K) {c l : ℕ}
    (hc : c < numCenters) (hl : l < dim) :
    (List.range numCenters).foldl (updateCenter env p docs) centers (c * dim + l)
      = updateCenter env p docs centers c (c * dim + l) := by
  have h := Buffer.foldl_rows (f := updateCenter env p docs) (n := dim)
    (fun m c i d hne hd => updateCenter_of_ne docs m hne hd)
    (fun m m' c d hd heq => by rw [updateCenter_row docs m hd, updateCenter_row docs m' hd, heq])
    centers numCenters (i := c) hl
  rw [h, if_pos hc]

omit [LinearOrder K] in
/-- The chunks of the points are all points. -/
lemma residual_eq (p : Points K numPoints dim) (centers : Buffer K) (ids : Buffer UInt32) :
    (List.range (nchunks numPoints)).foldl (fun residual chunk =>
        residual + chunkResidual p centers ids chunk) 0
      = cost p centers ids := by
  have hsum : ∀ (f : ℕ → K) n, ((List.range n).map f).sum = ∑ d ∈ Finset.range n, f d :=
    fun _ _ => rfl
  have hchunk : ∀ chunk, chunkResidual p centers ids chunk
      = ∑ t ∈ Finset.range (min numPoints ((chunk + 1) * chunkSize) - chunk * chunkSize),
          sqDist p.data centers dim (chunk * chunkSize + t)
            (ids (chunk * chunkSize + t)).toNat := by
    intro chunk
    rw [chunkResidual, foldl_add, zero_add, hsum]
    exact Finset.sum_congr rfl fun t _ => calcDistance_eq ..
  have hall : numPoints ≤ nchunks numPoints * chunkSize := by
    rw [nchunks, chunkSize]
    split <;> omega
  rw [foldl_add, zero_add, hsum, Finset.sum_congr rfl fun c _ => hchunk c,
    sum_chunks fun d => sqDist p.data centers dim d (ids d).toNat, Nat.min_eq_left hall]
  rfl

/-- The lists that a call writes hold the points of their centers, in the order of the threads. -/
lemma written_docs (call : CentersCall K) (t : LoopOrder call.numPoints 1) (out : CentersOut)
    {docs : Buffer (List ℕ)} (hdocs : out.invertedIndex = some docs) {c : ℕ} (hc : docs c = []) :
    (((call.written t.order out).invertedIndex.getD docs) c).Perm
      (members call.numPoints (call.written t.order out).ivf c) := by
  have hlist : (call.written t.order out).invertedIndex.getD docs c
      = (t.order.map Prod.fst).filter fun i => (call.centerId i).toNat = c := by
    rw [CentersCall.written, hdocs, Option.map_some, Option.getD_some, hc, List.nil_append,
      List.filter_map]
    rfl
  rw [hlist]
  refine (t.map_fst_perm.filter _).trans ?_
  rw [members]
  refine List.Perm.of_eq (List.filter_congr fun i hi => ?_)
  have hivf : (call.written t.order out).ivf i = call.centerId i := if_pos (List.mem_range.mp hi)
  rw [hivf]

lemma clearDocs_apply (docs : Option (Buffer (List ℕ))) {c : ℕ} (hc : c < numCenters) :
    clearDocs numCenters docs c = [] := by
  cases docs with
  | none => rfl
  | some docs =>
      rw [clearDocs, Buffer.mapRows_entry hc]

/-- **One iteration goes well**, whatever lists and ids it is given. -/
lemma lloydsIter_spec (env : MathEnv K) (hn : 0 < numPoints) (hcenters : 0 < numCenters)
    (hmax : (p.call numCenters centers).BelowMax) (closestDocs : Option (Buffer (List ℕ)))
    (closestCenter : Option (Buffer UInt32)) :
    ∃ out, lloydsIter env p numCenters centers closestDocs closestCenter = .ok out ∧
      Iterated p numCenters centers out := by
  rw [lloydsIter]
  dsimp only
  rw [CentersCall.computeClosestCenters_one env rfl hn hcenters (hmax.some hcenters), ok_bind]
  refine ⟨_, rfl, ?_, ?_, ?_, ?_⟩
  · intro i hi
    exact if_pos hi
  · intro c hc
    exact written_docs (p.call numCenters centers) _
      ⟨closestCenter.getD env.heap.ids, some (clearDocs numCenters closestDocs)⟩ rfl
      (clearDocs_apply closestDocs hc)
  · intro c hc l hl hdocs
    dsimp only at hdocs ⊢
    rw [foldl_updateCenter _ _ hc hl, updateCenter_row _ _ hl,
      if_pos (List.length_pos_iff.mpr hdocs)]
  · exact residual_eq ..

end Iteration

/-! ### Assignments and residuals -/

section Results

variable {K : Type} [Field K] [LinearOrder K] {numPoints dim numCenters : ℕ} {env : MathEnv K}
  {p : Points K numPoints dim} {centers : Buffer K} {out : LloydsOut K}

/-- Every point is in exactly one list, that of a center at least distance, which is also its id. -/
structure Assigned (p : Points K numPoints dim) (numCenters : ℕ) (centers : Buffer K)
    (out : LloydsOut K) : Prop where
  once : ∀ i < numPoints, ∃ c < numCenters, (out.closestDocs c).count i = 1 ∧
    (∀ c' < numCenters, c' ≠ c → i ∉ out.closestDocs c') ∧ (out.closestCenter i).toNat = c ∧
    ∀ j < numCenters, sqDist p.data centers dim i c ≤ sqDist p.data centers dim i j
  points : ∀ c < numCenters, ∀ i ∈ out.closestDocs c, i < numPoints

lemma mem_members {ids : Buffer UInt32} {c i : ℕ} :
    i ∈ members numPoints ids c ↔ i < numPoints ∧ (ids i).toNat = c := by
  simp [members]

/-- The ids of 32 bits hold the nearest centers, if there are not more centers than ids, or all
distances are zero. -/
lemma toNat_centerId (hfits : numCenters ≤ 2 ^ 32 ∨ dim = 0) (hcenters : 0 < numCenters)
    (hmax : (p.call numCenters centers).BelowMax) {i : ℕ} (hi : i < numPoints) :
    ((p.call numCenters centers).centerId i).toNat = (p.call numCenters centers).nearest i := by
  have hnearest := CentersCall.nearest_spec (hmax.some hcenters) hi
  have hlt : (p.call numCenters centers).nearest i < 2 ^ 32 := by
    rcases hfits with hle | hdim
    · exact hnearest.lt.trans_le hle
    · have hzero : ∀ j, (p.call numCenters centers).dist i j = 0 := by
        intro j
        subst hdim
        rfl
      rcases Nat.eq_zero_or_pos ((p.call numCenters centers).nearest i) with heq | hpos
      · omega
      · have hfirst := hnearest.first 0 hpos
        rw [hzero, hzero] at hfirst
        exact absurd hfirst (lt_irrefl 0)
  exact UInt32.toNat_ofNat_of_lt' hlt

namespace Iterated

variable (h : Iterated p numCenters centers out) (hcenters : 0 < numCenters)
  (hmax : (p.call numCenters centers).BelowMax)
include h hcenters hmax

/-- The ids are centers. -/
lemma toNat_lt {i : ℕ} (hi : i < numPoints) : (out.closestCenter i).toNat < numCenters := by
  rw [h.closestCenter i hi]
  exact (Nat.mod_le _ _).trans_lt (CentersCall.nearest_spec (hmax.some hcenters) hi).lt

/-- The ids are nearest centers. -/
lemma le_of_fits (hfits : numCenters ≤ 2 ^ 32 ∨ dim = 0) {i j : ℕ} (hi : i < numPoints)
    (hj : j < numCenters) : sqDist p.data centers dim i (out.closestCenter i).toNat
      ≤ sqDist p.data centers dim i j := by
  rw [h.closestCenter i hi, toNat_centerId hfits hcenters hmax hi]
  exact (CentersCall.nearest_spec (hmax.some hcenters) hi).le j hj

/-- **No point is lost or doubled**, and each is in the list of a nearest center. -/
lemma assigned (hfits : numCenters ≤ 2 ^ 32 ∨ dim = 0) : Assigned p numCenters centers out where
  once := fun i hi => by
    have hlt := h.toNat_lt hcenters hmax hi
    refine ⟨(out.closestCenter i).toNat, hlt, ?_, fun c hc hne hmem => ?_, rfl,
      fun j hj => h.le_of_fits hcenters hmax hfits hi hj⟩
    · have hnodup : (members numPoints out.closestCenter (out.closestCenter i).toNat).Nodup :=
        List.nodup_range.filter _
      rw [(h.closestDocs _ hlt).count_eq]
      exact List.count_eq_one_of_mem hnodup (mem_members.mpr ⟨hi, rfl⟩)
    · exact hne (mem_members.mp ((h.closestDocs c hc).mem_iff.mp hmem)).2.symm
  points := fun c hc i hmem => (mem_members.mp ((h.closestDocs c hc).mem_iff.mp hmem)).1

/-- The new centers are means of their points. -/
lemma isMean [IsStrictOrderedRing K] : IsMean (Finset.range numPoints) (Finset.range dim)
    (rowsOf dim p.data) (rowsOf dim out.centers) fun i => (out.closestCenter i).toNat := by
  rintro c ⟨i, hi, rfl⟩ l hl
  have hin := Finset.mem_range.mp hi
  set c := (out.closestCenter i).toNat with hc
  have hlt : c < numCenters := h.toNat_lt hcenters hmax hin
  have hperm := h.closestDocs c hlt
  have hmem : i ∈ out.closestDocs c := hperm.mem_iff.mpr (mem_members.mpr ⟨hin, rfl⟩)
  have hne : out.closestDocs c ≠ [] := List.ne_nil_of_mem hmem
  have hcard : ((Finset.range numPoints).filter fun i => (out.closestCenter i).toNat = c).card
      = (out.closestDocs c).length := hperm.length_eq.symm
  have hsum : ((out.closestDocs c).map fun d => p.data (d * dim + l)).sum
      = ∑ i ∈ Finset.range numPoints with (out.closestCenter i).toNat = c,
          rowsOf dim p.data i l := (hperm.map _).sum_eq
  have hlen : ((out.closestDocs c).length : K) ≠ 0 :=
    Nat.cast_ne_zero.mpr (List.length_pos_iff.mpr hne).ne'
  rw [hcard, ← hsum, rowsOf, h.means c hlt l (Finset.mem_range.mp hl) hne]
  exact mul_div_cancel₀ _ hlen

/-- **The residual does not rise**: it is at most the cost of any ids for the centers before. -/
lemma residual_le [IsStrictOrderedRing K] (hfits : numCenters ≤ 2 ^ 32 ∨ dim = 0)
    {ids : Buffer UInt32} (hids : ∀ i < numPoints, (ids i).toNat < numCenters) :
    out.residual ≤ cost p centers ids := by
  rw [h.residual]
  refine sqCost_step (fun i hi => ?_) (h.isMean hcenters hmax)
  have hin := Finset.mem_range.mp hi
  exact h.le_of_fits hcenters hmax hfits hin (hids i hin)

end Iterated

end Results

/-! ### The loop -/

section Loop

variable {K : Type} [Field K] [LinearOrder K] [IsStrictOrderedRing K] {numPoints dim numCenters : ℕ}
  {envs : ℕ → MathEnv K} {p : Points K numPoints dim} {s : LloydsState K}

/-- The invariant of the loop: after an iteration the residual is the cost of the ids, which are
centers; after two it is not above the one before. -/
structure Settled (p : Points K numPoints dim) (numCenters : ℕ) (s : LloydsState K) : Prop where
  residual : s.i ≠ 0 → s.residual = cost p s.centers s.closestCenter
  ids : s.i ≠ 0 → ∀ i < numPoints, (s.closestCenter i).toNat < numCenters
  le : 2 ≤ s.i → s.residual ≤ s.oldResidual

/-- A round keeps the invariant. -/
lemma settled_round (envs : ℕ → MathEnv K) (hn : 0 < numPoints) (hcenters : 0 < numCenters)
    (hfits : numCenters ≤ 2 ^ 32 ∨ dim = 0) (h : Settled p numCenters s)
    (hmax : (p.call numCenters s.centers).BelowMax) :
    ∃ s', lloydsRound p numCenters envs s = .ok s' ∧ Settled p numCenters s' := by
  obtain ⟨out, hiter, hout⟩ := lloydsIter_spec (envs s.i) hn hcenters hmax (some s.closestDocs)
    (some s.closestCenter)
  rw [lloydsRound, hiter, ok_bind]
  refine ⟨_, rfl, fun _ => hout.residual, fun _ i hi => hout.toNat_lt hcenters hmax hi,
    fun hi => ?_⟩
  have hpos : s.i ≠ 0 := by
    dsimp only at hi
    omega
  rw [h.residual hpos]
  exact hout.residual_le hcenters hmax hfits (h.ids hpos)

/-- **Every state of the loop keeps it**, as long as all distances are below the largest float. -/
lemma settled_loop (hn : 0 < numPoints) (hcenters : 0 < numCenters)
    (hfits : numCenters ≤ 2 ^ 32 ∨ dim = 0) (maxReps n : ℕ) (h : Settled p numCenters s)
    (hmax : ∀ n s', lloydsLoop p numCenters envs maxReps n s = .ok s' → s'.goesOn maxReps = true →
      (p.call numCenters s'.centers).BelowMax) :
    ∃ s', lloydsLoop p numCenters envs maxReps n s = .ok s' ∧ Settled p numCenters s' := by
  induction n generalizing s with
  | zero => exact ⟨s, rfl, h⟩
  | succ n ih =>
      cases hcond : s.goesOn maxReps with
      | false => exact ⟨s, whileLoopM_of_false hcond _, h⟩
      | true =>
          obtain ⟨t, ht, hsettled⟩ :=
            settled_round envs hn hcenters hfits h (hmax 0 s rfl hcond)
          have hrest : ∀ n, lloydsLoop p numCenters envs maxReps (n + 1) s
              = lloydsLoop p numCenters envs maxReps n t := fun n => whileLoopM_of_ok hcond ht n
          rw [hrest]
          exact ih hsettled fun n s' hs' => hmax (n + 1) s' ((hrest n).trans hs')

end Loop

/-! ### How many centers -/

section Main

variable {K : Type} [Field K] [LinearOrder K] (envs : ℕ → MathEnv K)
  (numPoints dim numCenters : ℕ)

/-- The iterations do what they are for: every call assigns every point to the list of a nearest
center, and in every run the residuals of consecutive iterations do not rise; as long as all
distances are below the largest float. -/
structure LloydsCorrect : Prop where
  assigns : ∀ (env : MathEnv K) (p : Points K numPoints dim) (centers : Buffer K)
    (closestDocs : Option (Buffer (List ℕ))) (closestCenter : Option (Buffer UInt32)),
    (p.call numCenters centers).BelowMax →
    ∃ out, lloydsIter env p numCenters centers closestDocs closestCenter = .ok out ∧
      Assigned p numCenters centers out
  descends : ∀ (data centers : Buffer K) (maxReps : ℕ) (closestDocs : Option (Buffer (List ℕ)))
    (closestCenter : Option (Buffer UInt32)),
    (∀ n s, lloydsLoop (Points.withNorms (envs 0) data numPoints dim) numCenters envs maxReps n
        (lloydsStart (envs 0) centers closestDocs closestCenter) = .ok s →
      s.goesOn maxReps = true →
      ((Points.withNorms (envs 0) data numPoints dim).call numCenters s.centers).BelowMax) →
    (∃ result, runLloyds envs data numPoints dim centers numCenters maxReps closestDocs
      closestCenter = .ok result) ∧
    ∀ n, ∃ s, lloydsLoop (Points.withNorms (envs 0) data numPoints dim) numCenters envs maxReps n
        (lloydsStart (envs 0) centers closestDocs closestCenter) = .ok s ∧
      (2 ≤ s.i → s.residual ≤ s.oldResidual)

variable {numPoints dim numCenters}

/-- Before the first iteration there is nothing to keep. -/
lemma settled_start (env : MathEnv K) (p : Points K numPoints dim) (centers : Buffer K)
    (closestDocs : Option (Buffer (List ℕ))) (closestCenter : Option (Buffer UInt32)) :
    Settled p numCenters (lloydsStart env centers closestDocs closestCenter) where
  residual := fun h => absurd rfl h
  ids := fun h => absurd rfl h
  le := fun h => absurd (show 2 ≤ 0 from h) (by decide)

lemma lloydsCorrect [IsStrictOrderedRing K] (hn : 0 < numPoints) (hcenters : 0 < numCenters)
    (hfits : numCenters ≤ 2 ^ 32 ∨ dim = 0) : LloydsCorrect envs numPoints dim numCenters where
  assigns := fun env p centers closestDocs closestCenter hmax => by
    obtain ⟨out, hout, hiter⟩ :=
      lloydsIter_spec env hn hcenters hmax closestDocs closestCenter
    exact ⟨out, hout, hiter.assigned hcenters hmax hfits⟩
  descends := fun data centers maxReps closestDocs closestCenter hmax => by
    have hloop : ∀ n, ∃ s, lloydsLoop (Points.withNorms (envs 0) data numPoints dim) numCenters envs
        maxReps n (lloydsStart (envs 0) centers closestDocs closestCenter) = .ok s ∧
        Settled (Points.withNorms (envs 0) data numPoints dim) numCenters s := fun n =>
      settled_loop hn hcenters hfits maxReps n
        (settled_start (envs 0) _ centers closestDocs closestCenter) hmax
    refine ⟨?_, fun n => ?_⟩
    · obtain ⟨s, hs, -⟩ := hloop maxReps
      rw [runLloyds, hs]
      exact ⟨_, rfl⟩
    · obtain ⟨s, hs, hsettled⟩ := hloop n
      exact ⟨s, hs, hsettled.le⟩

/-- All centers are at distance one from the origin but the center `2^32`, which is there. -/
def farCenters (dim : ℕ) : Buffer K := fun a => if a % dim = 0 ∧ a / dim ≠ 2 ^ 32 then 1 else 0

omit [LinearOrder K] in
lemma sqDist_farCenters (hdim : 0 < dim) (i j : ℕ) :
    sqDist (fun _ => 0) (farCenters dim : Buffer K) dim i j = if j = 2 ^ 32 then 0 else 1 := by
  have hentry : ∀ l ∈ Finset.range dim, ((0 : K) - farCenters dim (j * dim + l)) ^ 2
      = if l = 0 then (if j = 2 ^ 32 then 0 else 1) else 0 := by
    intro l hl
    have hlt := Finset.mem_range.mp hl
    rw [farCenters, row_of_index hlt, col_of_index hlt]
    by_cases hl0 : l = 0 <;> by_cases hj : j = 2 ^ 32 <;> simp [hl0, hj]
  rw [sqDist, Finset.sum_congr rfl hentry, Finset.sum_ite_eq', if_pos (Finset.mem_range.mpr hdim)]

/-- An id of 32 bits cannot hold the index of the nearest center. -/
lemma not_lloydsCorrect [IsStrictOrderedRing K] (hn : 0 < numPoints) (hdim : 0 < dim)
    (hmore : 2 ^ 32 < numCenters) : ¬ LloydsCorrect envs numPoints dim numCenters := by
  intro h
  set p : Points K numPoints dim := Points.withNorms (envs 0) (fun _ => 0) numPoints dim with hp
  have hdist : ∀ i j, (p.call numCenters (farCenters dim)).dist i j = if j = 2 ^ 32 then 0 else 1 :=
    fun i j => sqDist_farCenters hdim i j
  have hone : (1 : K) < (floatMax : K) := by norm_num [floatMax]
  have hmax : (p.call numCenters (farCenters dim)).BelowMax := by
    intro i _ j _
    rw [hdist]
    split
    · exact zero_lt_one.trans hone
    · exact hone
  have hfirst : FirstLeast ((p.call numCenters (farCenters dim)).dist 0) numCenters (2 ^ 32) := by
    refine ⟨hmore, fun j _ => ?_, fun j hj => ?_⟩
    · rw [hdist, hdist, if_pos rfl]
      split
      · exact le_rfl
      · exact zero_le_one
    · rw [hdist, hdist, if_pos rfl, if_neg hj.ne]
      exact zero_lt_one
  have hcenters : 0 < numCenters := by omega
  obtain ⟨out, hout, hassigned⟩ := h.assigns (envs 0) p (farCenters dim) none none hmax
  obtain ⟨out', hout', hiter⟩ := lloydsIter_spec (envs 0) hn hcenters hmax none none
  obtain rfl := Except.ok.inj (hout.symm.trans hout')
  obtain ⟨c, -, -, -, hc, hnearest⟩ := hassigned.once 0 hn
  have hid : c = 0 := by
    rw [← hc, hiter.closestCenter 0 hn, CentersCall.centerId,
      (CentersCall.nearest_spec (hmax.some hcenters) hn).unique hfirst]
    rfl
  have hle := hnearest (2 ^ 32) hmore
  rw [hid, hp] at hle
  change sqDist (fun _ => 0) (farCenters dim) dim 0 0
    ≤ sqDist (fun _ => 0) (farCenters dim) dim 0 (2 ^ 32) at hle
  rw [sqDist_farCenters hdim, sqDist_farCenters hdim, if_neg (by norm_num), if_pos rfl] at hle
  exact absurd hle (not_le.mpr zero_lt_one)

/-- **How many centers the iterations serve**: as many as there are ids. -/
theorem lloyds_iff [IsStrictOrderedRing K] (hn : 0 < numPoints) (hcenters : 0 < numCenters) :
    LloydsCorrect envs numPoints dim numCenters ↔ numCenters ≤ 2 ^ 32 ∨ dim = 0 := by
  constructor
  · intro h
    by_contra hnot
    rw [not_or, not_le] at hnot
    exact not_lloydsCorrect envs hn (Nat.pos_of_ne_zero hnot.2) hnot.1 h
  · exact lloydsCorrect envs hn hcenters

theorem lloyds_iff_threeCenters : LloydsCorrect (fun _ => exactEnv) 2 1 3 :=
  (lloyds_iff (fun _ => exactEnv) two_pos three_pos).mpr (Or.inl (by norm_num))

theorem not_lloydsCorrect_manyCenters :
    ¬ LloydsCorrect (fun _ => exactEnv) 1 1 (2 ^ 32 + 1) :=
  not_lloydsCorrect (fun _ => exactEnv) Nat.one_pos Nat.one_pos (Nat.lt_succ_self _)

end Main

end RedAnns.Kmeans
