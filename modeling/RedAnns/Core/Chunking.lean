import Mathlib.Algebra.Order.Floor.Semifield
import Mathlib.Data.Rat.Floor
import Mathlib.Tactic
import RedAnns.Lib.Loop

/-!
How `generate_pq_pivots` of `src/pq.cpp` cuts the dimensions into chunks.

Every dimension goes to the least loaded bin below a size threshold. The loads are never updated,
so the least loaded bin is the first one below the threshold; the threshold is the larger chunk size
until enough bins have reached it, and then the smaller one. The map `dim_to_bin` is never filled,
so no dimension is skipped.

* `findBin`, `assignDim`, `assignDims`, `chunkOffsetsOf`: the source.
* `chunkStart`: where the chunks start, the larger ones first.
* `ChunkInv`: after `d` dimensions the bins before the current one are complete, and those behind it
  empty; `assignDim_spec` is one step.
* `chunksBalanced`: the bins are consecutive and balanced.
-/

namespace RedAnns

/-- The largest `float`. -/
def floatMax : ℚ := (2 ^ 24 - 1) * 2 ^ 104

/-- `low_val`. -/
def lowVal (dim numPqChunks : ℕ) : ℕ := ⌊(dim : ℚ) / (numPqChunks : ℚ)⌋₊

/-- `high_val`. -/
def highVal (dim numPqChunks : ℕ) : ℕ := ⌈(dim : ℚ) / (numPqChunks : ℚ)⌉₊

/-- `max_num_high`. -/
def maxNumHigh (dim numPqChunks : ℕ) : ℕ := dim - lowVal dim numPqChunks * numPqChunks

/-- The state of the loop over dimensions. -/
structure Binning where
  binToDims : List (List ℕ)
  binLoads : List ℚ
  curNumHigh : ℕ
  curBinThreshold : ℕ
  deriving DecidableEq

/-- The loop over bins: `cur_best` and `cur_best_load`. -/
def findBin (numPqChunks : ℕ) (s : Binning) : ℕ × ℚ :=
  (List.range numPqChunks).foldl
    (fun best b =>
      if s.binLoads.getD b 0 < best.2 ∧ (s.binToDims.getD b []).length < s.curBinThreshold then
        (b, s.binLoads.getD b 0)
      else best) (numPqChunks + 1, floatMax)

/-- One round of the loop over dimensions; `none` when `cur_best` is no bin. -/
def assignDim (dim numPqChunks : ℕ) (s : Binning) (d : ℕ) : Option Binning := do
  let curBest := (findBin numPqChunks s).1
  let dims ← s.binToDims[curBest]?
  let binToDims := s.binToDims.set curBest (dims ++ [d])
  if (dims ++ [d]).length = highVal dim numPqChunks then
    let curNumHigh := s.curNumHigh + 1
    return { s with
      binToDims := binToDims
      curNumHigh := curNumHigh
      curBinThreshold := if curNumHigh = maxNumHigh dim numPqChunks then lowVal dim numPqChunks
        else s.curBinThreshold }
  else return { s with binToDims := binToDims }

/-- The state before the loop. -/
def startBinning (dim numPqChunks : ℕ) : Binning where
  binToDims := List.replicate numPqChunks []
  binLoads := List.replicate numPqChunks 0
  curNumHigh := 0
  curBinThreshold := highVal dim numPqChunks

/-- The loop over dimensions. -/
def assignDims (dim numPqChunks : ℕ) : Option Binning :=
  (List.range dim).foldlM (assignDim dim numPqChunks) (startBinning dim numPqChunks)

/-- `chunk_offsets`: the first entry, those of the loop over bins, and `dim`. -/
def chunkOffsetsOf (dim numPqChunks : ℕ) (binToDims : List (List ℕ)) : List ℕ :=
  ((List.range numPqChunks).foldl
    (fun chunkOffsets b =>
      if 0 < b then
        chunkOffsets ++ [chunkOffsets.getD (b - 1) 0 + (binToDims.getD (b - 1) []).length]
      else chunkOffsets) [0]) ++ [dim]

/-! ### Where the chunks start -/

section Sizes

variable {dim n : ℕ}

lemma lowVal_eq (dim n : ℕ) : lowVal dim n = dim / n := Nat.floor_div_eq_div dim n

/-- The larger size is the smaller one, or one more when the chunks do not divide the dimensions. -/
lemma highVal_eq (hn : 0 < n) : highVal dim n = dim / n + if dim % n = 0 then 0 else 1 := by
  have hdiv := Nat.div_add_mod dim n
  have hmod := Nat.mod_lt dim hn
  have hpos : (0 : ℚ) < n := Nat.cast_pos.mpr hn
  split_ifs with hzero
  · have hquot : (dim : ℚ) / n = ((dim / n : ℕ) : ℚ) := by
      rw [div_eq_iff hpos.ne', ← Nat.cast_mul, Nat.cast_inj, Nat.mul_comm]
      omega
    rw [highVal, hquot, Nat.ceil_natCast, Nat.add_zero]
  · rw [highVal, Nat.ceil_eq_iff (Nat.succ_ne_zero (dim / n)), Nat.succ_sub_one, lt_div_iff₀ hpos,
      div_le_iff₀ hpos, ← Nat.cast_mul, ← Nat.cast_mul, Nat.cast_lt, Nat.cast_le, Nat.succ_mul,
      Nat.mul_comm (dim / n) n]
    omega

lemma maxNumHigh_eq (dim n : ℕ) : maxNumHigh dim n = dim % n := by
  have hdiv := Nat.div_add_mod dim n
  rw [maxNumHigh, lowVal_eq, Nat.mul_comm]
  omega

/-- Where chunk `b` starts: the chunks of the larger size come first. -/
def chunkStart (dim n b : ℕ) : ℕ := b * (dim / n) + min b (dim % n)

@[simp] lemma chunkStart_zero : chunkStart dim n 0 = 0 := by simp [chunkStart]

@[simp] lemma chunkStart_last (hn : 0 < n) : chunkStart dim n n = dim := by
  rw [chunkStart, min_eq_right (Nat.mod_lt dim hn).le]
  exact Nat.div_add_mod dim n

variable (dim n) in
/-- The size of chunk `b`. -/
lemma chunkStart_succ (b : ℕ) : chunkStart dim n (b + 1)
    = chunkStart dim n b + (dim / n + if b < dim % n then 1 else 0) := by
  rw [chunkStart, chunkStart, Nat.add_one_mul]
  split_ifs <;> omega

lemma chunkStart_mono {b b' : ℕ} (h : b ≤ b') : chunkStart dim n b ≤ chunkStart dim n b' := by
  have hmul := Nat.mul_le_mul_right (dim / n) h
  rw [chunkStart, chunkStart]
  omega

/-- A complete chunk has the smaller size, or the larger one. -/
lemma size_chunk (b : ℕ) : chunkStart dim n (b + 1) - chunkStart dim n b
    = dim / n + if b < dim % n then 1 else 0 := by
  rw [chunkStart_succ, Nat.add_sub_cancel_left]

end Sizes

/-! ### The loop -/

section Loop

variable {dim n d b : ℕ} {s : Binning}

/-- **After `d` dimensions**, the current bin being `b`: the bins hold the first `d` dimensions,
chunk by chunk, and the threshold falls once all larger chunks are complete. -/
structure ChunkInv (dim n d b : ℕ) (s : Binning) : Prop where
  start_le : chunkStart dim n b ≤ d
  le_dim : d ≤ dim
  current : d < dim → d < chunkStart dim n (b + 1)
  bins_length : s.binToDims.length = n
  bins : ∀ b' < n, s.binToDims[b']?
    = some (List.range' (chunkStart dim n b')
        (min d (chunkStart dim n (b' + 1)) - chunkStart dim n b'))
  loads : s.binLoads = List.replicate n 0
  numHigh : s.curNumHigh = if dim % n = 0 then b else min b (dim % n)
  threshold : s.curBinThreshold
    = if dim % n ≤ b then dim / n else dim / n + 1

lemma ChunkInv.length_bin (h : ChunkInv dim n d b s) {b' : ℕ} (hb' : b' < n) :
    (s.binToDims.getD b' []).length
      = min d (chunkStart dim n (b' + 1)) - chunkStart dim n b' := by
  rw [List.getD_eq_getElem?_getD, h.bins b' hb', Option.getD_some, List.length_range']

/-- The current bin is one of the bins. -/
lemma ChunkInv.lt (h : ChunkInv dim n d b s) (hn : 0 < n) (hd : d < dim) : b < n := by
  by_contra hle
  have hmono : chunkStart dim n n ≤ chunkStart dim n b := chunkStart_mono (not_lt.mp hle)
  rw [chunkStart_last hn] at hmono
  have hstart := h.start_le
  omega

/-- Bins behind the first one below the threshold change nothing: their load is not less. -/
lemma findBin_eq (hloads : s.binLoads = List.replicate n 0) (hb : b < n)
    (hbefore : ∀ b' < b, ¬ (s.binToDims.getD b' []).length < s.curBinThreshold)
    (hroom : (s.binToDims.getD b []).length < s.curBinThreshold) : (findBin n s).1 = b := by
  have hload : ∀ b', s.binLoads.getD b' 0 = 0 := fun b' => by
    rw [hloads, List.getD_eq_getElem?_getD, List.getElem?_replicate]
    split_ifs <;> rfl
  -- no bin before `b` is taken
  have hfirst : ∀ m ≤ b, (List.range m).foldl
      (fun best b' =>
        if s.binLoads.getD b' 0 < best.2 ∧ (s.binToDims.getD b' []).length < s.curBinThreshold then
          (b', s.binLoads.getD b' 0)
        else best) (n + 1, floatMax) = (n + 1, floatMax) := by
    intro m
    induction m with
    | zero => exact fun _ => rfl
    | succ m ih =>
        intro hm
        rw [List.range_succ, List.foldl_append, ih (by omega), List.foldl_cons, List.foldl_nil,
          if_neg fun h => hbefore m (by omega) h.2]
  -- and none behind it
  have hrest : ∀ k, b + 1 + k ≤ n → (List.range (b + 1 + k)).foldl
      (fun best b' =>
        if s.binLoads.getD b' 0 < best.2 ∧ (s.binToDims.getD b' []).length < s.curBinThreshold then
          (b', s.binLoads.getD b' 0)
        else best) (n + 1, floatMax) = (b, 0) := by
    intro k
    induction k with
    | zero =>
        intro _
        have hmax : s.binLoads.getD b 0 < floatMax := by
          rw [hload, floatMax]
          norm_num
        rw [Nat.add_zero, List.range_succ, List.foldl_append, hfirst b le_rfl, List.foldl_cons,
          List.foldl_nil, if_pos ⟨hmax, hroom⟩, hload]
    | succ k ih =>
        intro hk
        rw [← Nat.add_assoc, List.range_succ, List.foldl_append, ih (by omega), List.foldl_cons,
          List.foldl_nil, if_neg fun h => lt_irrefl (0 : ℚ) (by rw [hload] at h; exact h.1)]
  obtain ⟨k, hk⟩ := Nat.exists_eq_add_of_le (show b + 1 ≤ n from hb)
  have hall := hrest k hk.ge
  rw [← hk] at hall
  rw [findBin, hall]

/-- The dimension goes to the current bin. -/
lemma ChunkInv.findBin_eq (h : ChunkInv dim n d b s) (hn : 0 < n) (hd : d < dim) :
    (findBin n s).1 = b := by
  have hb := h.lt hn hd
  have hstart := h.start_le
  have hcur := h.current hd
  rw [chunkStart_succ] at hcur
  refine RedAnns.findBin_eq h.loads hb (fun b' hb' => ?_) ?_
  · -- a complete chunk is no smaller than the current one is to be
    have hle : chunkStart dim n (b' + 1) ≤ chunkStart dim n b := chunkStart_mono hb'
    rw [h.length_bin (hb'.trans hb), min_eq_right (hle.trans hstart), size_chunk, h.threshold,
      not_lt]
    split_ifs <;> omega
  · rw [h.length_bin hb, min_eq_left (by rw [chunkStart_succ]; exact hcur.le), h.threshold]
    generalize dim / n = q at hcur ⊢
    split_ifs at hcur ⊢ <;> omega

/-- The bins after the dimension has joined the current one. -/
lemma ChunkInv.bins_set (h : ChunkInv dim n d b s) (hd : d < dim) (hb : b < n) {b' : ℕ}
    (hb' : b' < n) :
    (s.binToDims.set b (List.range' (chunkStart dim n b) (d + 1 - chunkStart dim n b)))[b']?
      = some (List.range' (chunkStart dim n b')
          (min (d + 1) (chunkStart dim n (b' + 1)) - chunkStart dim n b')) := by
  have hstart := h.start_le
  have hcur := h.current hd
  rw [List.getElem?_set]
  rcases lt_trichotomy b' b with hlt | rfl | hgt
  · have hle : chunkStart dim n (b' + 1) ≤ chunkStart dim n b := chunkStart_mono hlt
    rw [if_neg (Nat.ne_of_gt hlt), h.bins b' hb', min_eq_right (by omega), min_eq_right (by omega)]
  · rw [if_pos rfl, if_pos (by rw [h.bins_length]; exact hb), min_eq_left hcur]
  · have hle : chunkStart dim n (b + 1) ≤ chunkStart dim n b' := chunkStart_mono hgt
    have hnext : chunkStart dim n b' ≤ chunkStart dim n (b' + 1) := chunkStart_mono (Nat.le_succ b')
    rw [if_neg (Nat.ne_of_lt hgt), h.bins b' hb', min_eq_left (by omega), min_eq_left (by omega),
      show d - chunkStart dim n b' = 0 by omega, show d + 1 - chunkStart dim n b' = 0 by omega]

/-- **One round**: the dimension joins the current bin, and the next bin becomes the current one
when this one is complete. -/
lemma assignDim_spec (h : ChunkInv dim n d b s) (hn : 0 < n) (hle : n ≤ dim) (hd : d < dim) :
    ∃ b' s', assignDim dim n s d = some s' ∧ ChunkInv dim n (d + 1) b' s' := by
  have hb := h.lt hn hd
  have hstart := h.start_le
  have hcur := h.current hd
  have hq : 0 < dim / n := Nat.div_pos hle hn
  have hsize := chunkStart_succ dim n b
  have hnext := chunkStart_succ dim n (b + 1)
  have hnum := h.numHigh
  have hthr := h.threshold
  have hdims : s.binToDims[b]? = some (List.range' (chunkStart dim n b)
      (d - chunkStart dim n b)) := by
    rw [h.bins b hb, min_eq_left hcur.le]
  have hjoin : List.range' (chunkStart dim n b) (d - chunkStart dim n b) ++ [d]
      = List.range' (chunkStart dim n b) (d + 1 - chunkStart dim n b) := by
    rw [show d + 1 - chunkStart dim n b = d - chunkStart dim n b + 1 by omega,
      List.range'_concat, Nat.one_mul, Nat.add_sub_cancel' hstart]
  rw [assignDim, h.findBin_eq hn hd]
  simp only [hdims, hjoin, List.length_range', Option.bind_eq_bind, Option.bind_some,
    highVal_eq hn, maxNumHigh_eq, lowVal_eq, hnum, hthr]
  -- the counters decide which bin is the current one
  have hinv : ∀ b' num thr, chunkStart dim n b' ≤ d + 1 →
      (d + 1 < dim → d + 1 < chunkStart dim n (b' + 1)) →
      num = (if dim % n = 0 then b' else min b' (dim % n)) →
      thr = (if dim % n ≤ b' then dim / n else dim / n + 1) →
      ChunkInv dim n (d + 1) b' ⟨s.binToDims.set b
        (List.range' (chunkStart dim n b) (d + 1 - chunkStart dim n b)), s.binLoads, num, thr⟩ :=
    fun b' num thr hs hc hn' ht => ⟨hs, hd, hc, by rw [List.length_set, h.bins_length],
      fun _ hb' => h.bins_set hd hb hb', h.loads, hn', ht⟩
  generalize dim / n = q at *
  by_cases hfull : d + 1 = chunkStart dim n (b + 1)
  · -- the chunk is complete
    have hlength : d + 1 - chunkStart dim n b = q + if b < dim % n then 1 else 0 := by omega
    have hsucc : d + 1 < dim → d + 1 < chunkStart dim n (b + 1 + 1) := fun _ => by omega
    by_cases hhigh : dim % n = 0 ∨ b < dim % n
    · have hcond : d + 1 - chunkStart dim n b = q + if dim % n = 0 then 0 else 1 := by
        rw [hlength]
        split_ifs <;> omega
      rw [if_pos hcond]
      refine ⟨b + 1, _, rfl, hinv (b + 1) _ _ hfull.ge hsucc ?_ ?_⟩
      · split_ifs <;> omega
      · split_ifs <;> omega
    · have hcond : ¬ d + 1 - chunkStart dim n b = q + if dim % n = 0 then 0 else 1 := by
        rw [hlength]
        split_ifs <;> omega
      rw [if_neg hcond]
      refine ⟨b + 1, _, rfl, hinv (b + 1) _ _ hfull.ge hsucc ?_ ?_⟩
      · split_ifs <;> omega
      · split_ifs <;> omega
  · have hcond : ¬ d + 1 - chunkStart dim n b = q + if dim % n = 0 then 0 else 1 := by
      split_ifs at hsize ⊢ <;> omega
    rw [if_neg hcond]
    exact ⟨b, _, rfl, hinv b _ _ (by omega) (fun _ => by omega) rfl rfl⟩

/-- The whole loop. -/
lemma exists_assignDims (hn : 0 < n) (hle : n ≤ dim) :
    ∃ b s, assignDims dim n = some s ∧ ChunkInv dim n dim b s := by
  have hstart : ChunkInv dim n 0 0 (startBinning dim n) := by
    refine
      { start_le := by rw [chunkStart_zero]
        le_dim := Nat.zero_le dim
        current := fun _ => ?_
        bins_length := List.length_replicate
        bins := fun b' hb' => ?_
        loads := rfl
        numHigh := by simp [startBinning]
        threshold := ?_ }
    · have hq : 0 < dim / n := Nat.div_pos hle hn
      rw [chunkStart_succ]
      omega
    · rw [startBinning, List.getElem?_replicate, if_pos hb', min_eq_left (Nat.zero_le _),
        Nat.zero_sub]
      rfl
    · show highVal dim n = _
      rw [highVal_eq hn]
      split_ifs <;> omega
  obtain ⟨s, hs, b, hinv⟩ := foldlM_range (f := assignDim dim n)
    (I := fun d s => ∃ b, ChunkInv dim n d b s)
    (fun d hd s ⟨b, hinv⟩ => by
      obtain ⟨b', s', hs', hinv'⟩ := assignDim_spec hinv hn hle hd
      exact ⟨s', hs', b', hinv'⟩)
    ⟨0, hstart⟩
  exact ⟨b, s, hs, hinv⟩

end Loop

/-! ### The chunks -/

section Chunks

variable {dim n b : ℕ} {s : Binning}

/-- After the loop every bin holds its chunk. -/
lemma ChunkInv.bin_eq (h : ChunkInv dim n dim b s) (hn : 0 < n) {b' : ℕ} (hb' : b' < n) :
    s.binToDims.getD b' [] = List.range' (chunkStart dim n b')
      (chunkStart dim n (b' + 1) - chunkStart dim n b') := by
  have hle : chunkStart dim n (b' + 1) ≤ dim := by
    calc chunkStart dim n (b' + 1)
        ≤ chunkStart dim n n := chunkStart_mono hb'
      _ = dim := chunkStart_last hn
  rw [List.getD_eq_getElem?_getD, h.bins b' hb', Option.getD_some, min_eq_right hle]

/-- `chunk_offsets` are the starts of the chunks. -/
lemma ChunkInv.chunkOffsetsOf_eq (h : ChunkInv dim n dim b s) (hn : 0 < n) :
    chunkOffsetsOf dim n s.binToDims = (List.range (n + 1)).map (chunkStart dim n) := by
  have key : ∀ m < n, (List.range (m + 1)).foldl
      (fun chunkOffsets b =>
        if 0 < b then
          chunkOffsets ++ [chunkOffsets.getD (b - 1) 0 + (s.binToDims.getD (b - 1) []).length]
        else chunkOffsets) [0] = (List.range (m + 1)).map (chunkStart dim n) := by
    intro m
    induction m with
    | zero => exact fun _ => by simp
    | succ m ih =>
        intro hm
        have hget : ((List.range (m + 1)).map (chunkStart dim n)).getD m 0
            = chunkStart dim n m := by
          rw [List.getD_eq_getElem?_getD, List.getElem?_map,
            List.getElem?_range (Nat.lt_succ_self m)]
          rfl
        have hmono : chunkStart dim n m ≤ chunkStart dim n (m + 1) :=
          chunkStart_mono (Nat.le_succ m)
        rw [List.range_succ, List.foldl_append, ih (by omega), List.foldl_cons, List.foldl_nil,
          if_pos (Nat.succ_pos m), List.map_append, List.map_singleton, Nat.add_sub_cancel, hget,
          h.bin_eq hn (by omega), List.length_range', Nat.add_sub_cancel' hmono]
  obtain ⟨m, rfl⟩ := Nat.exists_eq_succ_of_ne_zero hn.ne'
  rw [chunkOffsetsOf, key m (Nat.lt_succ_self m), List.range_succ (n := m + 1), List.map_append,
    List.map_singleton, chunkStart_last hn]

/-- **Consecutive, balanced chunks**: every dimension is in one bin, bin `b` holds the dimensions
from its offset up to the next one, and the sizes are the quotient rounded down or up, rounded up as
often as the remainder says. -/
structure ChunksBalanced (dim n : ℕ) (binToDims : List (List ℕ)) (chunkOffsets : List ℕ) :
    Prop where
  bins_length : binToDims.length = n
  offsets_length : chunkOffsets.length = n + 1
  first : chunkOffsets[0]? = some 0
  last : chunkOffsets[n]? = some dim
  mono : ∀ b < n, chunkOffsets.getD b 0 ≤ chunkOffsets.getD (b + 1) 0
  consecutive : ∀ b < n, binToDims[b]? = some (List.range' (chunkOffsets.getD b 0)
    (chunkOffsets.getD (b + 1) 0 - chunkOffsets.getD b 0))
  once : ∀ d < dim, ∃! b, b < n ∧ d ∈ binToDims.getD b []
  size : ∀ b < n, chunkOffsets.getD (b + 1) 0 - chunkOffsets.getD b 0 = lowVal dim n ∨
    chunkOffsets.getD (b + 1) 0 - chunkOffsets.getD b 0 = highVal dim n
  larger : dim % n ≠ 0 → ((Finset.range n).filter fun b =>
    chunkOffsets.getD (b + 1) 0 - chunkOffsets.getD b 0 = highVal dim n).card = dim % n

/-- Every dimension lies in one chunk. -/
lemma exists_chunk (hn : 0 < n) {d : ℕ} (hd : d < dim) :
    ∃ b < n, chunkStart dim n b ≤ d ∧ d < chunkStart dim n (b + 1) := by
  have key : ∀ m, d < chunkStart dim n m →
      ∃ b < m, chunkStart dim n b ≤ d ∧ d < chunkStart dim n (b + 1) := by
    intro m
    induction m with
    | zero => exact fun h => absurd h (by simp)
    | succ m ih =>
        intro h
        by_cases hm : d < chunkStart dim n m
        · obtain ⟨b, hb, hrest⟩ := ih hm
          exact ⟨b, Nat.lt_succ_of_lt hb, hrest⟩
        · exact ⟨m, Nat.lt_succ_self m, not_lt.mp hm, h⟩
  exact key n (by rwa [chunkStart_last hn])

/-- **PQ chunking splits the dimensions into consecutive, balanced chunks**, and never runs out of
bins. -/
theorem chunksBalanced (hn : 0 < n) (hle : n ≤ dim) : ∃ s, assignDims dim n = some s ∧
    ChunksBalanced dim n s.binToDims (chunkOffsetsOf dim n s.binToDims) := by
  obtain ⟨b, s, hs, hinv⟩ := exists_assignDims hn hle
  refine ⟨s, hs, ?_⟩
  rw [hinv.chunkOffsetsOf_eq hn]
  have hoffset : ∀ b ≤ n, ((List.range (n + 1)).map (chunkStart dim n)).getD b 0
      = chunkStart dim n b := fun b hb => by
    rw [List.getD_eq_getElem?_getD, List.getElem?_map, List.getElem?_range (Nat.lt_succ_of_le hb)]
    rfl
  have hdiff : ∀ b < n, ((List.range (n + 1)).map (chunkStart dim n)).getD (b + 1) 0
      - ((List.range (n + 1)).map (chunkStart dim n)).getD b 0
        = dim / n + if b < dim % n then 1 else 0 := fun b hb => by
    rw [hoffset b hb.le, hoffset (b + 1) hb, size_chunk]
  have hget : ∀ b ≤ n, ((List.range (n + 1)).map (chunkStart dim n))[b]?
      = some (chunkStart dim n b) := fun b hb => by
    rw [List.getElem?_map, List.getElem?_range (Nat.lt_succ_of_le hb)]
    rfl
  refine
    { bins_length := hinv.bins_length
      offsets_length := by rw [List.length_map, List.length_range]
      first := by rw [hget 0 (Nat.zero_le n), chunkStart_zero]
      last := by rw [hget n le_rfl, chunkStart_last hn]
      mono := fun b hb => by
        rw [hoffset b hb.le, hoffset (b + 1) hb]
        exact chunkStart_mono (Nat.le_succ b)
      consecutive := fun b hb => ?_
      once := fun d hd => ?_
      size := fun b hb => ?_
      larger := fun hrem => ?_ }
  · have hbound : chunkStart dim n (b + 1) ≤ dim := by
      calc chunkStart dim n (b + 1)
          ≤ chunkStart dim n n := chunkStart_mono hb
        _ = dim := chunkStart_last hn
    rw [hinv.bins b hb, min_eq_right hbound, hoffset b hb.le, hoffset (b + 1) hb]
  · obtain ⟨b, hb, hstart, hend⟩ := exists_chunk hn hd
    refine ⟨b, ⟨hb, ?_⟩, ?_⟩
    · rw [hinv.bin_eq hn hb, List.mem_range'_1]
      omega
    · rintro b' ⟨hb', hmem⟩
      rw [hinv.bin_eq hn hb', List.mem_range'_1] at hmem
      by_contra hne
      rcases Nat.lt_or_gt_of_ne hne with hlt | hgt
      · have hmono : chunkStart dim n (b' + 1) ≤ chunkStart dim n b := chunkStart_mono hlt
        omega
      · have hmono : chunkStart dim n (b + 1) ≤ chunkStart dim n b' := chunkStart_mono hgt
        omega
  · rw [hdiff b hb, lowVal_eq, highVal_eq hn]
    by_cases hsmall : b < dim % n
    · rw [if_pos hsmall, if_neg (by omega)]
      exact Or.inr rfl
    · rw [if_neg hsmall]
      exact Or.inl rfl
  · have hfilter : (Finset.range n).filter (fun b =>
        ((List.range (n + 1)).map (chunkStart dim n)).getD (b + 1) 0
          - ((List.range (n + 1)).map (chunkStart dim n)).getD b 0 = highVal dim n)
        = Finset.range (dim % n) := by
      ext b
      have hmod := Nat.mod_lt dim hn
      rw [Finset.mem_filter, Finset.mem_range, Finset.mem_range]
      constructor
      · rintro ⟨hb, heq⟩
        rw [hdiff b hb, highVal_eq hn, if_neg hrem] at heq
        by_contra hnot
        rw [if_neg hnot] at heq
        omega
      · intro hb
        refine ⟨hb.trans hmod, ?_⟩
        rw [hdiff b (hb.trans hmod), highVal_eq hn, if_neg hrem, if_pos hb]
    rw [hfilter, Finset.card_range]

/-- Ten dimensions in four chunks. -/
theorem chunksBalanced_ten : ∃ s, assignDims 10 4 = some s ∧
    ChunksBalanced 10 4 s.binToDims (chunkOffsetsOf 10 4 s.binToDims) :=
  chunksBalanced (by decide) (by decide)

end Chunks

end RedAnns
