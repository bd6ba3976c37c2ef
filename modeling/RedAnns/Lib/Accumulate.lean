import Mathlib.Algebra.BigOperators.Intervals
import Mathlib.Tactic

/-!
Buffers of numbers that loops fill in place.

A buffer is a function from indices to numbers, so a pointer into an array is the array from an
index on, and what an allocation leaves in it is arbitrary.

* `clear` is `memset` with zero, `addEach m p n x` the loop `m[p + i] += x[i]`.
* `foldl_addEach`: a loop of such loops over the same row adds up what every round adds, and leaves
  the rest of the buffer as it was.
* `foldl_addRows`, `foldl_rows`: a loop over disjoint rows fills, or changes, each one on its own.
* `foldl_add`: the same for a single accumulator; `sum_chunks`: a sum that is taken in chunks.
* `foldl_update_of_mem`, `Buffer.foldl_pushBack`: loops that write to scattered indices, or append
  to lists.
* `mapRows`: the loops over the rows and columns of a matrix that change every entry of a range of
  columns once (`mapRows_apply`).
-/

namespace RedAnns

/-- An array of numbers. -/
abbrev Buffer (K : Type*) := ℕ → K

section Scalar

variable {ι K : Type*} [AddCommMonoid K]

/-- An accumulating loop. -/
lemma foldl_add (f : ι → K) (js : List ι) (res : K) :
    js.foldl (fun res j => res + f j) res = res + (js.map f).sum := by
  induction js generalizing res with
  | nil => rw [List.foldl_nil, List.map_nil, List.sum_nil, add_zero]
  | cons j js ih => rw [List.foldl_cons, ih, List.map_cons, List.sum_cons, add_assoc]

end Scalar

/-- A sum in chunks of `size`. -/
lemma sum_chunks {K : Type*} [AddCommMonoid K] (f : ℕ → K) (n size : ℕ) (chunks : ℕ) :
    ∑ c ∈ Finset.range chunks, ∑ t ∈ Finset.range (min n ((c + 1) * size) - c * size),
      f (c * size + t) = ∑ d ∈ Finset.range (min n (chunks * size)), f d := by
  induction chunks with
  | zero => rw [Nat.zero_mul, Nat.min_zero]; rfl
  | succ k ih =>
      rw [Finset.sum_range_succ, ih]
      rcases Nat.le_total n (k * size) with hle | hle
      · have hrow : k * size ≤ (k + 1) * size := Nat.mul_le_mul_right size (Nat.le_succ k)
        rw [Nat.min_eq_left hle, Nat.min_eq_left (hle.trans hrow), Nat.sub_eq_zero_of_le hle,
          Finset.range_zero, Finset.sum_empty, add_zero]
      · have hsplit : min n ((k + 1) * size)
            = k * size + (min n ((k + 1) * size) - k * size) := by
          rw [Nat.succ_mul]
          omega
        rw [Nat.min_eq_right hle]
        conv_rhs => rw [hsplit]
        rw [Finset.sum_range_add]

/-- The row and the column of an index. -/
lemma row_of_index {n k : ℕ} (h : k < n) (i : ℕ) : (i * n + k) / n = i := by
  rw [Nat.mul_comm, Nat.mul_add_div (Nat.zero_lt_of_lt h), Nat.div_eq_of_lt h, Nat.add_zero]

lemma col_of_index {n k : ℕ} (h : k < n) (i : ℕ) : (i * n + k) % n = k := by
  rw [Nat.mul_comm, Nat.mul_add_mod, Nat.mod_eq_of_lt h]

/-- The indices of a matrix, row by row. -/
lemma flatMap_range_mul {β : Type*} (g : ℕ → List β) (rows cols : ℕ) :
    (List.range (rows * cols)).flatMap g
      = (List.range rows).flatMap fun p => (List.range cols).flatMap fun d => g (p * cols + d) := by
  induction rows with
  | zero => rw [Nat.zero_mul]; rfl
  | succ n ih =>
      rw [Nat.succ_mul, List.range_add, List.flatMap_append, ih, List.range_succ,
        List.flatMap_append, List.flatMap_singleton, List.flatMap_map]

/-- `l[c].push_back(x)`. -/
def Buffer.pushBack {α : Type*} (l : ℕ → List α) (c : ℕ) (x : α) : ℕ → List α :=
  Function.update l c (l c ++ [x])

/-- **A loop that appends to lists**: every list gets what has its key, in the order of the loop. -/
lemma Buffer.foldl_pushBack {ι α : Type*} (key : ι → ℕ) (item : ι → α) (is : List ι)
    (l : ℕ → List α) (c : ℕ) : is.foldl (fun l i => Buffer.pushBack l (key i) (item i)) l c
      = l c ++ (is.filter fun i => key i = c).map item := by
  induction is generalizing l with
  | nil => rw [List.filter_nil, List.map_nil, List.append_nil]; rfl
  | cons i is ih =>
      rw [List.foldl_cons, ih, Buffer.pushBack]
      by_cases h : key i = c
      · subst h
        rw [Function.update_self, List.filter_cons_of_pos (by simp), List.map_cons,
          List.append_assoc, List.singleton_append]
      · rw [Function.update_of_ne (Ne.symm h), List.filter_cons_of_neg (by simpa using h)]

namespace Buffer

variable {K : Type*}

/-- The buffer from the index `p` on. -/
def view (m : Buffer K) (p : ℕ) : Buffer K := fun i => m (p + i)

/-- `memcpy` of `n` entries to the index `p`. -/
def copy (m : Buffer K) (p n : ℕ) (x : ℕ → K) : Buffer K :=
  fun a => if p ≤ a ∧ a < p + n then x (a - p) else m a

/-- The first `n` entries. -/
def take (m : Buffer K) (n : ℕ) : List K := (List.range n).map m

@[simp] lemma length_take (m : Buffer K) (n : ℕ) : (m.take n).length = n := by simp [take]

section Scatter

variable {ι : Type*} {m : Buffer K} {idx : ι → ℕ} {val : ι → K} {is : List ι}

/-- The loop `m[idx(i)] = val(i)`: what stands at an index that is written, if the values for one
index agree. -/
lemma foldl_update_of_mem (h : ∀ i ∈ is, ∀ j ∈ is, idx i = idx j → val i = val j) {i : ι}
    (hi : i ∈ is) : is.foldl (fun m i => Function.update m (idx i) (val i)) m (idx i) = val i := by
  induction is using List.reverseRecOn with
  | nil => exact absurd hi List.not_mem_nil
  | append_singleton is j ih =>
      have hj : j ∈ is ++ [j] := List.mem_append_right _ (List.mem_singleton_self j)
      rw [List.foldl_concat]
      by_cases heq : idx i = idx j
      · rw [heq, Function.update_self]
        exact (h i hi j hj heq).symm
      · rw [Function.update_of_ne heq]
        have hmem : i ∈ is := by
          rcases List.mem_append.mp hi with hi | hi
          · exact hi
          · exact absurd (congrArg idx (List.mem_singleton.mp hi)) heq
        exact ih (fun i hi j hj => h i (List.mem_append_left _ hi) j
          (List.mem_append_left _ hj)) hmem

/-- The other indices keep what stood there. -/
lemma foldl_update_of_not_mem {a : ℕ} (h : ∀ i ∈ is, idx i ≠ a) :
    is.foldl (fun m i => Function.update m (idx i) (val i)) m a = m a := by
  induction is generalizing m with
  | nil => rfl
  | cons i is ih =>
      rw [List.foldl_cons, ih fun j hj => h j (List.mem_cons_of_mem i hj),
        Function.update_of_ne (h i (List.mem_cons_self ..)).symm]

end Scatter

lemma copy_of_mem {m : Buffer K} {p n a : ℕ} {x : ℕ → K} (h : p ≤ a ∧ a < p + n) :
    m.copy p n x a = x (a - p) := if_pos h

/-- `memcpy` of a row, seen from a row. -/
lemma copy_row {m : Buffer K} {x : ℕ → K} {i j n d : ℕ} (hd : d < n) :
    m.copy (j * n) n x (i * n + d) = if i = j then x d else m (i * n + d) := by
  rcases Nat.lt_trichotomy i j with hlt | rfl | hgt
  · have hrow := Nat.mul_le_mul_right n hlt
    rw [Nat.succ_mul] at hrow
    rw [copy, if_neg (by omega), if_neg (by omega)]
  · rw [copy_of_mem (by omega), if_pos rfl, Nat.add_sub_cancel_left]
  · have hrow := Nat.mul_le_mul_right n hgt
    rw [Nat.succ_mul] at hrow
    rw [copy, if_neg (by omega), if_neg (by omega)]

/-- A loop whose rounds change one row each, and do with it what depends on that row only. -/
lemma foldl_rows {f : Buffer K → ℕ → Buffer K} {n : ℕ}
    (hother : ∀ m c i d, i ≠ c → d < n → f m c (i * n + d) = m (i * n + d))
    (hrow : ∀ m m' c d, d < n → m (c * n + d) = m' (c * n + d) →
      f m c (c * n + d) = f m' c (c * n + d)) (m : Buffer K) (rows : ℕ) {i d : ℕ} (hd : d < n) :
    (List.range rows).foldl f m (i * n + d)
      = if i < rows then f m i (i * n + d) else m (i * n + d) := by
  induction rows with
  | zero => rfl
  | succ rows ih =>
      rw [List.range_succ, List.foldl_concat]
      by_cases hi : i = rows
      · subst hi
        rw [if_neg (lt_irrefl i)] at ih
        rw [if_pos (Nat.lt_succ_self i)]
        exact hrow _ _ i d hd ih
      · rw [hother _ _ _ _ hi hd, ih]
        exact if_congr (by omega) rfl rfl

/-- `for p < rows, k < cols: m[p * stride + off + k] = f p k (m[p * stride + off + k])`. -/
def mapRows (m : Buffer K) (rows cols stride off : ℕ) (f : ℕ → ℕ → K → K) : Buffer K :=
  (List.range rows).foldl (fun m p => (List.range cols).foldl (fun m k =>
    Function.update m (p * stride + off + k) (f p k (m (p * stride + off + k)))) m) m

section Rows

variable {m : Buffer K} {rows cols stride off : ℕ} {f : ℕ → ℕ → K → K}

/-- The loop over the columns of row `p`. -/
lemma foldl_cols (p a : ℕ) : (List.range cols).foldl (fun m k =>
      Function.update m (p * stride + off + k) (f p k (m (p * stride + off + k)))) m a
    = if p * stride + off ≤ a ∧ a < p * stride + off + cols then
        f p (a - (p * stride + off)) (m a)
      else m a := by
  induction cols with
  | zero => rw [if_neg (by omega)]; rfl
  | succ n ih =>
      rw [List.range_succ, List.foldl_append, List.foldl_cons, List.foldl_nil]
      by_cases ha : a = p * stride + off + n
      · subst ha
        rw [Function.update_self, ih, if_neg (by omega), if_pos (by omega), Nat.add_sub_cancel_left]
      · rw [Function.update_of_ne ha, ih]
        exact if_congr (by omega) rfl rfl

/-- **Every entry of the columns is changed once**, and nothing else. -/
theorem mapRows_apply (hoff : off + cols ≤ stride) {p d : ℕ} (hd : d < stride) :
    m.mapRows rows cols stride off f (p * stride + d)
      = if p < rows ∧ off ≤ d ∧ d < off + cols then f p (d - off) (m (p * stride + d))
        else m (p * stride + d) := by
  induction rows with
  | zero => rw [if_neg (by omega)]; rfl
  | succ n ih =>
      rw [mapRows, List.range_succ, List.foldl_append, ← mapRows, List.foldl_cons, List.foldl_nil,
        foldl_cols, ih]
      by_cases hp : p = n
      · subst hp
        by_cases hcol : off ≤ d ∧ d < off + cols
        · rw [if_pos (by omega), if_neg (by omega), if_pos ⟨Nat.lt_succ_self p, hcol⟩]
          congr 1
          omega
        · rw [if_neg (by omega), if_neg (by omega), if_neg (by omega)]
      · have hout : ¬ (n * stride + off ≤ p * stride + d ∧
            p * stride + d < n * stride + off + cols) := by
          rcases Nat.lt_or_gt_of_ne hp with hlt | hgt
          · have hrow := Nat.mul_le_mul_right stride hlt
            rw [Nat.succ_mul] at hrow
            omega
          · have hrow := Nat.mul_le_mul_right stride hgt
            rw [Nat.succ_mul] at hrow
            omega
        rw [if_neg hout]
        exact if_congr (by omega) rfl rfl

/-- Loops over whole rows change every entry. -/
lemma mapRows_all {p d : ℕ} (hp : p < rows) (hd : d < stride) :
    m.mapRows rows stride stride 0 f (p * stride + d) = f p d (m (p * stride + d)) := by
  rw [mapRows_apply (by omega) hd, if_pos ⟨hp, Nat.zero_le d, by omega⟩, Nat.sub_zero]

/-- One more row of one entry. -/
lemma mapRows_succ_entry (n : ℕ) : m.mapRows (n + 1) 1 1 0 f
    = Function.update (m.mapRows n 1 1 0 f) n (f n 0 (m.mapRows n 1 1 0 f n)) := by
  rw [mapRows, List.range_succ (n := n), List.foldl_append, ← mapRows, List.foldl_cons,
    List.foldl_nil, List.range_one, List.foldl_cons, List.foldl_nil, Nat.mul_one, Nat.add_zero]

/-- Loops over one entry a row. -/
lemma mapRows_entry {p : ℕ} (hp : p < rows) :
    m.mapRows rows 1 1 0 f p = f p 0 (m p) := by
  have h := mapRows_all (m := m) (f := f) hp Nat.one_pos
  rwa [Nat.mul_one, Nat.add_zero] at h

end Rows

variable [AddCommMonoid K]

/-- `memset` of the first `n` entries. -/
def clear (m : Buffer K) (n : ℕ) : Buffer K := fun a => if a < n then 0 else m a

/-- `m[p + i] += x[i]` for `i < n`. -/
def addEach (m : Buffer K) (p n : ℕ) (x : ℕ → K) : Buffer K :=
  (List.range n).foldl (fun m i => Function.update m (p + i) (m (p + i) + x i)) m

variable {m : Buffer K} {p n : ℕ} {x : ℕ → K}

@[simp] lemma clear_of_lt {a : ℕ} (h : a < n) : m.clear n a = 0 := if_pos h

lemma addEach_succ : m.addEach p (n + 1) x
    = Function.update (m.addEach p n x) (p + n) (m.addEach p n x (p + n) + x n) := by
  rw [addEach, List.range_succ, List.foldl_append]
  rfl

lemma addEach_of_outside {a : ℕ} (h : a < p ∨ p + n ≤ a) : m.addEach p n x a = m a := by
  induction n with
  | zero => rfl
  | succ n ih => rw [addEach_succ, Function.update_of_ne (by omega), ih (by omega)]

lemma addEach_of_lt {i : ℕ} (h : i < n) : m.addEach p n x (p + i) = m (p + i) + x i := by
  induction n with
  | zero => exact absurd h (Nat.not_lt_zero i)
  | succ n ih =>
      rw [addEach_succ]
      rcases eq_or_lt_of_le (Nat.le_of_lt_succ h) with rfl | hlt
      · rw [Function.update_self, addEach_of_outside (Or.inr le_rfl)]
      · rw [Function.update_of_ne (by omega), ih hlt]

section Loops

variable {ι : Type*} {f : ι → ℕ → K}

lemma foldl_addEach_of_outside (js : List ι) {a : ℕ} (h : a < p ∨ p + n ≤ a) :
    js.foldl (fun m j => addEach m p n (f j)) m a = m a := by
  induction js generalizing m with
  | nil => rfl
  | cons j js ih => rw [List.foldl_cons, ih, addEach_of_outside h]

/-- **Loops over one row** add up. -/
lemma foldl_addEach (js : List ι) {i : ℕ} (h : i < n) :
    js.foldl (fun m j => addEach m p n (f j)) m (p + i)
      = m (p + i) + (js.map fun j => f j i).sum := by
  induction js generalizing m with
  | nil => rw [List.foldl_nil, List.map_nil, List.sum_nil, add_zero]
  | cons j js ih =>
      rw [List.foldl_cons, ih, addEach_of_lt h, List.map_cons, List.sum_cons, add_assoc]

/-- The loop over rows of `size` entries, where row `c` is gone over by the loop `js c`. -/
def addRows (m : Buffer K) (size : ℕ) (js : ℕ → List ι) (f : ι → ℕ → K) (rows : ℕ) : Buffer K :=
  (List.range rows).foldl
    (fun m c => (js c).foldl (fun m j => addEach m (c * size) size (f j)) m) m

lemma addRows_succ (js : ℕ → List ι) (size rows : ℕ) : m.addRows size js f (rows + 1)
    = (js rows).foldl (fun m j => addEach m (rows * size) size (f j))
        (m.addRows size js f rows) := by
  rw [addRows, List.range_succ, List.foldl_append]
  rfl

/-- Rows that are still to come stay as they are. -/
lemma addRows_of_le (js : ℕ → List ι) (size : ℕ) {rows a : ℕ} (h : rows * size ≤ a) :
    m.addRows size js f rows a = m a := by
  induction rows with
  | zero => rfl
  | succ rows ih =>
      rw [Nat.succ_mul] at h
      rw [addRows_succ, foldl_addEach_of_outside _ (Or.inr h), ih (by omega)]

/-- **Rows are filled one by one.** -/
lemma addRows_apply (js : ℕ → List ι) (size : ℕ) {rows c i : ℕ} (hc : c < rows) (hi : i < size) :
    m.addRows size js f rows (c * size + i)
      = m (c * size + i) + ((js c).map fun j => f j i).sum := by
  induction rows with
  | zero => exact absurd hc (Nat.not_lt_zero c)
  | succ rows ih =>
      rw [addRows_succ]
      rcases eq_or_lt_of_le (Nat.le_of_lt_succ hc) with rfl | hlt
      · rw [foldl_addEach _ hi, addRows_of_le _ _ (Nat.le_add_right _ i)]
      · have hrow : (c + 1) * size ≤ rows * size := Nat.mul_le_mul_right size hlt
        rw [Nat.succ_mul] at hrow
        rw [foldl_addEach_of_outside _ (Or.inl (by omega)), ih hlt]

end Loops

end Buffer

end RedAnns
