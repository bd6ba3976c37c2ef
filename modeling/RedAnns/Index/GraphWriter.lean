import RedAnns.Index.GraphFile

/-!
The graph writer `write_vamana` of `scripts/build_vamana_graph.py`, against the loader.

* `writeVamana` writes the header with the size it expects and then row after row of a matrix
  of neighbour ids; `writeVamana_eq_ok` says when it finishes and what the file holds.
* `setAll` is where `load_vamana` puts the nodes of such a file: its counter is a `uint32_t`,
  so slots repeat from the node `2 ^ 32` on (`loadVamana_rows`).
* `loadVamana_writeVamana`: for as many rows as there are 32-bit ids, the loader reads the
  matrix back and stops at the end of the file.
-/

namespace RedAnns

open Bytes

/-! ### The writer -/

/-- `struct.pack` of a number into `w` bytes, which raises on a number that does not fit. -/
def pack (w n : ℕ) : Except String (List UInt8) :=
  if n < 256 ^ w then .ok (encodeNat w n) else .error "struct.error"

/-- The rows of a matrix. -/
def matrixRows {rows R : ℕ} (neighbors : Fin rows → Fin R → UInt32) : List (List VertexId) :=
  (List.ofFn neighbors).map List.ofFn

/-- `max_degree`: the columns of the matrix, or none when it has no entries. -/
def maxDegree (rows R : ℕ) : ℕ := if rows * R = 0 then 0 else R

/-- The bytes the writer adds for a row. -/
def packRow (row : List VertexId) : Except String (List UInt8) := do
  let k ← pack 4 row.length
  return k ++ encodeWords row

/-- `write_vamana`. -/
def writeVamana (n : ℕ) {rows R : ℕ} (neighbors : Fin rows → Fin R → UInt32) :
    Except String (List UInt8) := do
  if rows ≠ n then throw "invalid neighbors shape"
  let expectedFileSize := (8 + 4 + 4 + 8) + n * (4 + 4 * maxDegree rows R)
  let size ← pack 8 expectedFileSize
  let degree ← pack 4 (maxDegree rows R)
  let start ← pack 4 0
  let frozen ← pack 8 0
  let nodes ← (matrixRows neighbors).mapM packRow
  return size ++ degree ++ start ++ frozen ++ nodes.flatten

variable {n R : ℕ} {neighbors : Fin n → Fin R → UInt32} {bytes : List UInt8}

lemma pack_of_lt {w n : ℕ} (h : n < 256 ^ w) : pack w n = .ok (encodeNat w n) := if_pos h

lemma pack_eq_ok {w n : ℕ} (h : pack w n = .ok bytes) : n < 256 ^ w ∧ bytes = encodeNat w n := by
  rw [pack] at h
  split_ifs at h with hlt
  exact ⟨hlt, (Except.ok.inj h).symm⟩

@[simp] lemma length_matrixRows (neighbors : Fin n → Fin R → UInt32) :
    (matrixRows neighbors).length = n := by
  simp [matrixRows]

lemma length_of_mem_matrixRows {row : List VertexId} (h : row ∈ matrixRows neighbors) :
    row.length = R := by
  obtain ⟨f, -, rfl⟩ := List.mem_map.mp h
  exact List.length_ofFn

lemma length_encodeNodes_of {g : List (List VertexId)} (h : ∀ row ∈ g, row.length = R) :
    (encodeNodes g).length = g.length * (4 + 4 * R) := by
  induction g with
  | nil => simp
  | cons row g ih =>
      rw [encodeNodes_cons, List.length_append, length_encodeNode,
        h row (List.mem_cons_self ..), ih fun row hrow => h row (List.mem_cons_of_mem _ hrow),
        List.length_cons]
      ring

/-- The bytes of the rows are as many as the writer expects. -/
lemma fileSize_matrixRows (neighbors : Fin n → Fin R → UInt32) :
    fileSize (matrixRows neighbors) = (8 + 4 + 4 + 8) + n * (4 + 4 * maxDegree n R) := by
  rw [fileSize, vamanaMetadataSize, length_encodeNodes_of fun _ h => length_of_mem_matrixRows h,
    length_matrixRows, maxDegree]
  by_cases h : n * R = 0
  · rcases Nat.mul_eq_zero.mp h with rfl | rfl
    · simp
    · simp
  · rw [if_neg h]

/-- The header of the file of a matrix. -/
def matrixHeader (n R : ℕ) : List UInt8 :=
  encodeNat 8 ((8 + 4 + 4 + 8) + n * (4 + 4 * maxDegree n R)) ++ encodeNat 4 (maxDegree n R) ++
    encodeNat 4 0 ++ encodeNat 8 0

lemma packRow_of_lt {row : List VertexId} (h : row.length < 2 ^ 32) :
    packRow row = .ok (encodeNode row) := by
  rw [packRow, pack_of_lt (by omega)]
  rfl

lemma mapM_packRow {g : List (List VertexId)} (h : ∀ row ∈ g, row.length < 2 ^ 32) :
    g.mapM packRow = .ok (g.map encodeNode) := by
  induction g with
  | nil => rfl
  | cons row g ih =>
      rw [List.mapM_cons, packRow_of_lt (h row (List.mem_cons_self ..)),
        ih fun row hrow => h row (List.mem_cons_of_mem _ hrow)]
      rfl

/-- Rows are as short as the header's degree has to be. -/
lemma length_lt_of_mem_matrixRows (hdegree : maxDegree n R < 2 ^ 32) {row : List VertexId}
    (h : row ∈ matrixRows neighbors) : row.length < 2 ^ 32 := by
  have hn : 0 < n := by
    rw [← length_matrixRows neighbors]
    exact List.length_pos_of_mem h
  rw [length_of_mem_matrixRows h]
  rw [maxDegree] at hdegree
  split_ifs at hdegree with hzero
  · rcases Nat.mul_eq_zero.mp hzero with h | h <;> omega
  · exact hdegree

/-- **When the writer finishes, and what it has written.** -/
theorem writeVamana_eq_ok : writeVamana n neighbors = .ok bytes ↔
    fileSize (matrixRows neighbors) < 2 ^ 64 ∧ maxDegree n R < 2 ^ 32 ∧
      bytes = matrixHeader n R ++ encodeNodes (matrixRows neighbors) := by
  have hfile : fileSize (matrixRows neighbors) < 2 ^ 64 → maxDegree n R < 2 ^ 32 →
      writeVamana n neighbors = .ok (matrixHeader n R ++ encodeNodes (matrixRows neighbors)) := by
    intro hsize hdegree
    rw [fileSize_matrixRows] at hsize
    rw [writeVamana]
    simp only [ne_eq, not_true_eq_false, if_false, bind, Except.bind, pack_of_lt
      (show (8 + 4 + 4 + 8) + n * (4 + 4 * maxDegree n R) < 256 ^ 8 by omega),
      pack_of_lt (show maxDegree n R < 256 ^ 4 by omega),
      pack_of_lt (show 0 < 256 ^ 4 by norm_num), pack_of_lt (show 0 < 256 ^ 8 by norm_num),
      mapM_packRow fun row hrow => length_lt_of_mem_matrixRows hdegree hrow]
    rfl
  constructor
  · intro h
    have hpacked : fileSize (matrixRows neighbors) < 2 ^ 64 ∧ maxDegree n R < 2 ^ 32 := by
      rw [writeVamana] at h
      simp only [ne_eq, not_true_eq_false, if_false, bind, Except.bind] at h
      split at h
      · cases h
      rename_i hsize
      split at h
      · cases h
      rename_i hdegree
      rw [fileSize_matrixRows]
      exact ⟨by simpa using (pack_eq_ok hsize).1, by simpa using (pack_eq_ok hdegree).1⟩
    obtain ⟨hsize, hdegree⟩ := hpacked
    exact ⟨hsize, hdegree, (Except.ok.inj ((hfile hsize hdegree).symm.trans h)).symm⟩
  · rintro ⟨hsize, hdegree, rfl⟩
    exact hfile hsize hdegree

/-! ### Reading the rows back -/

/-- Where nodes go from the count `i` on: the counter of the loader has 32 bits. -/
def setAll : ℕ → List (List VertexId) → List (List VertexId) → List (List VertexId)
  | _, [], graph => graph
  | i, nbrs :: g, graph => setAll (i + 1) g (graph.set (i % 2 ^ 32) nbrs)

/-- Slots from `2 ^ 32` on are never written. -/
lemma getElem?_setAll {k : ℕ} (hk : 2 ^ 32 ≤ k) (g : List (List VertexId)) :
    ∀ i graph, (setAll i g graph)[k]? = graph[k]? := by
  induction g with
  | nil => exact fun _ _ => rfl
  | cons nbrs g ih =>
      intro i graph
      have hne : i % 2 ^ 32 ≠ k := by omega
      rw [setAll, ih, List.getElem?_set_ne hne]

/-- As many nodes as there are 32-bit numbers fill the slots one after the other. -/
lemma setAll_eq (g : List (List VertexId)) : ∀ i graph, i + g.length = graph.length →
    graph.length ≤ 2 ^ 32 → setAll i g graph = graph.take i ++ g := by
  induction g with
  | nil =>
      intro i graph hlen _
      rw [setAll, List.append_nil, List.take_of_length_le (by simp at hlen; omega)]
  | cons nbrs g ih =>
      intro i graph hlen hle
      rw [List.length_cons] at hlen
      rw [setAll, Nat.mod_eq_of_lt (by omega),
        ih _ _ (by rw [List.length_set]; omega) (by rwa [List.length_set]),
        List.take_succ_eq_append_getElem (by rw [List.length_set]; omega),
        List.getElem_set_self, List.take_set_of_le le_rfl, List.append_assoc]
      rfl

/-- The loop over the bytes of some nodes, up to the size where they end. -/
lemma whileLoopM_nodes {size : ℕ} (hsize : size < 2 ^ 64) (rest : List UInt8)
    {g : List (List VertexId)} (hlt : ∀ nbrs ∈ g, nbrs.length < 2 ^ 32) (fuel : ℕ) :
    ∀ i s, s.rest = encodeNodes g ++ rest → s.nodesRead = i % 2 ^ 32 →
      (∀ j < g.length, (i + j) % 2 ^ 32 < s.graph.length) →
      s.bytesRead + (encodeNodes g).length = size →
      whileLoopM (unread size) readNode (g.length + fuel) s =
        .ok ⟨setAll i g s.graph, size, (i + g.length) % 2 ^ 32, rest⟩ := by
  induction g with
  | nil =>
      intro i s hrest hnodes _ hbytes
      have hdone : unread size s = false := by simpa [unread] using hbytes
      obtain ⟨graph, bytesRead, nodesRead, srest⟩ := s
      rw [whileLoopM_of_false hdone]
      simp only [encodeNodes_nil, List.nil_append, List.length_nil, Nat.add_zero] at *
      rw [setAll, hrest, hnodes, hbytes]
  | cons nbrs g ih =>
      intro i s hrest hnodes hslots hbytes
      rw [encodeNodes_cons, List.length_append] at hbytes
      have hnode := length_encodeNode nbrs
      have hmore : unread size s = true := by
        rw [unread, decide_eq_true_eq]
        omega
      have hslot : s.nodesRead % 2 ^ 32 < s.graph.length := by
        have := hslots 0 (by simp)
        rwa [hnodes, Nat.mod_mod]
      rw [encodeNodes_cons, List.append_assoc] at hrest
      have hread := readNode_of_node s hrest (hlt nbrs (List.mem_cons_self ..))
      rw [if_pos hslot] at hread
      rw [List.length_cons, Nat.add_right_comm, whileLoopM_of_ok hmore hread,
        ih (fun l hl => hlt l (List.mem_cons_of_mem _ hl)) (i + 1) _ rfl]
      · rw [setAll, VamanaLoop.put, hnodes, Nat.mod_mod, Nat.add_right_comm, Nat.add_assoc]
      · rw [VamanaLoop.put, hnodes]
        simp
      · intro j hj
        rw [VamanaLoop.put, List.length_set]
        have := hslots (j + 1) (by rw [List.length_cons]; omega)
        rwa [Nat.add_assoc, Nat.add_comm 1 j]
      · rw [VamanaLoop.put]
        show (s.bytesRead + (encodeNode nbrs).length) % 2 ^ 64 + (encodeNodes g).length = size
        rw [Nat.mod_eq_of_lt (by omega)]
        omega

lemma readHeader_matrixHeader (hsize : fileSize (matrixRows neighbors) < 2 ^ 64)
    (hdegree : maxDegree n R < 2 ^ 32) (body : List UInt8) :
    readHeader (matrixHeader n R ++ body) =
      .ok (⟨fileSize (matrixRows neighbors), maxDegree n R, 0, 0⟩, body) := by
  rw [matrixHeader, ← fileSize_matrixRows neighbors]
  simp only [readHeader, List.append_assoc, bind, Except.bind,
    readNumber_append (length_encodeNat _ _),
    decodeNat_encodeNat (show fileSize (matrixRows neighbors) < 256 ^ 8 by omega),
    decodeNat_encodeNat (show maxDegree n R < 256 ^ 4 by omega),
    decodeNat_encodeNat (show 0 < 256 ^ 4 by norm_num),
    decodeNat_encodeNat (show 0 < 256 ^ 8 by norm_num)]
  rfl

lemma length_le_encodeNodes (g : List (List VertexId)) : g.length ≤ (encodeNodes g).length := by
  induction g with
  | nil => exact Nat.zero_le _
  | cons nbrs g ih =>
      rw [encodeNodes_cons, List.length_append, length_encodeNode, List.length_cons]
      omega

/-- **What the loader makes of a file the writer finished**, for any number of rows. -/
theorem loadVamana_rows (hwrite : writeVamana n neighbors = .ok bytes)
    (graph : List (List VertexId)) :
    loadVamana bytes n graph = .ok ⟨setAll 0 (matrixRows neighbors) (resize n graph),
      maxDegree n R, 0, bytes.length⟩ ∧ declaredSize bytes = bytes.length := by
  obtain ⟨hsize, hdegree, rfl⟩ := writeVamana_eq_ok.mp hwrite
  have hheader : (matrixHeader n R).length = vamanaMetadataSize := by simp [matrixHeader]; rfl
  have hlength : (matrixHeader n R ++ encodeNodes (matrixRows neighbors)).length =
      fileSize (matrixRows neighbors) := by
    rw [List.length_append, hheader, fileSize]
  have hdeclared : declaredSize (matrixHeader n R ++ encodeNodes (matrixRows neighbors)) =
      fileSize (matrixRows neighbors) := by
    rw [declaredSize, matrixHeader, List.append_assoc, List.append_assoc, List.append_assoc,
      List.take_left' (length_encodeNat _ _), ← fileSize_matrixRows neighbors,
      decodeNat_encodeNat (by omega)]
  refine ⟨?_, hdeclared.trans hlength.symm⟩
  have hfuel : (matrixHeader n R ++ encodeNodes (matrixRows neighbors)).length =
      (matrixRows neighbors).length + (fileSize (matrixRows neighbors) - n) := by
    have := length_le_encodeNodes (matrixRows neighbors)
    rw [length_matrixRows] at this ⊢
    rw [hlength, fileSize]
    omega
  have hloop := whileLoopM_nodes hsize []
    (fun row hrow => length_lt_of_mem_matrixRows hdegree hrow)
    (fileSize (matrixRows neighbors) - n) 0
    ⟨resize n graph, vamanaMetadataSize, 0, encodeNodes (matrixRows neighbors)⟩
    (List.append_nil _).symm rfl (fun j hj => ?_) rfl
  · rw [loadVamana, hfuel, readHeader_matrixHeader hsize hdegree]
    simp only [bind, Except.bind, hloop, unread, ne_eq, not_true_eq_false, decide_false,
      Bool.false_eq_true, if_false]
    rw [← hfuel, hlength]
    rfl
  · rw [length_matrixRows] at hj
    show (0 + j) % 2 ^ 32 < (resize n graph).length
    rw [length_resize, Nat.zero_add]
    exact (Nat.mod_le _ _).trans_lt hj

/-- **The writer and the loader agree** on matrices of at most `2 ^ 32` rows: the loader reads
back the rows, the out-degree and the start, and stops where the file ends. -/
theorem loadVamana_writeVamana (hn : n ≤ 2 ^ 32) (hwrite : writeVamana n neighbors = .ok bytes)
    (graph : List (List VertexId)) :
    loadVamana bytes n graph = .ok ⟨matrixRows neighbors, maxDegree n R, 0, bytes.length⟩ ∧
      declaredSize bytes = bytes.length := by
  obtain ⟨hload, hsize⟩ := loadVamana_rows hwrite graph
  rw [setAll_eq _ _ _ (by rw [length_matrixRows, length_resize, Nat.zero_add])
    (by rwa [length_resize]), List.take_zero, List.nil_append] at hload
  exact ⟨hload, hsize⟩

/-- Two vertices, each the other's neighbour. -/
def twoRows : Fin 2 → Fin 1 → UInt32 := ![![1], ![0]]

theorem loadVamana_writeVamana_twoRows : ∃ bytes, writeVamana 2 twoRows = .ok bytes ∧
    loadVamana bytes 2 [] = .ok ⟨matrixRows twoRows, maxDegree 2 1, 0, bytes.length⟩ ∧
      declaredSize bytes = bytes.length :=
  ⟨_, rfl, loadVamana_writeVamana (by norm_num) rfl []⟩

/-- With more rows than 32-bit ids, the slot `2 ^ 32` stays as it was. -/
lemma graph_ne_of_lt (hn : 2 ^ 32 < n) (hR : 0 < R) (hwrite : writeVamana n neighbors = .ok bytes)
    {out : VamanaGraph} (hload : loadVamana bytes n [] = .ok out) :
    out.graph ≠ matrixRows neighbors := by
  rw [(loadVamana_rows hwrite []).1] at hload
  obtain rfl := Except.ok.inj hload
  intro heq
  have hslot := congrArg (·[2 ^ 32]?) heq
  obtain ⟨row, hrow⟩ : ∃ row, (matrixRows neighbors)[2 ^ 32]? = some row :=
    ⟨_, List.getElem?_eq_getElem (by rwa [length_matrixRows])⟩
  have hempty : (resize n [])[2 ^ 32]? = some [] := by
    rw [resize, List.take_nil, List.nil_append, List.length_nil, List.getElem?_replicate,
      if_pos (by omega)]
  simp only [getElem?_setAll le_rfl, hempty, hrow, Option.some.injEq] at hslot
  have hlength := length_of_mem_matrixRows (List.mem_of_getElem? hrow)
  rw [← hslot, List.length_nil] at hlength
  omega

/-- A matrix with one row more than there are 32-bit ids. -/
def tooManyRows : Fin (2 ^ 32 + 1) → Fin 1 → UInt32 := fun _ _ => 0

/-- That matrix is written and not read back. -/
theorem not_loadVamana_writeVamana_tooManyRows :
    ∃ bytes, writeVamana (2 ^ 32 + 1) tooManyRows = .ok bytes ∧
      ∀ out, loadVamana bytes (2 ^ 32 + 1) [] = .ok out → out.graph ≠ matrixRows tooManyRows := by
  have hlt : 2 ^ 32 < 2 ^ 32 + 1 := by norm_num
  have hdegree : maxDegree (2 ^ 32 + 1) 1 = 1 := by simp [maxDegree]
  have hsize : fileSize (matrixRows tooManyRows) < 2 ^ 64 := by
    rw [fileSize_matrixRows, hdegree]
    norm_num
  have hwrite := writeVamana_eq_ok.mpr ⟨hsize, by rw [hdegree]; norm_num, rfl⟩
  exact ⟨_, hwrite, fun out hload => graph_ne_of_lt hlt one_pos hwrite hload⟩

end RedAnns
