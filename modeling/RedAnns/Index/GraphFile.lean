import RedAnns.Index.BaseSet
import RedAnns.Lib.Loop
import RedAnns.Lib.Streams

/-!
Graph files: `load_vamana` of `include/common.h` and its callers `load_base_graph` and
`load_learn_graph` of `src/index.cpp`.

A file is a header of 24 bytes, whose first number is the size of the file, and then node
after node, an out-degree and as many neighbour ids.

* `loadVamana`: the loop that reads nodes until a running byte count equals the size, and puts
  each one into the next slot of a vector that was sized beforehand.
* `FollowsHeader file g`: the bytes behind the header start with the nodes `g`. Two such lists
  agree as far as they go (`FollowsHeader.prefix_or`), and `readNode_cases` says what a round
  of the loop does in terms of the next node.
* `Stores file g`: the nodes end where the header says. `loadVamana_cases` describes every
  outcome in these terms, and `loadBaseGraph_enforces_iff` says for which files the size
  check of the callers does what it is for.
-/

namespace RedAnns

open Bytes

/-! ### The loader -/

/-- How a load ends when it does not return: an exception, a write outside the vector, a
division by zero, or a loop that has not left. -/
inductive LoadFault where
  | thrown (what : String)
  | outOfBounds (slot : ℕ)
  | divisionByZero
  | unfinished
  deriving DecidableEq

/-- `in.read` of a stream that throws on failure. -/
def readBytes (n : ℕ) (rest : List UInt8) : Except LoadFault (List UInt8 × List UInt8) :=
  match takeExact n rest with
  | some out => .ok out
  | none => .error (.thrown "basic_ios::clear: iostream error")

/-- `in.read` into an unsigned number of `w` bytes. -/
def readNumber (w : ℕ) (rest : List UInt8) : Except LoadFault (ℕ × List UInt8) := do
  let (bs, rest) ← readBytes w rest
  return (decodeNat bs, rest)

/-- The header of a graph file. -/
structure VamanaHeader where
  expectedFileSize : ℕ
  maxObservedDegree : ℕ
  start : ℕ
  fileFrozenPts : ℕ

def readHeader (file : List UInt8) : Except LoadFault (VamanaHeader × List UInt8) := do
  let (expectedFileSize, rest) ← readNumber 8 file
  let (maxObservedDegree, rest) ← readNumber 4 rest
  let (start, rest) ← readNumber 4 rest
  let (fileFrozenPts, rest) ← readNumber 8 rest
  return (⟨expectedFileSize, maxObservedDegree, start, fileFrozenPts⟩, rest)

/-- `vamana_metadata_size`. -/
def vamanaMetadataSize : ℕ := 8 + 4 + 4 + 8

/-- The variables of the loop, and what the stream has left. -/
structure VamanaLoop where
  graph : List (List VertexId)
  bytesRead : ℕ
  nodesRead : ℕ
  rest : List UInt8

/-- The condition of the loop. -/
def unread (expectedFileSize : ℕ) (s : VamanaLoop) : Bool :=
  decide (s.bytesRead ≠ expectedFileSize)

/-- One round: `nodes_read` is a `uint32_t` and `bytes_read` a `size_t`. -/
def readNode (s : VamanaLoop) : Except LoadFault VamanaLoop := do
  let (k, rest) ← readNumber 4 s.rest
  let nodesRead := (s.nodesRead + 1) % 2 ^ 32
  let (tmp, rest) ← readBytes (4 * k) rest
  let slot := (nodesRead + (2 ^ 32 - 1)) % 2 ^ 32
  if slot < s.graph.length then
    return ⟨s.graph.set slot (decodeWords k tmp), (s.bytesRead + 4 * (k + 1)) % 2 ^ 64,
      nodesRead, rest⟩
  else throw (.outOfBounds slot)

/-- `std::vector::resize`. -/
def resize (n : ℕ) (graph : List (List VertexId)) : List (List VertexId) :=
  graph.take n ++ List.replicate (n - graph.length) []

/-- What `load_vamana` hands back, and the byte count its loop stopped at. -/
structure VamanaGraph where
  graph : List (List VertexId)
  maxObservedDegree : ℕ
  start : ℕ
  bytesRead : ℕ
  deriving DecidableEq

/-- `load_vamana`, on the vector `graph` of the caller. Every round takes four bytes at least,
so the length of the file is fuel enough (`loadVamana_cases`). -/
def loadVamana (file : List UInt8) (expectedNumPoints : ℕ) (graph : List (List VertexId)) :
    Except LoadFault VamanaGraph := do
  let (header, rest) ← readHeader file
  let s ← whileLoopM (unread header.expectedFileSize) readNode file.length
    ⟨resize expectedNumPoints graph, vamanaMetadataSize, 0, rest⟩
  if unread header.expectedFileSize s then throw .unfinished
  return ⟨s.graph, header.maxObservedDegree, header.start, s.bytesRead⟩

/-- The part `load_base_graph` and `load_learn_graph` share: `check_degree` divides by the
number of lists, and the size is checked at the end. -/
def loadGraph (what : String) (file : List UInt8) (num : ℕ) (graph : List (List VertexId)) :
    Except LoadFault VamanaGraph := do
  let out ← loadVamana file num graph
  if out.graph.length = 0 then throw .divisionByZero
  let out := { out with maxObservedDegree := checkDegree out.graph out.maxObservedDegree }
  if num ≠ out.graph.length then throw (.thrown what)
  return out

/-- `load_base_graph`. -/
def loadBaseGraph := loadGraph "error@load_graph: uncorrect graph size."

/-- `load_learn_graph`. -/
def loadLearnGraph := loadGraph "error@load_learn_graph: uncorrect graph size."

/-! ### Nodes behind a header -/

/-- The bytes of a node. -/
def encodeNode (nbrs : List VertexId) : List UInt8 :=
  encodeNat 4 nbrs.length ++ encodeWords nbrs

/-- The bytes of a list of nodes. -/
def encodeNodes (g : List (List VertexId)) : List UInt8 := g.flatMap encodeNode

/-- The bytes start with the nodes `g`; out-degrees are words. -/
def StartsWith (bs : List UInt8) (g : List (List VertexId)) (rest : List UInt8) : Prop :=
  bs = encodeNodes g ++ rest ∧ ∀ nbrs ∈ g, nbrs.length < 2 ^ 32

@[simp] lemma length_encodeNode (nbrs : List VertexId) :
    (encodeNode nbrs).length = 4 * (nbrs.length + 1) := by
  rw [encodeNode, List.length_append, length_encodeNat, length_encodeWords]
  omega

@[simp] lemma encodeNodes_nil : encodeNodes [] = [] := rfl

@[simp] lemma encodeNodes_cons (nbrs : List VertexId) (g : List (List VertexId)) :
    encodeNodes (nbrs :: g) = encodeNode nbrs ++ encodeNodes g := List.flatMap_cons

lemma encodeNodes_append (g g' : List (List VertexId)) :
    encodeNodes (g ++ g') = encodeNodes g ++ encodeNodes g' := List.flatMap_append

variable {bs bs' rest rest' file : List UInt8} {g g' : List (List VertexId)}
  {nbrs nbrs' : List VertexId}

/-- A node can be told from what follows it. -/
lemma encodeNode_inj (h : encodeNode nbrs ++ bs = encodeNode nbrs' ++ bs')
    (hlt : nbrs.length < 2 ^ 32) (hlt' : nbrs'.length < 2 ^ 32) : nbrs = nbrs' ∧ bs = bs' := by
  rw [encodeNode, encodeNode, List.append_assoc, List.append_assoc] at h
  obtain ⟨hnum, hrest⟩ := List.append_inj h (by rw [length_encodeNat, length_encodeNat])
  have hlen : nbrs.length = nbrs'.length := by
    have := congrArg decodeNat hnum
    rwa [decodeNat_encodeNat (by omega), decodeNat_encodeNat (by omega)] at this
  obtain ⟨hwords, hbs⟩ := List.append_inj hrest
    (by rw [length_encodeWords, length_encodeWords, hlen])
  refine ⟨?_, hbs⟩
  rw [← decodeWords_encodeWords nbrs, ← decodeWords_encodeWords nbrs', hwords, hlen]

/-- **Two lists of nodes at the same place agree** as far as the shorter one goes, and where
it ends the other one goes on. -/
theorem StartsWith.prefix_or (h : StartsWith bs g rest) (h' : StartsWith bs g' rest') :
    (∃ t, g' = g ++ t ∧ StartsWith rest t rest') ∨ ∃ t, g = g' ++ t ∧ StartsWith rest' t rest := by
  induction g generalizing bs g' with
  | nil =>
      obtain ⟨rfl, -⟩ := h
      exact Or.inl ⟨g', rfl, h'⟩
  | cons nbrs g ih =>
      cases g' with
      | nil =>
          obtain ⟨rfl, -⟩ := h'
          exact Or.inr ⟨nbrs :: g, rfl, h⟩
      | cons nbrs' g' =>
          obtain ⟨rfl, hlt⟩ := h
          obtain ⟨heq, hlt'⟩ := h'
          rw [encodeNodes_cons, encodeNodes_cons, List.append_assoc, List.append_assoc] at heq
          obtain ⟨rfl, hrest⟩ := encodeNode_inj heq (hlt _ (List.mem_cons_self ..))
            (hlt' _ (List.mem_cons_self ..))
          have hnext := ih ⟨rfl, fun n hn => hlt n (List.mem_cons_of_mem _ hn)⟩
            ⟨hrest, fun n hn => hlt' n (List.mem_cons_of_mem _ hn)⟩
          rcases hnext with ⟨t, rfl, ht⟩ | ⟨t, rfl, ht⟩
          · exact Or.inl ⟨t, rfl, ht⟩
          · exact Or.inr ⟨t, rfl, ht⟩

/-- The size of the file according to its header. -/
def declaredSize (file : List UInt8) : ℕ := decodeNat (file.take 8)

/-- The size of a file with the nodes `g`. -/
def fileSize (g : List (List VertexId)) : ℕ := vamanaMetadataSize + (encodeNodes g).length

/-- Behind the header the file goes on with the nodes `g`. -/
def FollowsHeader (file : List UInt8) (g : List (List VertexId)) : Prop :=
  vamanaMetadataSize ≤ file.length ∧ ∃ rest, StartsWith (file.drop vamanaMetadataSize) g rest

/-- **The adjacency lists a file stores**: the nodes behind the header, up to the declared
size. -/
def Stores (file : List UInt8) (g : List (List VertexId)) : Prop :=
  FollowsHeader file g ∧ declaredSize file = fileSize g

/-- More than `n` nodes come before the declared size is met. -/
def Overlong (file : List UInt8) (n : ℕ) : Prop :=
  ∃ g, FollowsHeader file g ∧ g.length = n + 1 ∧ ∀ i ≤ n, declaredSize file ≠ fileSize (g.take i)

lemma fileSize_append (g g' : List (List VertexId)) :
    fileSize (g ++ g') = fileSize g + (encodeNodes g').length := by
  rw [fileSize, fileSize, encodeNodes_append, List.length_append, Nat.add_assoc]

lemma FollowsHeader.fileSize_le (h : FollowsHeader file g) : fileSize g ≤ file.length := by
  obtain ⟨hle, rest, heq, -⟩ := h
  have hlen := congrArg List.length heq
  rw [List.length_drop, List.length_append] at hlen
  rw [fileSize]
  omega

/-- A file stores one list of nodes at most. -/
lemma Stores.unique (h : Stores file g) (h' : Stores file g') : g = g' := by
  have hempty : ∀ {l t : List (List VertexId)}, fileSize l = fileSize (l ++ t) → t = [] := by
    intro l t hsize
    rw [fileSize_append] at hsize
    cases t with
    | nil => rfl
    | cons nbrs t =>
        rw [encodeNodes_cons, List.length_append, length_encodeNode] at hsize
        omega
  obtain ⟨⟨-, rest, hstart⟩, hsize⟩ := h
  obtain ⟨⟨-, rest', hstart'⟩, hsize'⟩ := h'
  rcases hstart.prefix_or hstart' with ⟨t, rfl, -⟩ | ⟨t, rfl, -⟩
  · rw [hempty (hsize.symm.trans hsize'), List.append_nil]
  · rw [hempty (hsize'.symm.trans hsize), List.append_nil]

/-! ### One round -/

lemma readBytes_append {n : ℕ} (h : bs.length = n) (rest : List UInt8) :
    readBytes n (bs ++ rest) = .ok (bs, rest) := by
  rw [readBytes, takeExact_of_length h]

lemma readBytes_of_lt {n : ℕ} (h : bs.length < n) :
    ∃ what, readBytes n bs = .error (.thrown what) := by
  rw [readBytes, takeExact, if_neg (by omega)]
  exact ⟨_, rfl⟩

lemma readNumber_append {w : ℕ} (h : bs.length = w) (rest : List UInt8) :
    readNumber w (bs ++ rest) = .ok (decodeNat bs, rest) := by
  rw [readNumber, readBytes_append h]
  rfl

lemma readNumber_of_lt {w : ℕ} (h : bs.length < w) :
    ∃ what, readNumber w bs = .error (.thrown what) := by
  obtain ⟨what, hw⟩ := readBytes_of_lt h
  exact ⟨what, by rw [readNumber, hw]; rfl⟩

/-- The state after the node `nbrs` has gone into its slot. -/
def VamanaLoop.put (s : VamanaLoop) (nbrs : List VertexId) (rest : List UInt8) : VamanaLoop :=
  ⟨s.graph.set (s.nodesRead % 2 ^ 32) nbrs,
    (s.bytesRead + (encodeNode nbrs).length) % 2 ^ 64, (s.nodesRead + 1) % 2 ^ 32, rest⟩

/-- A round that finds a node puts it into the slot its number names. -/
lemma readNode_of_node (s : VamanaLoop) (hrest : s.rest = encodeNode nbrs ++ rest)
    (hlt : nbrs.length < 2 ^ 32) :
    readNode s = if s.nodesRead % 2 ^ 32 < s.graph.length then .ok (s.put nbrs rest)
      else .error (.outOfBounds (s.nodesRead % 2 ^ 32)) := by
  have hslot : ((s.nodesRead + 1) % 2 ^ 32 + (2 ^ 32 - 1)) % 2 ^ 32 = s.nodesRead % 2 ^ 32 := by
    omega
  rw [readNode, hrest, encodeNode, List.append_assoc, readNumber_append (length_encodeNat 4 _),
    decodeNat_encodeNat (by omega)]
  simp only [bind, Except.bind, readBytes_append (length_encodeWords nbrs), hslot,
    decodeWords_encodeWords]
  rw [VamanaLoop.put, length_encodeNode]
  rfl

/-- A round throws where no node follows. -/
lemma readNode_of_none (s : VamanaLoop)
    (hnone : ∀ nbrs rest, s.rest = encodeNode nbrs ++ rest → ¬ nbrs.length < 2 ^ 32) :
    ∃ what, readNode s = .error (.thrown what) := by
  rcases Nat.lt_or_ge s.rest.length 4 with hshort | hfour
  · obtain ⟨what, hw⟩ := readNumber_of_lt hshort
    exact ⟨what, by rw [readNode, hw]; rfl⟩
  · have hnum : (s.rest.take 4).length = 4 := by rw [List.length_take, min_eq_left hfour]
    have hread : readNumber 4 s.rest = .ok (decodeNat (s.rest.take 4), s.rest.drop 4) := by
      rw [← readNumber_append hnum, List.take_append_drop]
    set k := decodeNat (s.rest.take 4) with hk
    have hklt : k < 2 ^ 32 := by
      have := decodeNat_lt (s.rest.take 4)
      rwa [hnum] at this
    rcases Nat.lt_or_ge (s.rest.drop 4).length (4 * k) with hshort | henough
    · obtain ⟨what, hw⟩ := readBytes_of_lt hshort
      refine ⟨what, ?_⟩
      rw [readNode, hread]
      simp only [bind, Except.bind, hw]
    · have hwords : ((s.rest.drop 4).take (4 * k)).length = 4 * k := by
        rw [List.length_take, min_eq_left henough]
      have hfirst : encodeNat 4 k = s.rest.take 4 := by
        have := encodeNat_decodeNat (s.rest.take 4)
        rwa [hnum, ← hk] at this
      refine absurd hklt (hk ▸ ?_)
      have := hnone (decodeWords k ((s.rest.drop 4).take (4 * k)))
        ((s.rest.drop 4).drop (4 * k)) ?_
      · rwa [length_decodeWords] at this
      · rw [encodeNode, length_decodeWords, encodeWords_decodeWords hwords, hfirst,
          List.append_assoc, List.take_append_drop, List.take_append_drop]

/-- A read takes its bytes off the stream or throws. -/
lemma readNumber_cases (w : ℕ) (bs : List UInt8) :
    (∃ what, readNumber w bs = .error (.thrown what)) ∨
      w ≤ bs.length ∧ readNumber w bs = .ok (decodeNat (bs.take w), bs.drop w) := by
  rcases Nat.lt_or_ge bs.length w with hshort | hle
  · exact Or.inl (readNumber_of_lt hshort)
  · have hlen : (bs.take w).length = w := by rw [List.length_take, min_eq_left hle]
    exact Or.inr ⟨hle, by rw [← readNumber_append hlen, List.take_append_drop]⟩

lemma readHeader_of_le (h : vamanaMetadataSize ≤ file.length) :
    readHeader file = .ok (⟨declaredSize file, decodeNat ((file.drop 8).take 4),
      decodeNat ((file.drop 12).take 4), decodeNat ((file.drop 16).take 8)⟩,
      file.drop vamanaMetadataSize) := by
  have hread : ∀ w i, w + i ≤ file.length →
      readNumber w (file.drop i) = .ok (decodeNat ((file.drop i).take w), file.drop (i + w)) := by
    intro w i hle
    rcases readNumber_cases w (file.drop i) with ⟨what, herr⟩ | ⟨-, hok⟩
    · rw [readNumber, readBytes, takeExact, if_pos (by rw [List.length_drop]; omega)] at herr
      cases herr
    · rw [hok, List.drop_drop]
  rw [vamanaMetadataSize] at h
  have h0 := hread 8 0 (by omega)
  rw [List.drop_zero] at h0
  simp only [readHeader, bind, Except.bind, h0, hread 4 8 (by omega), hread 4 12 (by omega),
    hread 8 16 (by omega), Nat.zero_add]
  rfl

/-- A file that ends within its header is refused. -/
lemma readHeader_of_lt (h : file.length < vamanaMetadataSize) :
    ∃ what, readHeader file = .error (.thrown what) := by
  rw [vamanaMetadataSize] at h
  rw [readHeader]
  rcases readNumber_cases 8 file with ⟨what, hw⟩ | ⟨h1, hok1⟩
  · exact ⟨what, by rw [hw]; rfl⟩
  rw [hok1]
  rcases readNumber_cases 4 (file.drop 8) with ⟨what, hw⟩ | ⟨h2, hok2⟩
  · exact ⟨what, by simp only [bind, Except.bind, hw]⟩
  rcases readNumber_cases 4 ((file.drop 8).drop 4) with ⟨what, hw⟩ | ⟨h3, hok3⟩
  · exact ⟨what, by simp only [bind, Except.bind, hok2, hw]⟩
  rcases readNumber_cases 8 (((file.drop 8).drop 4).drop 4) with ⟨what, hw⟩ | ⟨h4, hok4⟩
  · exact ⟨what, by simp only [bind, Except.bind, hok2, hok3, hw]⟩
  · simp only [List.length_drop] at h2 h3 h4
    omega

/-! ### The loop -/

/-- The loop has read the nodes `g`, each into its own slot of a vector of `n` lists, and has
not met the declared size on the way. -/
structure Loaded (file : List UInt8) (graph : List (List VertexId)) (g : List (List VertexId))
    (s : VamanaLoop) : Prop where
  header : vamanaMetadataSize ≤ file.length
  rest : StartsWith (file.drop vamanaMetadataSize) g s.rest
  length_le : g.length ≤ graph.length
  graph_eq : s.graph = g ++ graph.drop g.length
  bytesRead_eq : s.bytesRead = fileSize g
  nodesRead_eq : s.nodesRead = g.length
  missed : ∀ i < g.length, declaredSize file ≠ fileSize (g.take i)

variable {graph : List (List VertexId)} {s s' : VamanaLoop}

lemma Loaded.followsHeader (h : Loaded file graph g s) : FollowsHeader file g :=
  ⟨h.header, s.rest, h.rest⟩

lemma StartsWith.snoc (h : StartsWith bs g (encodeNode nbrs ++ rest))
    (hlt : nbrs.length < 2 ^ 32) : StartsWith bs (g ++ [nbrs]) rest := by
  refine ⟨?_, fun l hl => ?_⟩
  · rw [encodeNodes_append, encodeNodes_cons, encodeNodes_nil, List.append_nil,
      List.append_assoc]
    exact h.1
  · rcases List.mem_append.mp hl with hl | hl
    · exact h.2 l hl
    · rwa [List.mem_singleton.mp hl]

/-- A prefix of the nodes read misses the declared size, if the whole does. -/
lemma missed_snoc (hmissed : ∀ i < g.length, declaredSize file ≠ fileSize (g.take i))
    (hne : declaredSize file ≠ fileSize g) :
    ∀ i < (g ++ [nbrs]).length, declaredSize file ≠ fileSize ((g ++ [nbrs]).take i) := by
  intro i hi
  rw [List.length_append, List.length_singleton] at hi
  rw [List.take_append_of_le_length (by omega)]
  rcases eq_or_lt_of_le (Nat.le_of_lt_succ hi) with rfl | hlt
  · rwa [List.take_length]
  · exact hmissed i hlt

/-- **A round that finds a node and a free slot.** -/
lemma Loaded.put (h : Loaded file graph g s) (hfile : file.length < 2 ^ 64)
    (hgraph : graph.length < 2 ^ 32) (hne : declaredSize file ≠ fileSize g)
    (hrest : s.rest = encodeNode nbrs ++ rest) (hlt : nbrs.length < 2 ^ 32)
    (hslot : g.length < graph.length) : Loaded file graph (g ++ [nbrs]) (s.put nbrs rest) := by
  have hstart : StartsWith (file.drop vamanaMetadataSize) (g ++ [nbrs]) rest :=
    StartsWith.snoc (hrest ▸ h.rest) hlt
  have hsize : fileSize (g ++ [nbrs]) ≤ file.length :=
    FollowsHeader.fileSize_le ⟨h.header, rest, hstart⟩
  have hbytes : fileSize (g ++ [nbrs]) = fileSize g + (encodeNode nbrs).length := by
    rw [fileSize_append, encodeNodes_cons, encodeNodes_nil, List.append_nil]
  have hlength : (g ++ [nbrs]).length = g.length + 1 := by
    rw [List.length_append, List.length_singleton]
  refine ⟨h.header, hstart, by omega, ?_, ?_, ?_, missed_snoc h.missed hne⟩
  · rw [VamanaLoop.put, h.nodesRead_eq, h.graph_eq, Nat.mod_eq_of_lt (by omega),
      List.set_append_right _ _ le_rfl, Nat.sub_self, List.drop_eq_getElem_cons hslot, hlength,
      List.set_cons_zero, List.append_assoc, List.singleton_append]
  · rw [VamanaLoop.put, h.bytesRead_eq, hbytes]
    exact Nat.mod_eq_of_lt (by omega)
  · rw [VamanaLoop.put, h.nodesRead_eq, hlength]
    exact Nat.mod_eq_of_lt (by omega)

/-- **How the loop ends**: at the declared size, by an exception where the nodes end before
it, or by a write behind the last slot. -/
theorem Loaded.loop_cases (hfile : file.length < 2 ^ 64) (hgraph : graph.length < 2 ^ 32)
    {fuel : ℕ} (h : Loaded file graph g s) (hfuel : s.rest.length < fuel) :
    (∃ g' s', whileLoopM (unread (declaredSize file)) readNode fuel s = .ok s' ∧
        Loaded file graph g' s' ∧ declaredSize file = fileSize g') ∨
      (∃ what g' s', whileLoopM (unread (declaredSize file)) readNode fuel s
          = .error (.thrown what) ∧
        Loaded file graph g' s' ∧ declaredSize file ≠ fileSize g' ∧
        ∀ nbrs rest, s'.rest = encodeNode nbrs ++ rest → ¬ nbrs.length < 2 ^ 32) ∨
      ∃ slot, whileLoopM (unread (declaredSize file)) readNode fuel s = .error (.outOfBounds slot) ∧
        Overlong file graph.length := by
  induction fuel generalizing g s with
  | zero => omega
  | succ fuel ih =>
      by_cases hdone : declaredSize file = fileSize g
      · have hcond : unread (declaredSize file) s = false := by simp [unread, h.bytesRead_eq, hdone]
        exact Or.inl ⟨g, s, whileLoopM_of_false hcond _, h, hdone⟩
      have hcond : unread (declaredSize file) s = true := by
        simpa [unread, h.bytesRead_eq] using Ne.symm hdone
      by_cases hnode : ∃ nbrs rest, s.rest = encodeNode nbrs ++ rest ∧ nbrs.length < 2 ^ 32
      · obtain ⟨nbrs, rest, hrest, hlt⟩ := hnode
        have hread := readNode_of_node s hrest hlt
        have hle := h.length_le
        have hlength : s.graph.length = graph.length := by
          rw [h.graph_eq, List.length_append, List.length_drop]
          omega
        rw [h.nodesRead_eq, Nat.mod_eq_of_lt (by omega), hlength] at hread
        rcases eq_or_lt_of_le hle with hfull | hslot
        · -- every slot is taken, and the node goes behind them
          rw [if_neg (by omega)] at hread
          refine Or.inr (Or.inr ⟨_, whileLoopM_of_error hcond hread fuel, g ++ [nbrs],
            ⟨h.header, rest, StartsWith.snoc (hrest ▸ h.rest) hlt⟩, ?_, fun i hi => ?_⟩)
          · rw [List.length_append, List.length_singleton, hfull]
          · refine missed_snoc h.missed hdone i ?_
            rw [List.length_append, List.length_singleton]
            omega
        · rw [if_pos hslot] at hread
          rw [whileLoopM_of_ok hcond hread]
          refine ih (h.put hfile hgraph hdone hrest hlt hslot) ?_
          have := congrArg List.length hrest
          rw [List.length_append, length_encodeNode] at this
          show rest.length < fuel
          omega
      · have hnone : ∀ nbrs rest, s.rest = encodeNode nbrs ++ rest → ¬ nbrs.length < 2 ^ 32 :=
          fun nbrs rest hrest hlt => hnode ⟨nbrs, rest, hrest, hlt⟩
        obtain ⟨what, hthrow⟩ := readNode_of_none s hnone
        exact Or.inr (Or.inl ⟨what, g, s, whileLoopM_of_error hcond hthrow fuel, h, hdone, hnone⟩)

lemma length_resize (n : ℕ) (graph : List (List VertexId)) : (resize n graph).length = n := by
  rw [resize, List.length_append, List.length_take, List.length_replicate]
  omega

lemma loaded_nil (h : vamanaMetadataSize ≤ file.length) (graph : List (List VertexId)) :
    Loaded file graph [] ⟨graph, vamanaMetadataSize, 0, file.drop vamanaMetadataSize⟩ where
  header := h
  rest := ⟨rfl, by simp⟩
  length_le := Nat.zero_le _
  graph_eq := rfl
  bytesRead_eq := rfl
  nodesRead_eq := rfl
  missed := fun i hi => absurd hi (Nat.not_lt_zero i)

/-- Nodes that lead to the declared size are not overlong. -/
lemma Loaded.not_overlong (h : Loaded file graph g s) (hsize : declaredSize file = fileSize g) :
    ¬ Overlong file graph.length := by
  rintro ⟨g', ⟨-, rest, hstart⟩, hlength, hmissed⟩
  have hle := h.length_le
  rcases h.rest.prefix_or hstart with ⟨t, rfl, -⟩ | ⟨t, rfl, -⟩
  · refine hmissed g.length hle ?_
    rw [List.take_left', hsize]
    rfl
  · rw [List.length_append] at hle
    omega

/-- Where no node follows, other nodes behind the header are among those read. -/
lemma Loaded.prefix_of_none (h : Loaded file graph g s)
    (hnone : ∀ nbrs rest, s.rest = encodeNode nbrs ++ rest → ¬ nbrs.length < 2 ^ 32)
    (h' : FollowsHeader file g') : ∃ t, g = g' ++ t := by
  obtain ⟨-, rest, hstart⟩ := h'
  rcases h.rest.prefix_or hstart with ⟨t, rfl, ht⟩ | ⟨t, rfl, -⟩
  · cases t with
    | nil => exact ⟨[], by simp⟩
    | cons nbrs t =>
        refine absurd (ht.2 nbrs (List.mem_cons_self ..)) (hnone nbrs (encodeNodes t ++ rest) ?_)
        rw [ht.1, encodeNodes_cons, List.append_assoc]
  · exact ⟨t, rfl⟩

/-- **What a load does**: it reads the nodes the file stores, of which there are at most as
many as slots, or it throws and there are no stored nodes to read, or it writes behind the
last slot because the nodes are overlong. In every case the loop has left. -/
theorem loadVamana_cases (hfile : file.length < 2 ^ 64) {n : ℕ} (hn : n < 2 ^ 32)
    (graph : List (List VertexId)) :
    (∃ g, Stores file g ∧ ¬ Overlong file n ∧ g.length ≤ n ∧
        loadVamana file n graph = .ok ⟨g ++ (resize n graph).drop g.length,
          decodeNat ((file.drop 8).take 4), decodeNat ((file.drop 12).take 4),
          declaredSize file⟩) ∨
      (∃ what, loadVamana file n graph = .error (.thrown what) ∧ ¬ Overlong file n ∧
        ∀ g, ¬ Stores file g) ∨
      ∃ slot, loadVamana file n graph = .error (.outOfBounds slot) ∧ Overlong file n := by
  rw [loadVamana]
  rcases Nat.lt_or_ge file.length vamanaMetadataSize with hshort | hheader
  · obtain ⟨what, hthrow⟩ := readHeader_of_lt hshort
    refine Or.inr (Or.inl ⟨what, by rw [hthrow]; rfl, ?_, ?_⟩)
    · rintro ⟨g, ⟨hle, -⟩, -⟩
      omega
    · rintro g ⟨⟨hle, -⟩, -⟩
      omega
  have hlength := length_resize n graph
  have hfuel : (file.drop vamanaMetadataSize).length < file.length := by
    rw [List.length_drop]
    rw [vamanaMetadataSize] at hheader ⊢
    omega
  simp only [readHeader_of_le hheader, bind, Except.bind]
  rcases (loaded_nil hheader (resize n graph)).loop_cases hfile (by omega) hfuel with
    ⟨g, s, hloop, hloaded, hsize⟩ | ⟨what, g, s, hloop, hloaded, hne, hnone⟩ | ⟨slot, hloop, hover⟩
  · have hle := hloaded.length_le
    rw [hlength] at hle
    refine Or.inl ⟨g, ⟨hloaded.followsHeader, hsize⟩, hlength ▸ hloaded.not_overlong hsize, hle, ?_⟩
    have hleft : unread (declaredSize file) s = false := by
      simp [unread, hloaded.bytesRead_eq, hsize]
    rw [hloop]
    simp only [hleft, Bool.false_eq_true, if_false]
    rw [hloaded.graph_eq, hloaded.bytesRead_eq, hsize]
    rfl
  · have hprefix : ∀ g', FollowsHeader file g' → ∃ t, g = g' ++ t := fun g' h' =>
      hloaded.prefix_of_none hnone h'
    refine Or.inr (Or.inl ⟨what, by rw [hloop], ?_, ?_⟩)
    · rintro ⟨g', hfollows, hlen, -⟩
      obtain ⟨t, rfl⟩ := hprefix g' hfollows
      have hle := hloaded.length_le
      rw [hlength, List.length_append] at hle
      omega
    · rintro g' ⟨hfollows, hsize⟩
      obtain ⟨t, rfl⟩ := hprefix g' hfollows
      cases t with
      | nil => exact hne (by rwa [List.append_nil])
      | cons nbrs t =>
          refine hloaded.missed g'.length ?_ ?_
          · rw [List.length_append, List.length_cons]
            omega
          · rwa [List.take_left' rfl]
  · exact Or.inr (Or.inr ⟨slot, by rw [hloop], hlength ▸ hover⟩)

/-! ### The size check of the callers -/

variable {n : ℕ} {out : VamanaGraph}

lemma loadGraph_of_error (what : String) {e : LoadFault} (h : loadVamana file n graph = .error e) :
    loadGraph what file n graph = .error e := by
  rw [loadGraph, h]
  rfl

/-- The vector has the expected size after every load that returns, so the size check passes. -/
lemma loadGraph_of_ok (what : String) (h : loadVamana file n graph = .ok out)
    (hlength : out.graph.length = n) :
    loadGraph what file n graph = if n = 0 then .error .divisionByZero
      else .ok { out with maxObservedDegree := checkDegree out.graph out.maxObservedDegree } := by
  rw [loadGraph, h]
  by_cases hn : n = 0
  · rw [if_pos hn]
    simp only [bind, Except.bind, hlength, if_pos hn]
    rfl
  · rw [if_neg hn]
    simp only [bind, Except.bind, hlength, if_neg hn, ne_eq, not_true_eq_false, if_false]
    rfl

/-- A file on disk: its size is a `size_t`. -/
structure GraphFile where
  bytes : List UInt8
  size_lt : bytes.length < 2 ^ 64

/-- **What the size check is for**: `load_base_graph` throws, or it returns with the adjacency
lists of the file, one for each base vector. It neither writes outside the vector nor divides
by zero, and its loop leaves. -/
def LoadEnforcesCount (file : GraphFile) (baseNum : UInt32) (baseGraph : List (List VertexId)) :
    Prop :=
  match loadBaseGraph file.bytes baseNum.toNat baseGraph with
  | .ok out => Stores file.bytes out.graph ∧ out.graph.length = baseNum.toNat
  | .error (.thrown _) => True
  | .error _ => False

/-- **When the size check does what it is for**: the nodes do not outnumber the base vectors
before the declared size is met, and lists that end at the declared size are as many as the
base vectors, which are not none. Where the lists are fewer, the check compares a vector of
the expected size with that size; where they are more, the vector has been overrun. -/
theorem loadBaseGraph_enforces_iff (file : GraphFile) (baseNum : UInt32)
    (baseGraph : List (List VertexId)) :
    LoadEnforcesCount file baseNum baseGraph ↔ ¬ Overlong file.bytes baseNum.toNat ∧
      ∀ g, Stores file.bytes g → g.length = baseNum.toNat ∧ 0 < baseNum.toNat := by
  rw [LoadEnforcesCount, loadBaseGraph]
  rcases loadVamana_cases file.size_lt baseNum.toNat_lt baseGraph with
    ⟨g, hstores, hover, hle, hload⟩ | ⟨what, hload, hover, hnone⟩ | ⟨slot, hload, hover⟩
  · have hlength : (g ++ (resize baseNum.toNat baseGraph).drop g.length).length =
        baseNum.toNat := by
      rw [List.length_append, List.length_drop, length_resize]
      omega
    have hiff : Stores file.bytes (g ++ (resize baseNum.toNat baseGraph).drop g.length) ↔
        g.length = baseNum.toNat := by
      constructor
      · intro h
        rw [← hlength, ← hstores.unique h]
      · intro h
        rwa [h, List.drop_of_length_le (length_resize _ _).le, List.append_nil]
    have hcond : (¬ Overlong file.bytes baseNum.toNat ∧
        ∀ g', Stores file.bytes g' → g'.length = baseNum.toNat ∧ 0 < baseNum.toNat) ↔
        g.length = baseNum.toNat ∧ 0 < baseNum.toNat :=
      ⟨fun h => h.2 g hstores, fun h => ⟨hover, fun g' h' => hstores.unique h' ▸ h⟩⟩
    rw [hcond]
    rw [loadGraph_of_ok _ hload hlength]
    by_cases hzero : baseNum.toNat = 0
    · rw [if_pos hzero]
      exact iff_of_false not_false fun h => h.2.ne' hzero
    · rw [if_neg hzero]
      exact ⟨fun h => ⟨hiff.mp h.1, Nat.pos_of_ne_zero hzero⟩, fun h => ⟨hiff.mpr h.1, hlength⟩⟩
  · rw [loadGraph_of_error _ hload]
    exact iff_of_true trivial ⟨hover, fun g h => absurd h (hnone g)⟩
  · rw [loadGraph_of_error _ hload]
    exact iff_of_false not_false fun h => h.1 hover

/-- A file that declares its own size and holds no node. -/
def emptyGraphFile : GraphFile :=
  ⟨encodeNat 8 24 ++ encodeNat 4 0 ++ encodeNat 4 0 ++ encodeNat 8 0, by decide⟩

/-- Loaded for one base vector, the file without nodes passes the size check. -/
theorem not_loadEnforcesCount_emptyGraphFile : ¬ LoadEnforcesCount emptyGraphFile 1 [] := by
  have hload : loadBaseGraph emptyGraphFile.bytes (1 : UInt32).toNat [] =
      .ok ⟨[[]], 0, 0, 24⟩ := by decide +kernel
  have hsize : declaredSize emptyGraphFile.bytes ≠ fileSize [[]] := by decide +kernel
  rw [LoadEnforcesCount, hload]
  exact fun h => hsize h.1.2

end RedAnns
