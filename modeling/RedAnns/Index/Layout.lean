import RedAnns.Core.Vertex
import RedAnns.Lib.Memory

/-!
The records of an index: a vector, its label and its packed out-neighbours.

* `Layout`: the offsets of the three fields and the size of a record, with the two
  instances `flatLayout` (`generate_base_index`, one word a neighbour) and `bucketLayout`
  (`generate_base_index_on_buckets`, nine bytes a neighbour).
* `writeRecord` is the body of the writing loops, and `recordBytes` what it leaves
  (`writeRecord_eq`, `writeRecord_of_outside`).
* The readers are the ones of the searches: `neighbors` of `search_base_index`,
  `neighborsOnBuckets` and `neighborsDistributed` of the two searches over bucketed
  records, and `neighborsProfiling` of the search that `set_cache` profiles with, which
  does not step over the vertex id of an entry.
* `readEntries_of_stands`: the readers that step over the vertex id read the entries back;
  `neighborsProfiling_eq_iff`: the other one does so by a coincidence of bytes only
  (`Coincides`).
* `Agree`: the readers make the same of any copy of a record.
-/

namespace RedAnns

open Bytes

/-! ### Offsets -/

/-- The layout of a record, up to the length of its last field. -/
structure Layout where
  dimension : ℕ
  neighborBytesLen : ℕ
  deriving DecidableEq

namespace Layout

variable (L : Layout)

/-- `data_bytes_len`. -/
def dataBytesLen : ℕ := L.dimension * 4

/-- `label_bytes_len`. -/
def labelBytesLen : ℕ := 4

/-- `_data_offset`. -/
def dataOffset : ℕ := 0

/-- `_label_offset`. -/
def labelOffset : ℕ := L.dataBytesLen

/-- `_neighbor_offset`. -/
def neighborOffset : ℕ := L.dataBytesLen + labelBytesLen

/-- `_element_size`. -/
def elementSize : ℕ := L.dataBytesLen + labelBytesLen + L.neighborBytesLen

/-! ### Readers -/

/-- The vector of a record. -/
def base (v : Bytes) : List UInt32 := v.readWords dataOffset L.dimension

/-- The label of a record. -/
def label (v : Bytes) : VertexId := v.readWord L.labelOffset

/-- The out-neighbours as `search_base_index` reads them. -/
def neighbors (v : Bytes) : List VertexId :=
  let maxM := v.readWord L.neighborOffset
  v.readWords (L.neighborOffset + 4) maxM.toNat

/-- The loop over packed entries: a vertex id, a server and a local id, nine bytes in all. -/
def readEntries (v : Bytes) : ℕ → ℕ → List (VertexId × Item)
  | 0, _ => []
  | m + 1, tmp =>
      let vid := v.readWord tmp
      let tmp := tmp + 4
      let first := v tmp
      let tmp := tmp + 1
      let second := v.readWord tmp
      let tmp := tmp + 4
      (vid, ⟨first, second⟩) :: readEntries v m tmp

/-- The same loop without the vertex id: five bytes an entry. -/
def readItems (v : Bytes) : ℕ → ℕ → List Item
  | 0, _ => []
  | m + 1, tmp =>
      let first := v tmp
      let tmp := tmp + 1
      let second := v.readWord tmp
      let tmp := tmp + 4
      ⟨first, second⟩ :: readItems v m tmp

/-- The out-neighbours with their vertex ids, as the query `search_base_index_distributed`
reads them. -/
def neighborsDistributed (v : Bytes) : List (VertexId × Item) :=
  let maxM := v.readWord L.neighborOffset
  readEntries v maxM.toNat (L.neighborOffset + 4)

/-- The out-neighbours as `search_base_index_on_buckets` reads them. -/
def neighborsOnBuckets (v : Bytes) : List Item :=
  let maxM := v.readWord L.neighborOffset
  (readEntries v maxM.toNat (L.neighborOffset + 4)).map Prod.snd

/-- The out-neighbours as the profiling `search_base_index_distributed` reads them. -/
def neighborsProfiling (v : Bytes) : List Item :=
  let maxM := v.readWord L.neighborOffset
  readItems v maxM.toNat (L.neighborOffset + 4)

/-! ### The writer -/

/-- The body of the writing loops: the vector, the label, the number of neighbours and the
fields of the neighbour entries, each behind the one before. -/
def writeRecord (m : Bytes) (destination : ℕ) (x : List UInt32) (curId : VertexId)
    (degree : ℕ) (fields : List (List UInt8)) : Bytes :=
  let m := m.write (destination + dataOffset) (encodeWords x)
  let m := m.write (destination + L.labelOffset) (encodeWord curId)
  let m := m.write (destination + L.neighborOffset) (encodeWord (UInt32.ofNat degree))
  m.writeAll (destination + L.neighborOffset + 4) fields

/-- The bytes of a record. -/
def recordBytes (x : List UInt32) (curId : VertexId) (degree : ℕ) (fields : List (List UInt8)) :
    List UInt8 :=
  encodeWords x ++ encodeWord curId ++ encodeWord (UInt32.ofNat degree) ++ fields.flatten

variable {L} {m v : Bytes} {p : ℕ} {x : List UInt32} {curId : VertexId} {degree : ℕ}
  {fields : List (List UInt8)}

lemma length_recordBytes (hx : x.length = L.dimension) :
    (recordBytes x curId degree fields).length = L.neighborOffset + 4 + fields.flatten.length := by
  simp only [recordBytes, List.length_append, length_encodeWords, length_encodeWord, hx,
    neighborOffset, dataBytesLen, labelBytesLen]
  omega

/-- **One record is one write.** -/
theorem writeRecord_eq (hx : x.length = L.dimension) :
    L.writeRecord m p x curId degree fields = m.write p (recordBytes x curId degree fields) := by
  have h1 : p + L.labelOffset = p + (encodeWords x).length := by
    rw [length_encodeWords, hx, labelOffset, dataBytesLen]
    omega
  have h2 : p + L.neighborOffset = p + (encodeWords x ++ encodeWord curId).length := by
    rw [List.length_append, length_encodeWords, length_encodeWord, hx, neighborOffset,
      dataBytesLen, labelBytesLen]
    omega
  have h3 : p + L.neighborOffset + 4
      = p + (encodeWords x ++ encodeWord curId ++ encodeWord (UInt32.ofNat degree)).length := by
    simp only [List.length_append] at h2 ⊢
    rw [h2, length_encodeWord (UInt32.ofNat degree)]
    omega
  rw [writeRecord, dataOffset, Nat.add_zero, h3, h1, write_append, h2, write_append, writeAll_eq,
    write_append]
  rfl

/-- A record within its slot leaves everything outside the slot as it is. -/
lemma writeRecord_of_outside (hx : x.length = L.dimension)
    (hfit : 4 + fields.flatten.length ≤ L.neighborBytesLen) {a : ℕ}
    (ha : a < p ∨ p + L.elementSize ≤ a) : L.writeRecord m p x curId degree fields a = m a := by
  have hlen : (recordBytes x curId degree fields).length
      = L.neighborOffset + 4 + fields.flatten.length := length_recordBytes hx
  rw [writeRecord_eq hx, write_of_outside]
  rw [hlen]
  simp only [elementSize, neighborOffset] at ha ⊢
  omega

/-! ### Reading back -/

section ReadBack

variable (hx : x.length = L.dimension) (h : Stands v 0 (recordBytes x curId degree fields))
include hx h

lemma base_of_stands : L.base v = x := by
  rw [recordBytes, List.append_assoc, List.append_assoc, stands_append] at h
  rw [base, dataOffset, ← hx]
  exact h.1.readWords

lemma label_of_stands : L.label v = curId := by
  rw [recordBytes, List.append_assoc, List.append_assoc, stands_append, stands_append] at h
  have h2 := h.2.1.readWord
  rw [length_encodeWords, hx, Nat.zero_add, Nat.mul_comm] at h2
  exact h2

lemma degree_of_stands (hdeg : degree < 2 ^ 32) :
    (v.readWord L.neighborOffset).toNat = degree := by
  rw [recordBytes, List.append_assoc, stands_append] at h
  have h2 := (stands_append.mp h.2).1.readWord
  rw [List.length_append, length_encodeWords, length_encodeWord, hx, Nat.zero_add,
    Nat.mul_comm] at h2
  rw [neighborOffset, dataBytesLen, labelBytesLen, h2, UInt32.toNat_ofNat',
    Nat.mod_eq_of_lt hdeg]

lemma fields_of_stands : Stands v (L.neighborOffset + 4) fields.flatten := by
  rw [recordBytes, stands_append] at h
  have h2 := h.2
  rw [List.length_append, List.length_append, length_encodeWords, length_encodeWord,
    length_encodeWord, hx, Nat.zero_add, Nat.mul_comm] at h2
  exact h2

end ReadBack

/-! ### Packed entries -/

/-- The three fields of a packed entry. -/
def entryFields (e : VertexId × Item) : List (List UInt8) :=
  [encodeWord e.1, [e.2.first], encodeWord e.2.second]

/-- The bytes of packed entries. -/
def entryBytes (es : List (VertexId × Item)) : List UInt8 := (es.flatMap entryFields).flatten

lemma entryBytes_cons (e : VertexId × Item) (es : List (VertexId × Item)) :
    entryBytes (e :: es)
      = encodeWord e.1 ++ ([e.2.first] ++ (encodeWord e.2.second ++ entryBytes es)) := by
  simp only [entryBytes, entryFields, List.flatMap_cons, List.cons_append, List.nil_append,
    List.flatten_cons]

@[simp] lemma length_entryBytes (es : List (VertexId × Item)) :
    (entryBytes es).length = 9 * es.length := by
  induction es with
  | nil => rfl
  | cons e es ih =>
      rw [entryBytes_cons]
      simp only [List.length_append, length_encodeWord, List.length_cons, List.length_nil, ih]
      omega

/-- The readers that step over the vertex id read the entries back. -/
theorem readEntries_of_stands {es : List (VertexId × Item)} (h : Stands v p (entryBytes es)) :
    readEntries v es.length p = es := by
  induction es generalizing p with
  | nil => rfl
  | cons e es ih =>
      rw [entryBytes_cons, stands_append, stands_append, stands_append] at h
      obtain ⟨hvid, hfirst, hsecond, hrest⟩ := h
      simp only [length_encodeWord, List.length_singleton] at hfirst hsecond hrest
      have hb : v (p + 4) = e.2.first := hfirst 0 (by simp)
      rw [List.length_cons, readEntries, hvid.readWord, hb, hsecond.readWord, ih hrest]

/-- The bytes of items one behind the other, as `readItems` expects them. -/
def itemBytes (ts : List Item) : List UInt8 :=
  ts.flatMap fun t => [t.first] ++ encodeWord t.second

lemma itemBytes_cons (t : Item) (ts : List Item) :
    itemBytes (t :: ts) = [t.first] ++ encodeWord t.second ++ itemBytes ts := rfl

lemma item_eq_iff {t : Item} :
    (⟨v p, v.readWord (p + 1)⟩ : Item) = t ↔ Stands v p ([t.first] ++ encodeWord t.second) := by
  rw [Item.ext_iff, stands_append]
  refine and_congr ⟨fun h i hi => ?_, fun h => h 0 (by simp)⟩ ⟨fun h => ?_, Stands.readWord⟩
  · rw [List.length_singleton, Nat.lt_one_iff] at hi
    subst hi
    exact h
  · show Stands v (p + 1) (encodeWord t.second)
    rw [← show v.readWord (p + 1) = t.second from h]
    exact stands_encodeWord_readWord v (p + 1)

/-- The loop without the vertex id reads given items exactly when their bytes stand one
behind the other. -/
lemma readItems_eq_iff {ts : List Item} :
    readItems v ts.length p = ts ↔ Stands v p (itemBytes ts) := by
  induction ts generalizing p with
  | nil => exact ⟨fun _ => stands_nil, fun _ => rfl⟩
  | cons t ts ih =>
      rw [List.length_cons, readItems, itemBytes_cons, stands_append, List.cons.injEq,
        ← item_eq_iff, ih]
      rfl

/-- The bytes of the items within packed entries: five out of every nine. -/
lemma getElem?_entryBytes (es : List (VertexId × Item)) (i : ℕ) {j : ℕ} (hj : j < 5) :
    (entryBytes es)[9 * i + 4 + j]? = (itemBytes (es.map Prod.snd))[5 * i + j]? := by
  induction es generalizing i with
  | nil => rfl
  | cons e es ih =>
      have hitem : ([e.2.first] ++ encodeWord e.2.second).length = 5 := rfl
      rw [entryBytes_cons, List.map_cons, itemBytes_cons, ← List.append_assoc [e.2.first],
        List.getElem?_append_right (by rw [length_encodeWord]; omega), length_encodeWord]
      cases i with
      | zero =>
          rw [show 9 * 0 + 4 + j - 4 = j by omega, show 5 * 0 + j = j by omega]
          have hj' : j < ([e.2.first] ++ encodeWord e.2.second).length := by rwa [hitem]
          exact (List.getElem?_append_left hj').trans (List.getElem?_append_left hj').symm
      | succ i =>
          rw [List.getElem?_append_right (by rw [hitem]; omega),
            List.getElem?_append_right (by rw [hitem]; omega), hitem,
            show 9 * (i + 1) + 4 + j - 4 - 5 = 9 * i + 4 + j by omega,
            show 5 * (i + 1) + j - 5 = 5 * i + j by omega]
          exact ih i

lemma length_itemBytes (ts : List Item) : (itemBytes ts).length = 5 * ts.length := by
  induction ts with
  | nil => rfl
  | cons t ts ih =>
      rw [itemBytes_cons, List.length_append, ih, List.length_cons]
      show 5 + 5 * ts.length = _
      omega

/-- **A coincidence of bytes**: five by five from its start on, a packed list spells the
items that it holds behind the vertex ids. -/
def Coincides (es : List (VertexId × Item)) : Prop :=
  ∀ i < es.length, ∀ j < 5, (entryBytes es)[5 * i + j]? = (entryBytes es)[9 * i + 4 + j]?

instance (es : List (VertexId × Item)) : Decidable (Coincides es) :=
  inferInstanceAs (Decidable (∀ i < es.length, ∀ j < 5, _))

/-- Where packed entries stand, their items stand as well exactly by coincidence. -/
lemma stands_itemBytes_iff {es : List (VertexId × Item)} (h : Stands v p (entryBytes es)) :
    Stands v p (itemBytes (es.map Prod.snd)) ↔ Coincides es := by
  have hlen : (itemBytes (es.map Prod.snd)).length = 5 * es.length := by
    rw [length_itemBytes, List.length_map]
  constructor
  · intro hitems i hi j hj
    have hk : 5 * i + j < (itemBytes (es.map Prod.snd)).length := by omega
    have hk' : 5 * i + j < (entryBytes es).length := by rw [length_entryBytes]; omega
    rw [getElem?_entryBytes es i hj, List.getElem?_eq_getElem hk, List.getElem?_eq_getElem hk',
      ← h _ hk', hitems _ hk]
  · intro hc k hk
    have hk' : k < (entryBytes es).length := by rw [length_entryBytes]; omega
    have hck := hc (k / 5) (by omega) (k % 5) (Nat.mod_lt _ (by omega))
    rw [getElem?_entryBytes es _ (Nat.mod_lt _ (by omega)), Nat.div_add_mod,
      List.getElem?_eq_getElem hk, List.getElem?_eq_getElem hk'] at hck
    rw [h k hk', Option.some.inj hck]

/-! ### What the readers make of a record -/

/-- The flat reader reads back the out-neighbours. -/
theorem neighbors_of_stands {ns : List VertexId} (hx : x.length = L.dimension)
    (hdeg : ns.length < 2 ^ 32)
    (h : Stands v 0 (recordBytes x curId ns.length (ns.map encodeWord))) :
    L.neighbors v = ns := by
  have hfields := fields_of_stands hx h
  rw [← List.flatMap_def] at hfields
  rw [neighbors, degree_of_stands hx h hdeg]
  exact hfields.readWords

section Packed

variable {es : List (VertexId × Item)} (hx : x.length = L.dimension) (hdeg : es.length < 2 ^ 32)
  (h : Stands v 0 (recordBytes x curId es.length (es.flatMap entryFields)))
include hx hdeg h

/-- The reader of the distributed search reads back the entries. -/
theorem neighborsDistributed_of_stands : L.neighborsDistributed v = es := by
  rw [neighborsDistributed, degree_of_stands hx h hdeg]
  exact readEntries_of_stands (fields_of_stands hx h)

/-- The reader of the search on buckets reads back the places. -/
theorem neighborsOnBuckets_of_stands : L.neighborsOnBuckets v = es.map Prod.snd := by
  rw [neighborsOnBuckets, degree_of_stands hx h hdeg, readEntries_of_stands (fields_of_stands hx h)]

/-- The profiling reader reads the places of the entries by coincidence only. -/
theorem neighborsProfiling_eq_iff :
    L.neighborsProfiling v = es.map Prod.snd ↔ Coincides es := by
  have hlen : es.length = (es.map Prod.snd).length := (List.length_map _).symm
  rw [neighborsProfiling, degree_of_stands hx h hdeg,
    ← stands_itemBytes_iff (fields_of_stands hx h), hlen, readItems_eq_iff]

end Packed

/-! ### Copies of a record -/

/-- Two views agree on the bytes of a record. -/
def Agree (L : Layout) (v v' : Bytes) : Prop := ∀ i < L.elementSize, v i = v' i

section Agree

variable {v' : Bytes} (h : L.Agree v v')
include h

lemma Agree.readWord {q : ℕ} (hq : q + 4 ≤ L.elementSize) : v.readWord q = v'.readWord q :=
  readWord_congr fun i hi => h (q + i) (by omega)

/-- A copy of a record has its vector. -/
lemma Agree.base : L.base v = L.base v' := by
  refine List.map_congr_left fun i hi => h.readWord ?_
  rw [List.mem_range] at hi
  simp only [dataOffset, elementSize, dataBytesLen, labelBytesLen]
  omega

/-- A copy of a record has its label. -/
lemma Agree.label : L.label v = L.label v' := by
  refine h.readWord ?_
  simp only [labelOffset, elementSize, dataBytesLen, labelBytesLen]
  omega

lemma Agree.readEntries {q n : ℕ} (hq : q + 9 * n ≤ L.elementSize) :
    Layout.readEntries v n q = Layout.readEntries v' n q := by
  induction n generalizing q with
  | zero => rfl
  | succ n ih =>
      rw [Layout.readEntries, Layout.readEntries]
      simp only [h.readWord (show q + 4 ≤ L.elementSize by omega), h (q + 4) (by omega),
        h.readWord (show q + 4 + 1 + 4 ≤ L.elementSize by omega)]
      rw [ih (by omega)]

/-- A copy of a record whose entries fit has its entries. -/
lemma Agree.neighborsDistributed
    (hfits : L.neighborOffset + 4 + 9 * (v'.readWord L.neighborOffset).toNat ≤ L.elementSize) :
    L.neighborsDistributed v = L.neighborsDistributed v' := by
  rw [Layout.neighborsDistributed, Layout.neighborsDistributed, h.readWord (by omega)]
  exact h.readEntries (by omega)

end Agree

end Layout

/-! ### The two layouts -/

/-- The layout of `generate_base_index`, with an `unsigned` number of words for a list. -/
def flatLayout (dimension R : ℕ) : Layout := ⟨dimension, (1 + R) % 2 ^ 32 * 4⟩

/-- The layout of `generate_base_index_on_buckets`. -/
def bucketLayout (dimension R : ℕ) : Layout := ⟨dimension, 4 + R * (4 + 1 + 4)⟩

end RedAnns
