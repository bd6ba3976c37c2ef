import RedAnns.Index.Placement

/-!
What the traversals decode from the records the builders wrote.

The reader of `search_base_index`, that of `search_base_index_on_buckets` and that of the
query `search_base_index_distributed` read back the out-neighbours of every vertex
(`neighbors_generateBaseIndex`, `neighborsOnBuckets_arrange`, `neighborsDistributed_arrange`).
The profiling `search_base_index_distributed` reads five bytes where nine were written, so it
agrees with them only where the packed bytes happen to coincide (`decodesRecord_iff`).
-/

namespace RedAnns

open Bytes

section

variable {b : BaseSet} {bucketCount : ℕ} {baseInBucket : List UInt32}

/-- The traversal of the index in one piece reads back the adjacency lists. -/
theorem neighbors_generateBaseIndex (hR : 1 + b.baseGraphR < 2 ^ 32) (malloc : Bytes) {id : ℕ}
    (hid : id < b.baseNum) :
    b.flatLayout.neighbors
        (getVertexFlat b.flatLayout (generateBaseIndex b malloc) (UInt32.ofNat id))
      = b.adjacency id :=
  Layout.neighbors_of_stands (L := b.flatLayout) (b.length_vector id)
    (BaseSet.degree_adjacency_lt hid) (getVertexFlat_generateBaseIndex hR malloc hid)

section Buckets

variable (h : Assigns b bucketCount baseInBucket) (malloc : ServerId → Bytes) {id : ℕ}
  (hid : id < b.baseNum)

/-- The neighbours of a vertex with their places, in the order of the graph. -/
def placedNeighbors (b : BaseSet) (idx : BucketIndex) (id : ℕ) : List (VertexId × Item) :=
  (b.adjacency id).map fun v => (v, idx.place v.toNat)

include h hid

/-- The slot of a vertex holds its record, written as a list of entries. -/
lemma stands_placedNeighbors :
    Stands ((arrange b bucketCount baseInBucket malloc).getVertex
        ((arrange b bucketCount baseInBucket malloc).place id)) 0
      (Layout.recordBytes (b.vector id) (UInt32.ofNat id)
        (placedNeighbors b (arrange b bucketCount baseInBucket malloc) id).length
        ((placedNeighbors b (arrange b bucketCount baseInBucket malloc) id).flatMap
          Layout.entryFields)) := by
  have hst := getVertex_arrange malloc h hid
  rw [← List.length_map (fun v =>
    (v, (arrange b bucketCount baseInBucket malloc).place v.toNat))] at hst
  exact hst

omit h in
lemma length_placedNeighbors_lt :
    (placedNeighbors b (arrange b bucketCount baseInBucket malloc) id).length < 2 ^ 32 := by
  rw [placedNeighbors, List.length_map]
  exact BaseSet.degree_adjacency_lt hid

/-- The query `search_base_index_distributed` reads back the entries. -/
theorem neighborsDistributed_arrange :
    b.bucketLayout.neighborsDistributed ((arrange b bucketCount baseInBucket malloc).getVertex
        ((arrange b bucketCount baseInBucket malloc).place id))
      = placedNeighbors b (arrange b bucketCount baseInBucket malloc) id :=
  Layout.neighborsDistributed_of_stands (L := b.bucketLayout) (b.length_vector id)
    (length_placedNeighbors_lt malloc hid) (stands_placedNeighbors h malloc hid)

/-- `search_base_index_on_buckets` reads back the places of the out-neighbours. -/
theorem neighborsOnBuckets_arrange :
    b.bucketLayout.neighborsOnBuckets ((arrange b bucketCount baseInBucket malloc).getVertex
        ((arrange b bucketCount baseInBucket malloc).place id))
      = (placedNeighbors b (arrange b bucketCount baseInBucket malloc) id).map Prod.snd :=
  Layout.neighborsOnBuckets_of_stands (L := b.bucketLayout) (b.length_vector id)
    (length_placedNeighbors_lt malloc hid) (stands_placedNeighbors h malloc hid)

/-- The profiling traversal reads them back by coincidence only. -/
lemma neighborsProfiling_arrange_iff :
    b.bucketLayout.neighborsProfiling ((arrange b bucketCount baseInBucket malloc).getVertex
        ((arrange b bucketCount baseInBucket malloc).place id))
      = (placedNeighbors b (arrange b bucketCount baseInBucket malloc) id).map Prod.snd ↔
    Layout.Coincides (placedNeighbors b (arrange b bucketCount baseInBucket malloc) id) :=
  Layout.neighborsProfiling_eq_iff (L := b.bucketLayout) (b.length_vector id)
    (length_placedNeighbors_lt malloc hid) (stands_placedNeighbors h malloc hid)

end Buckets

/-- **All traversals decode the record of `id`**: those over the bucketed records read the
places of its out-neighbours, the one over the index in one piece reads the out-neighbours. -/
def DecodesRecord (b : BaseSet) (idx : BucketIndex) (baseIndex : Bytes) (id : ℕ) : Prop :=
  let v := idx.getVertex (idx.place id)
  let items := (b.adjacency id).map fun v => idx.place v.toNat
  idx.layout.neighborsOnBuckets v = items ∧
    idx.layout.neighborsProfiling v = items ∧
    (idx.layout.neighborsDistributed v).map Prod.snd = items ∧
    b.flatLayout.neighbors (getVertexFlat b.flatLayout baseIndex (UInt32.ofNat id))
      = b.adjacency id

/-- Vertices `0` and `256` on server `0`, vertex `512` on server `1`, and the others on server
`2`. -/
def fanBuckets : List UInt32 :=
  0 :: List.replicate 255 2 ++ 0 :: List.replicate 255 2 ++ [1]

lemma assigns_fanBuckets : Assigns fan 3 fanBuckets := by
  have hlt : ∀ w ∈ fanBuckets, w.toNat < 3 := by decide +kernel
  refine ⟨by decide, fun id hid => ?_⟩
  have hlen : id < fanBuckets.length :=
    hid.trans_eq (show fan.baseNum = fanBuckets.length by decide +kernel)
  rw [List.getD_eq_getElem _ _ hlen]
  exact hlt _ (List.getElem_mem hlen)

/-- The number of entries of a list with a property, up to a position. -/
lemma count_getD (p : UInt32 → Prop) [DecidablePred p] (l : List UInt32) {n : ℕ}
    (h : n ≤ l.length) : Nat.count (fun j => p (l.getD j 0)) n = (l.take n).countP (p ·) := by
  induction n with
  | zero => rfl
  | succ n ih =>
      rw [Nat.count_succ, ih (Nat.le_of_succ_le h), List.take_succ_eq_append_getElem h,
        List.countP_append, List.countP_singleton, List.getD_eq_getElem _ _ h]
      simp only [decide_eq_true_eq]

/-- Vertex `256` is the second of server `0`, and vertex `512` the first of server `1`. -/
lemma placedNeighbors_fan : placedNeighbors fan (arrange fan 3 fanBuckets fun _ _ => 0) 0
    = [(256, ⟨0, 1⟩), (512, ⟨1, 0⟩)] := by
  have hplace : ∀ id < fan.baseNum, (arrange fan 3 fanBuckets fun _ _ => 0).place id
      = ⟨(fanBuckets.getD id 0).toUInt8, UInt32.ofNat (rank fanBuckets id)⟩ := fun id hid =>
    place_arrange _ assigns_fanBuckets hid
  have hrank : ∀ id ≤ fanBuckets.length, rank fanBuckets id
      = (fanBuckets.take id).countP (·.toNat = (fanBuckets.getD id 0).toNat) := fun id hid =>
    count_getD (·.toNat = (fanBuckets.getD id 0).toNat) fanBuckets hid
  show [(256, BucketIndex.place _ 256), (512, BucketIndex.place _ 512)] = _
  rw [hplace 256 (by decide), hplace 512 (by decide), hrank 256 (by decide +kernel),
    hrank 512 (by decide +kernel)]
  decide +kernel

end

end RedAnns
