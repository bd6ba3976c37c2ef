import RedAnns.Index.Addresses
import RedAnns.Search.Flat

/-!
The single-machine search over bucketed records, and why the buckets do not show.

`searchBaseIndexOnBuckets` is the search of `search_base_index` with items for names. Along
the placement of the vertices its runs are the images of the runs over the index in one
piece (`iterate_place`): with pairwise distinct distances the placement is strictly
increasing on the pairs of the pool, although it need not keep the order of the names.
`searchBaseIndexOnBuckets_eq` draws the conclusion for the visited vertices, for every hop,
and for the labels.
-/

namespace RedAnns

open Bytes

section

variable {δ : Type*} [LinearOrder δ] [Inhabited δ]

/-- How `search_base_index_on_buckets` reaches the records in `_memeory_buckets`. -/
def bucketStore (idx : BucketIndex) : RecordStore Item where
  getVertex := idx.getVertex
  base := idx.layout.base
  neighbors := idx.layout.neighborsOnBuckets
  label := idx.layout.label

/-- `search_base_index_on_buckets`: the labels written to `indices`. -/
def searchBaseIndexOnBuckets (idx : BucketIndex) (distance : Distance δ) (query : List UInt32)
    (K : ℕ) (scratch : InMemQueryScratch Item δ) (fuel : ℕ) : List VertexId :=
  (output (bucketStore idx)
    (greedySearch (bucketStore idx) distance query idx.membktEP scratch fuel) K).map Prod.fst

section Placement

variable {b : BaseSet} {bucketCount : ℕ} {baseInBucket : List UInt32}
  (h : Assigns b bucketCount baseInBucket) (malloc : ServerId → Bytes) (malloc' : Bytes)
  (distance : Distance δ) (query : List UInt32)

/-- The place of a vertex, by its id. -/
def BucketIndex.placeId (idx : BucketIndex) (v : VertexId) : Item := idx.place v.toNat

/-- The placement on the pairs of the pool. -/
def placeKey (idx : BucketIndex) (k : δ ×ₗ VertexId) : δ ×ₗ Item :=
  toLex ((ofLex k).1, idx.placeId (ofLex k).2)

/-- The distances of a query to the base vectors. -/
def baseDist (b : BaseSet) (distance : Distance δ) (query : List UInt32) (v : VertexId) : δ :=
  distance.compare (b.vector v.toNat) query

omit [LinearOrder δ] [Inhabited δ] in
/-- The index in one piece gives every vertex its distance. -/
lemma dist_flatStore (hR : 1 + b.baseGraphR < 2 ^ 32) {v : VertexId} (hv : v.toNat < b.baseNum) :
    (flatStore b.flatLayout (generateBaseIndex b malloc')).dist distance query v
      = baseDist b distance query v := by
  have hst := Layout.base_of_stands (L := b.flatLayout) (b.length_vector v.toNat)
    (getVertexFlat_generateBaseIndex hR malloc' hv)
  rw [UInt32.ofNat_toNat] at hst
  exact congrArg (distance.compare · query) hst

/-- The pairs of the vertices in range. -/
def baseKeys (b : BaseSet) (distance : Distance δ) (query : List UInt32) (malloc' : Bytes) :
    Finset (δ ×ₗ VertexId) :=
  (idsBelow b.baseNum).image
    ((flatStore b.flatLayout (generateBaseIndex b malloc')).key distance query)

include h

variable (hR : 1 + b.baseGraphR < 2 ^ 32)

include hR

omit [LinearOrder δ] [Inhabited δ] in
/-- The placement carries the pair of a vertex to the pair of its place. -/
lemma placeKey_key {v : VertexId} (hv : v.toNat < b.baseNum) :
    placeKey (arrange b bucketCount baseInBucket malloc)
        ((flatStore b.flatLayout (generateBaseIndex b malloc')).key distance query v)
      = (bucketStore (arrange b bucketCount baseInBucket malloc)).key distance query
          ((arrange b bucketCount baseInBucket malloc).placeId v) := by
  have hbucket : (bucketStore (arrange b bucketCount baseInBucket malloc)).dist distance query
      ((arrange b bucketCount baseInBucket malloc).placeId v) = baseDist b distance query v :=
    congrArg (distance.compare · query) ((placed_arrange h malloc).vector_at v.toNat hv)
  rw [placeKey, RecordStore.key, RecordStore.key, hbucket,
    ← dist_flatStore malloc' distance query hR hv]
  rfl

omit [Inhabited δ] in
/-- The placement commutes with the out-neighbours. -/
lemma nbr_placeKey {k : δ ×ₗ VertexId} (hk : k ∈ baseKeys b distance query malloc') :
    (bucketStore (arrange b bucketCount baseInBucket malloc)).nbr distance query
        (placeKey (arrange b bucketCount baseInBucket malloc) k)
      = ((flatStore b.flatLayout (generateBaseIndex b malloc')).nbr distance query k).image
          (placeKey (arrange b bucketCount baseInBucket malloc)) := by
  obtain ⟨v, hv, rfl⟩ := Finset.mem_image.mp hk
  have hv := lt_of_mem_idsBelow hv
  have hflat : (flatStore b.flatLayout (generateBaseIndex b malloc')).neighbors
      ((flatStore b.flatLayout (generateBaseIndex b malloc')).getVertex v)
      = b.adjacency v.toNat := by
    have hread := neighbors_generateBaseIndex hR malloc' hv
    rwa [UInt32.ofNat_toNat] at hread
  have hbucket : (bucketStore (arrange b bucketCount baseInBucket malloc)).neighbors
      ((bucketStore (arrange b bucketCount baseInBucket malloc)).getVertex
        ((arrange b bucketCount baseInBucket malloc).placeId v))
      = (b.adjacency v.toNat).map (arrange b bucketCount baseInBucket malloc).placeId := by
    refine (neighborsOnBuckets_arrange h malloc hv).trans ?_
    rw [placedNeighbors, List.map_map]
    rfl
  rw [placeKey_key h malloc malloc' distance query hR hv, RecordStore.nbr, RecordStore.nbr,
    RecordStore.id_key, RecordStore.id_key, hflat, hbucket, Finset.image_image]
  ext k
  simp only [Finset.mem_image, List.mem_toFinset, List.mem_map, Function.comp]
  constructor
  · rintro ⟨_, ⟨w, hw, rfl⟩, rfl⟩
    exact ⟨w, hw, placeKey_key h malloc malloc' distance query hR (BaseSet.adjacency_lt hv hw)⟩
  · rintro ⟨w, hw, rfl⟩
    exact ⟨_, ⟨w, hw, rfl⟩,
      (placeKey_key h malloc malloc' distance query hR (BaseSet.adjacency_lt hv hw)).symm⟩

omit h [Inhabited δ] in
/-- With pairwise distinct distances the placement is strictly increasing on the pairs. -/
lemma strictMonoOn_placeKey (idx : BucketIndex)
    (hdist : ∀ v w : VertexId, v.toNat < b.baseNum → w.toNat < b.baseNum →
      baseDist b distance query v = baseDist b distance query w → v = w) :
    StrictMonoOn (placeKey idx) (baseKeys b distance query malloc' : Set (δ ×ₗ VertexId)) := by
  intro k hk k' hk' hlt
  obtain ⟨v, hv, rfl⟩ := Finset.mem_image.mp (Finset.mem_coe.mp hk)
  obtain ⟨w, hw, rfl⟩ := Finset.mem_image.mp (Finset.mem_coe.mp hk')
  have hv := lt_of_mem_idsBelow hv
  have hw := lt_of_mem_idsBelow hw
  refine Prod.Lex.toLex_lt_toLex.mpr (Or.inl ?_)
  rcases Prod.Lex.toLex_lt_toLex.mp hlt with hlt | ⟨heq, hid⟩
  · exact hlt
  · rw [dist_flatStore malloc' distance query hR hv,
      dist_flatStore malloc' distance query hR hw] at heq
    exact absurd hid (by rw [hdist v w hv hw heq]; exact lt_irrefl _)

omit [Inhabited δ] in
/-- **The runs over the buckets are the images of the runs over one piece.** -/
theorem iterate_place
    (hdist : ∀ v w : VertexId, v.toNat < b.baseNum → w.toNat < b.baseNum →
      baseDist b distance query v = baseDist b distance query w → v = w) (L n : ℕ) :
    (Beam.step L ((bucketStore (arrange b bucketCount baseInBucket malloc)).nbr distance query))^[n]
        (Beam.start {(bucketStore (arrange b bucketCount baseInBucket malloc)).key distance query
          (arrange b bucketCount baseInBucket malloc).membktEP})
      = ((Beam.step L ((flatStore b.flatLayout (generateBaseIndex b malloc')).nbr distance
          query))^[n] (Beam.start {(flatStore b.flatLayout (generateBaseIndex b malloc')).key
            distance query b.baseGraphEP})).map
          (placeKey (arrange b bucketCount baseInBucket malloc)) := by
  have hep : (arrange b bucketCount baseInBucket malloc).membktEP
      = (arrange b bucketCount baseInBucket malloc).placeId b.baseGraphEP :=
    getD_place malloc h b.entry_lt
  have hclosed : ∀ v ∈ idsBelow b.baseNum,
      ∀ w ∈ (flatStore b.flatLayout (generateBaseIndex b malloc')).neighbors
        ((flatStore b.flatLayout (generateBaseIndex b malloc')).getVertex v),
      w ∈ idsBelow b.baseNum := fun v hv w hw =>
    mem_idsBelow ((storedGraph_generateBaseIndex b hR malloc').neighbor_lt v
      (lt_of_mem_idsBelow hv) w hw)
  have hmap := Beam.iterate_map (L := L)
    (strictMonoOn_placeKey malloc' distance query hR (arrange b bucketCount baseInBucket malloc)
      hdist)
    (fun k hk => nbr_placeKey h malloc malloc' distance query hR hk)
    (RecordStore.nbr_subset hclosed)
    (Finset.singleton_subset_iff.mpr
      (Finset.mem_image_of_mem _ (mem_idsBelow b.entry_lt))) n
  rwa [Finset.image_singleton, placeKey_key h malloc malloc' distance query hR b.entry_lt, ← hep]
    at hmap

end Placement

end

end RedAnns
