import RedAnns.Index.Placement

/-!
Every address leads to its own vertex.

`Placed b idx` collects what an index on buckets owes to its base set: the lookup arrays are
a bijection onto the slots in use (`bijective`), the slot of a vertex carries its vector, its
label and the places of its neighbours (`vector_at`, `label_at`, `neighbors_at`), records
stay within their slots and fields within their records (`fields_apart`, `writes_stay`,
`slot_le`), and the entry points lead where they should (`entry_label`, `adaptive_labels`).

`placed_arrange` proves it of every assignment of the vertices to buckets,
`placed_generateBaseIndexOnBuckets` of the one by closest centroids.
-/

namespace RedAnns

open Bytes

/-- **What an index on buckets owes to its base set.** -/
structure Placed (b : BaseSet) (idx : BucketIndex) : Prop where
  bijective : Set.BijOn
    (fun id => ((idx.baseInBucket.getD id 0).toNat, (idx.baseToLid.getD id 0).toNat))
    {id | id < b.baseNum} {p | p.1 < idx.bucketCount ∧ p.2 < idx.dataNum.getD p.1 0}
  vector_at : ∀ id < b.baseNum, idx.layout.base (idx.getVertex (idx.place id)) = b.vector id
  label_at : ∀ id < b.baseNum,
    idx.layout.label (idx.getVertex (idx.place id)) = UInt32.ofNat id
  neighbors_at : ∀ id < b.baseNum,
    idx.layout.neighborsDistributed (idx.getVertex (idx.place id))
      = (b.adjacency id).map fun v => (v, idx.place v.toNat)
  fields_apart : Layout.dataOffset + 4 * b.dimension ≤ idx.layout.labelOffset ∧
    idx.layout.labelOffset + 4 ≤ idx.layout.neighborOffset ∧
    ∀ id < b.baseNum,
      idx.layout.neighborOffset + 4 + 9 * (b.adjacency id).length ≤ idx.layout.elementSize
  writes_stay : ∀ id < b.baseNum, ∀ (m : ServerId → Bytes) (q : ServerId) (a : ℕ),
    (q = (idx.place id).first → a < (idx.place id).second.toNat * idx.layout.elementSize ∨
      (idx.place id).second.toNat * idx.layout.elementSize + idx.layout.elementSize ≤ a) →
    putRecord b (alloc idx.bucketCount idx.baseInBucket b.baseNum).place m id q a = m q a
  slot_le : ∀ id < b.baseNum,
    (idx.place id).second.toNat * idx.layout.elementSize + idx.layout.elementSize
      ≤ idx.dataNum.getD (idx.place id).first.toNat 0 * idx.layout.elementSize
  entry_label : idx.layout.label (idx.getVertex idx.membktEP) = b.baseGraphEP
  adaptive_labels : ∀ (projections : List (List VertexId)) (learnIndexRes adaptiveEpNum : ℕ)
    (initIds items : List Item),
    addAdaptiveEp idx.baseInBucket idx.baseToLid projections learnIndexRes adaptiveEpNum initIds
      = .ok items →
    (∀ v ∈ (projections.getD learnIndexRes []).take adaptiveEpNum, v.toNat < b.baseNum) →
    ∃ added, items = initIds ++ added ∧
      added.map (fun t => idx.layout.label (idx.getVertex t))
        = (projections.getD learnIndexRes []).take adaptiveEpNum

section

variable {b : BaseSet} {bucketCount : ℕ} {baseInBucket : List UInt32}

/-- The lookup arrays number the slots in use. -/
lemma bijOn_place (h : Assigns b bucketCount baseInBucket) (malloc : ServerId → Bytes) :
    Set.BijOn (fun id => (((arrange b bucketCount baseInBucket malloc).baseInBucket.getD
        id 0).toNat, ((arrange b bucketCount baseInBucket malloc).baseToLid.getD id 0).toNat))
      {id | id < b.baseNum}
      {p | p.1 < (arrange b bucketCount baseInBucket malloc).bucketCount ∧
        p.2 < (arrange b bucketCount baseInBucket malloc).dataNum.getD p.1 0} := by
  have hbij := bijOn_rank (fun i => (baseInBucket.getD i 0).toNat) b.baseNum (· < bucketCount)
    h.lt
  have hset : {p : ℕ × ℕ | p.1 < (arrange b bucketCount baseInBucket malloc).bucketCount ∧
      p.2 < (arrange b bucketCount baseInBucket malloc).dataNum.getD p.1 0}
      = {p | p.1 < bucketCount ∧
        p.2 < Nat.count (fun j => (baseInBucket.getD j 0).toNat = p.1) b.baseNum} := by
    ext ⟨q, l⟩
    refine and_congr_right fun hq => ?_
    show l < (alloc bucketCount baseInBucket b.baseNum).dataNum.getD q 0 ↔ _
    rw [(alloc_spec h.count_le h.lt).2.1 q hq]
  rw [hset]
  refine hbij.congr fun id hid => Prod.ext rfl ?_
  exact (second_place malloc h hid).symm

/-- A slot in use ends within its bucket. -/
lemma slot_le_arrange (h : Assigns b bucketCount baseInBucket) (malloc : ServerId → Bytes)
    {id : ℕ} (hid : id < b.baseNum) (size : ℕ) :
    ((arrange b bucketCount baseInBucket malloc).place id).second.toNat * size + size
      ≤ (arrange b bucketCount baseInBucket malloc).dataNum.getD
          ((arrange b bucketCount baseInBucket malloc).place id).first.toNat 0 * size := by
  have hlt := ((bijOn_place h malloc).mapsTo hid).2
  rw [← Nat.succ_mul]
  refine Nat.mul_le_mul_right size (Nat.succ_le_of_lt ?_)
  rw [first_place malloc h hid]
  exact hlt

/-- **Every assignment of the vertices to buckets is placed.** -/
theorem placed_arrange (h : Assigns b bucketCount baseInBucket) (malloc : ServerId → Bytes) :
    Placed b (arrange b bucketCount baseInBucket malloc) := by
  have hx : ∀ id, (b.vector id).length = b.bucketLayout.dimension := b.length_vector
  have hstand := fun id (hid : id < b.baseNum) => getVertex_arrange malloc h hid
  have hlabel : ∀ v : VertexId, v.toNat < b.baseNum →
      b.bucketLayout.label ((arrange b bucketCount baseInBucket malloc).getVertex
        ((arrange b bucketCount baseInBucket malloc).place v.toNat)) = v := fun v hv => by
    rw [Layout.label_of_stands (hx _) (hstand _ hv), UInt32.ofNat_toNat]
  refine
    { bijective := bijOn_place h malloc
      vector_at := fun id hid => Layout.base_of_stands (hx id) (hstand id hid)
      label_at := fun id hid => Layout.label_of_stands (hx id) (hstand id hid)
      neighbors_at := fun id hid => ?_
      fields_apart := ⟨?_, le_rfl, fun id hid => ?_⟩
      writes_stay := fun id hid m q a hout => ?_
      slot_le := fun id hid => slot_le_arrange h malloc hid _
      entry_label := ?_
      adaptive_labels := fun projections learnIndexRes adaptiveEpNum initIds items hok hlt => ?_ }
  · have hst := hstand id hid
    rw [← List.length_map (fun v =>
      (v, (arrange b bucketCount baseInBucket malloc).place v.toNat))] at hst
    exact Layout.neighborsDistributed_of_stands (hx id)
      (by rw [List.length_map]; exact BaseSet.degree_adjacency_lt hid) hst
  · show 0 + 4 * b.dimension ≤ b.dimension * 4
    omega
  · have hdeg := BaseSet.degree_adjacency_le hid
    show b.bucketLayout.neighborOffset + 4 + 9 * (b.adjacency id).length
      ≤ b.bucketLayout.neighborOffset + (4 + b.baseGraphR * (4 + 1 + 4))
    omega
  · have hplace : (alloc (arrange b bucketCount baseInBucket malloc).bucketCount
        (arrange b bucketCount baseInBucket malloc).baseInBucket b.baseNum).place.getD id default
        = (arrange b bucketCount baseInBucket malloc).place id := getD_place malloc h hid
    refine putRecord_of_outside hid m fun hq => ?_
    rw [hplace] at hq ⊢
    exact hout hq
  · have hep : (arrange b bucketCount baseInBucket malloc).membktEP
        = (arrange b bucketCount baseInBucket malloc).place b.baseGraphEP.toNat :=
      getD_place malloc h b.entry_lt
    rw [hep]
    exact hlabel _ b.entry_lt
  · refine ⟨_, addAdaptiveEp_eq hok, ?_⟩
    rw [List.map_map]
    exact (List.map_congr_left fun v hv => hlabel v (hlt v hv)).trans (List.map_id _)

end

/-- **Placement is a bijection and every address leads to its own vertex.** With at least one
centroid and no more centroids than buckets, `generate_base_index_on_buckets` refuses only an
empty dimension, and the index it leaves is placed. -/
theorem placed_generateBaseIndexOnBuckets {δ : Type*} [LinearOrder δ] (b : BaseSet)
    (clusters : CoarseClusters) (distance : Distance δ) (bucketCount : ℕ)
    (malloc : ServerId → Bytes) (hpos : 1 ≤ clusters.num) (hle : clusters.num ≤ bucketCount)
    (h256 : bucketCount ≤ 256) :
    (0 < b.dimension →
      ∃ idx, generateBaseIndexOnBuckets b clusters distance bucketCount malloc = .ok idx) ∧
    ∀ idx, generateBaseIndexOnBuckets b clusters distance bucketCount malloc = .ok idx →
      Placed b idx := by
  refine ⟨fun hdim => ?_, fun idx hok => ?_⟩
  · obtain ⟨baseInBucket, hassign⟩ := assignBuckets_ok distance hpos hdim
    exact ⟨_, by rw [generateBaseIndexOnBuckets, hassign]; rfl⟩
  · rw [generateBaseIndexOnBuckets] at hok
    cases hassign : assignBuckets b clusters distance with
    | error e => rw [hassign] at hok; exact absurd hok (by simp [bind, Except.bind])
    | ok baseInBucket =>
        rw [hassign] at hok
        obtain ⟨-, hlt⟩ := assignBuckets_spec (by omega) hassign
        rw [← show arrange b bucketCount baseInBucket malloc = idx from Except.ok.inj hok]
        exact placed_arrange ⟨h256, fun id hid => (hlt id hid).trans_le hle⟩ malloc

/-- The two points on two buckets, by one centroid and the L2 distance. -/
theorem placed_twoPoints : ∃ idx, generateBaseIndexOnBuckets twoPoints ⟨1, fun _ => 0⟩
    (distanceL2 fun w => (w.toNat : ℚ)) 2 (fun _ _ => 0) = .ok idx ∧ Placed twoPoints idx := by
  obtain ⟨hok, hplaced⟩ := placed_generateBaseIndexOnBuckets twoPoints ⟨1, fun _ => 0⟩
    (distanceL2 fun w => (w.toNat : ℚ)) 2 (fun _ _ => 0) (by decide) (by decide) (by decide)
  obtain ⟨idx, hidx⟩ := hok (by decide)
  exact ⟨idx, hidx, hplaced idx hidx⟩

end RedAnns
