import RedAnns.Core.Pivots

/-!
Lookups in the tables of a query (`src/pq.cpp`), against distances to the decoded vectors.

The same numbers stand in four layouts: pivots in rows, their transpose, the table of a query with
one row a chunk, and codes that are gathered for a batch of vertices. The functions here work on the
arrays themselves; `Core/PqTable` has the table of a query as a list of rows.

* `populateChunkDistancesIn`, `populateChunkInnerProducts`: the tables of a query, which one loop
  fills (`populateChunks`).
* `l2Distance`, `innerProduct`, `inflateVector`: what the tables save.
* `aggregateCoords`, `pqDistLookup` and their versions for plain arrays: lookups for a batch.
* `LooksUp`, `pqLookups`: the lookups are the distances, to the centered vectors when the query is
  centered first, and for the tables of `generate_quantized_data` without that.
* `PQ.estimate_eq_sum`: the estimate of the search, which does not center its queries.
-/

namespace RedAnns

section Source

variable {K : Type*} [Field K]

namespace FixedChunkPQTable

variable (t : FixedChunkPQTable K) (query : List K)

/-- The loop over the coordinates of a chunk. -/
def coords (chunk : ℕ) : List ℕ :=
  List.range' (t.chunkOffset chunk) (t.chunkOffset (chunk + 1) - t.chunkOffset chunk)

/-- `preprocess_query`. -/
def preprocessQuery : List K :=
  (List.range t.ndims).foldl (fun queryVec d => queryVec.modify d (· - t.centroid.getD d 0)) query

/-- The product that coordinate `j` takes off for pivot `idx`. -/
def product (j idx : ℕ) : K := t.tablesTr j idx * query.getD j 0

/-- The loops of both tables: coordinate `j` adds `term j idx` to the entry of pivot `idx`. -/
def populateChunks (term : ℕ → ℕ → K) (distVec : Buffer K) : Buffer K :=
  (distVec.clear (numPqCentroids * t.nChunks)).addRows numPqCentroids t.coords term t.nChunks

/-- `populate_chunk_distances`, into the array `dist_vec`. -/
def populateChunkDistancesIn : Buffer K → Buffer K := t.populateChunks (t.square query)

/-- `populate_chunk_inner_products`: `chunk_dists[idx] -= prod`. -/
def populateChunkInnerProducts : Buffer K → Buffer K :=
  t.populateChunks fun j idx => -t.product query j idx

/-- The loops over chunks and coordinates that `l2_distance` and `inner_product` share. -/
def accumulate (term : ℕ → ℕ → K) (baseVec : Bytes) : K :=
  (List.range t.nChunks).foldl (fun res chunk =>
    (t.coords chunk).foldl (fun res j => res + term j (baseVec chunk).toNat) res) 0

/-- `l2_distance`. -/
def l2Distance : Bytes → K := t.accumulate (t.square query)

/-- `inner_product`, whose sign is turned. -/
def innerProduct (baseVec : Bytes) : K := -t.accumulate (t.product query) baseVec

/-- `inflate_vector`. -/
def inflateVector (baseVec : Bytes) (outVec : Buffer K) : Buffer K :=
  (List.range t.nChunks).foldl (fun outVec chunk =>
    (t.coords chunk).foldl (fun outVec j =>
      Function.update outVec j (t.tablesTr j (baseVec chunk).toNat + t.centroid.getD j 0)) outVec)
    outVec

end FixedChunkPQTable

/-- `pq_dist_lookup_single`, in the array of the table. -/
def pqDistLookupSingleIn (pqId : Bytes) (pqNchunks : ℕ) (pqDists : Buffer K) : K :=
  (List.range pqNchunks).foldl
    (fun distOut chunk => distOut + pqDists.view (chunk * numPqCentroids) (pqId chunk).toNat) 0

/-- `aggregate_coords` of plain arrays. The products are of 64 bits. -/
def aggregateCoordsPtr (ids : ℕ → VertexId) (nIds : ℕ) (allCoords : Bytes) (ndims : ℕ)
    (out : Bytes) : Bytes :=
  (List.range nIds).foldl
    (fun out i => out.write (i * ndims) (allCoords.read ((ids i).toNat * ndims) ndims)) out

/-- `aggregate_coords` of a vector of ids. -/
def aggregateCoords (ids : List VertexId) (allCoords : Bytes) (ndims : ℕ) (out : Bytes) : Bytes :=
  aggregateCoordsPtr (fun i => ids.getD i 0) ids.length allCoords ndims out

/-- What chunk `chunk` adds for point `idx`. -/
def chunkDist (pqIds : Bytes) (pqNchunks : ℕ) (pqDists : Buffer K) (chunk idx : ℕ) : K :=
  pqDists.view (chunk * numPqCentroids) (pqIds (pqNchunks * idx + chunk)).toNat

/-- `pq_dist_lookup` into a vector, which is cleared and sized first. -/
def pqDistLookup (pqIds : Bytes) (nPts pqNchunks : ℕ) (pqDists : Buffer K) : List K :=
  (List.range pqNchunks).foldl
    (fun distsOut chunk =>
      distsOut.mapIdx fun idx dist => dist + chunkDist pqIds pqNchunks pqDists chunk idx)
    (List.replicate nPts 0)

/-- `pq_dist_lookup` into a plain array. -/
def pqDistLookupPtr (pqIds : Bytes) (nPts pqNchunks : ℕ) (pqDists distsOut : Buffer K) : Buffer K :=
  (List.range pqNchunks).foldl
    (fun distsOut chunk => distsOut.addEach 0 nPts (chunkDist pqIds pqNchunks pqDists chunk))
    (distsOut.clear nPts)

end Source

/-! ### The tables hold the distances -/

section Tables

variable {K : Type*} [Field K]

lemma pqDistLookupSingleIn_eq (pqId : Bytes) (n : ℕ) (pqDists : Buffer K) :
    pqDistLookupSingleIn pqId n pqDists
      = ∑ chunk ∈ Finset.range n, pqDists (chunk * numPqCentroids + (pqId chunk).toNat) := by
  rw [pqDistLookupSingleIn, foldl_add, zero_add]
  rfl

namespace FixedChunkPQTable

variable {t : FixedChunkPQTable K} {query : List K} {term : ℕ → ℕ → K}

/-- The entry of a chunk and a pivot. -/
lemma populateChunks_apply (distVec : Buffer K) {chunk idx : ℕ} (hc : chunk < t.nChunks)
    (hi : idx < numPqCentroids) :
    t.populateChunks term distVec (chunk * numPqCentroids + idx)
      = ∑ j ∈ Finset.Ico (t.chunkOffset chunk) (t.chunkOffset (chunk + 1)), term j idx := by
  have hlt : chunk * numPqCentroids + idx < numPqCentroids * t.nChunks := by
    have hrow : (chunk + 1) * numPqCentroids ≤ t.nChunks * numPqCentroids :=
      Nat.mul_le_mul_right _ hc
    rw [Nat.succ_mul] at hrow
    rw [Nat.mul_comm numPqCentroids t.nChunks]
    omega
  rw [populateChunks, Buffer.addRows_apply _ _ hc hi, Buffer.clear_of_lt hlt, zero_add]
  rfl

lemma accumulate_eq (baseVec : Bytes) : t.accumulate term baseVec
    = ∑ chunk ∈ Finset.range t.nChunks,
        ∑ j ∈ Finset.Ico (t.chunkOffset chunk) (t.chunkOffset (chunk + 1)),
          term j (baseVec chunk).toNat := by
  simp only [accumulate, foldl_add, zero_add]
  rfl

/-- **A lookup sums up what the loops over chunks and coordinates add**, whatever they add. -/
theorem lookup_populateChunks (baseVec : Bytes) (distVec : Buffer K) :
    pqDistLookupSingleIn baseVec t.nChunks (t.populateChunks term distVec)
      = t.accumulate term baseVec := by
  rw [pqDistLookupSingleIn_eq, accumulate_eq]
  refine Finset.sum_congr rfl fun chunk hc => ?_
  exact populateChunks_apply distVec (Finset.mem_range.mp hc) (UInt8.toNat_lt _)

lemma accumulate_neg (baseVec : Bytes) :
    t.accumulate (fun j idx => -term j idx) baseVec = -t.accumulate term baseVec := by
  rw [accumulate_eq, accumulate_eq]
  simp only [Finset.sum_neg_distrib]

/-! ### Decoded vectors -/

lemma getD_preprocessQuery (h : t.ndims ≤ query.length) {j : ℕ} (hj : j < t.ndims) :
    (t.preprocessQuery query).getD j 0 = query.getD j 0 - t.centroid.getD j 0 := by
  have key : ∀ n ≤ query.length, ∀ j < query.length,
      ((List.range n).foldl (fun queryVec d => queryVec.modify d (· - t.centroid.getD d 0))
          query)[j]?
        = some (if j < n then query.getD j 0 - t.centroid.getD j 0 else query.getD j 0) := by
    intro n
    induction n with
    | zero =>
        intro _ j hj
        simp [List.getD_eq_getElem?_getD, hj]
    | succ n ih =>
        intro hn j hj
        rw [List.range_succ, List.foldl_append, List.foldl_cons, List.foldl_nil,
          List.getElem?_modify, ih (by omega) j hj]
        by_cases heq : n = j
        · subst heq
          simp
        · have hiff : j < n + 1 ↔ j < n := by omega
          simp [heq, hiff]
  rw [List.getD_eq_getElem?_getD, preprocessQuery, key _ h j (hj.trans_le h), if_pos hj,
    Option.getD_some]

omit [Field K] in
lemma chunkOffset_le {c c' : ℕ} (h : c ≤ c') (hc' : c' ≤ t.nChunks) :
    t.chunkOffset c ≤ t.chunkOffset c' := monotone_chunkOffsets t.mono h hc'

omit [Field K] in
/-- What `inflate_vector` writes for a chunk. -/
lemma foldl_update_apply (v : ℕ → K) (lo n : ℕ) (outVec : Buffer K) (j : ℕ) :
    (List.range' lo n).foldl (fun outVec j => Function.update outVec j (v j)) outVec j
      = if lo ≤ j ∧ j < lo + n then v j else outVec j := by
  induction n with
  | zero => rw [if_neg (by omega)]; rfl
  | succ n ih =>
      rw [List.range'_concat, Nat.one_mul, List.foldl_append, List.foldl_cons, List.foldl_nil]
      by_cases hj : j = lo + n
      · subst hj
        rw [Function.update_self, if_pos (by omega)]
      · rw [Function.update_of_ne hj, ih]
        exact if_congr (by omega) rfl rfl

lemma inflateVector_apply (baseVec : Bytes) (outVec : Buffer K) {chunk j : ℕ}
    (hc : chunk < t.nChunks) (hlo : t.chunkOffset chunk ≤ j) (hhi : j < t.chunkOffset (chunk + 1)) :
    t.inflateVector baseVec outVec j
      = t.tablesTr j (baseVec chunk).toNat + t.centroid.getD j 0 := by
  have key : ∀ n ≤ t.nChunks, chunk < n →
      (List.range n).foldl (fun outVec chunk => (t.coords chunk).foldl (fun outVec j =>
          Function.update outVec j (t.tablesTr j (baseVec chunk).toNat + t.centroid.getD j 0))
        outVec) outVec j = t.tablesTr j (baseVec chunk).toNat + t.centroid.getD j 0 := by
    intro n
    induction n with
    | zero => exact fun _ hn => absurd hn (Nat.not_lt_zero chunk)
    | succ n ih =>
        intro hn hlt
        have hmono := t.mono n hn
        rw [← chunkOffset, ← chunkOffset] at hmono
        rw [List.range_succ, List.foldl_append, List.foldl_cons, List.foldl_nil, coords,
          foldl_update_apply fun j => t.tablesTr j (baseVec n).toNat + t.centroid.getD j 0]
        rcases eq_or_lt_of_le (Nat.le_of_lt_succ hlt) with rfl | hlt
        · rw [if_pos (by omega)]
        · have hnext : t.chunkOffset (chunk + 1) ≤ t.chunkOffset n := chunkOffset_le hlt (by omega)
          rw [if_neg (by omega), ih (by omega) hlt]
  exact key _ le_rfl hc

/-- The loops over the squares of coordinates `x j` are the squared distance of the decoded vector
to `y`, when the centroid is what the coordinates differ by. -/
lemma accumulate_square_eq {y : List K}
    (h : ∀ j < t.ndims, query.getD j 0 = y.getD j 0 - t.centroid.getD j 0) (baseVec : Bytes)
    (outVec : Buffer K) :
    t.accumulate (t.square query) baseVec
      = ∑ j ∈ Finset.range t.ndims, (y.getD j 0 - t.inflateVector baseVec outVec j) ^ 2 := by
  have hlast : t.chunkOffset t.nChunks = t.ndims := t.last_eq
  rw [accumulate_eq, ← hlast, ← t.sum_chunks _ _ le_rfl]
  refine Finset.sum_congr rfl fun chunk hc => Finset.sum_congr rfl fun j hj => ?_
  rw [Finset.mem_range] at hc
  obtain ⟨hlo, hhi⟩ := Finset.mem_Ico.mp hj
  have hdim : j < t.ndims := by
    rw [← hlast]
    exact hhi.trans_le (chunkOffset_le hc le_rfl)
  rw [inflateVector_apply baseVec outVec hc hlo hhi, square, h j hdim]
  ring

end FixedChunkPQTable

/-! ### Batches -/

/-- The row of every id is gathered. -/
lemma aggregateCoordsPtr_apply (ids : ℕ → VertexId) (allCoords out : Bytes) (ndims : ℕ)
    {nIds i chunk : ℕ} (hi : i < nIds) (hc : chunk < ndims) :
    aggregateCoordsPtr ids nIds allCoords ndims out (i * ndims + chunk)
      = allCoords ((ids i).toNat * ndims + chunk) := by
  induction nIds with
  | zero => exact absurd hi (Nat.not_lt_zero i)
  | succ n ih =>
      rw [aggregateCoordsPtr, List.range_succ, List.foldl_append, ← aggregateCoordsPtr,
        List.foldl_cons, List.foldl_nil]
      rcases eq_or_lt_of_le (Nat.le_of_lt_succ hi) with rfl | hlt
      · have hlen : chunk < (allCoords.read ((ids i).toNat * ndims) ndims).length := by
          rwa [Bytes.length_read]
        rw [Bytes.stands_write _ _ _ chunk hlen, Bytes.getElem_read]
      · have hrow : (i + 1) * ndims ≤ n * ndims := Nat.mul_le_mul_right ndims hlt
        rw [Nat.succ_mul] at hrow
        rw [Bytes.write_of_outside (Or.inl (by omega)), ih hlt]

/-- The lookup of a point in the gathered rows. -/
lemma sum_chunkDist (ids : ℕ → VertexId) (allCoords out : Bytes) (ndims : ℕ) (pqDists : Buffer K)
    {nIds i : ℕ} (hi : i < nIds) :
    ((List.range ndims).map fun chunk =>
        chunkDist (aggregateCoordsPtr ids nIds allCoords ndims out) ndims pqDists chunk i).sum
      = pqDistLookupSingleIn (allCoords.view ((ids i).toNat * ndims)) ndims pqDists := by
  rw [pqDistLookupSingleIn, foldl_add, zero_add]
  refine congrArg List.sum (List.map_congr_left fun chunk hc => ?_)
  rw [chunkDist, Nat.mul_comm ndims i,
    aggregateCoordsPtr_apply ids allCoords out ndims hi (List.mem_range.mp hc)]
  rfl

lemma getElem?_pqDistLookup (pqIds : Bytes) (pqNchunks : ℕ) (pqDists : Buffer K) {nPts i : ℕ}
    (hi : i < nPts) : (pqDistLookup pqIds nPts pqNchunks pqDists)[i]?
      = some ((List.range pqNchunks).map fun chunk =>
          chunkDist pqIds pqNchunks pqDists chunk i).sum := by
  have key : ∀ (chunks : List ℕ) (dists : List K) (dist : K), dists[i]? = some dist →
      (chunks.foldl (fun distsOut chunk =>
          distsOut.mapIdx fun idx dist => dist + chunkDist pqIds pqNchunks pqDists chunk idx)
        dists)[i]?
      = some (dist + (chunks.map fun chunk => chunkDist pqIds pqNchunks pqDists chunk i).sum) := by
    intro chunks
    induction chunks with
    | nil =>
        intro dists dist h
        rw [List.foldl_nil, List.map_nil, List.sum_nil, add_zero, h]
    | cons chunk chunks ih =>
        intro dists dist h
        rw [List.foldl_cons, ih _ (dist + chunkDist pqIds pqNchunks pqDists chunk i)
          (by rw [List.getElem?_mapIdx, h]; rfl), List.map_cons, List.sum_cons, add_assoc]
  rw [pqDistLookup, key _ _ 0 (by rw [List.getElem?_replicate, if_pos hi]), zero_add]

lemma pqDistLookupPtr_apply (pqIds : Bytes) (pqNchunks : ℕ) (pqDists distsOut : Buffer K)
    {nPts i : ℕ} (hi : i < nPts) : pqDistLookupPtr pqIds nPts pqNchunks pqDists distsOut i
      = ((List.range pqNchunks).map fun chunk =>
          chunkDist pqIds pqNchunks pqDists chunk i).sum := by
  have hloop := Buffer.foldl_addEach (m := distsOut.clear nPts) (p := 0)
    (f := chunkDist pqIds pqNchunks pqDists) (List.range pqNchunks) hi
  rwa [Nat.zero_add, Buffer.clear_of_lt hi, zero_add] at hloop

end Tables

/-! ### The lookups are the distances -/

section Results

variable {K : Type*} [Field K]

/-- **Lookups are distances**: one in the table of a query is the distance that the loops over the
coordinates compute, a batch has the lookups of its codes, and that of a centered query is the
squared distance to the decoded vector. -/
structure LooksUp (t : FixedChunkPQTable K) : Prop where
  distances : ∀ (query : List K) (distVec : Buffer K) (code : Bytes),
    pqDistLookupSingleIn code t.nChunks (t.populateChunkDistancesIn query distVec)
      = t.l2Distance query code
  innerProducts : ∀ (query : List K) (distVec : Buffer K) (code : Bytes),
    pqDistLookupSingleIn code t.nChunks (t.populateChunkInnerProducts query distVec)
      = t.innerProduct query code
  gathered : ∀ (ids : List VertexId) (allCoords out : Bytes) (pqDists distsOut : Buffer K) (i : ℕ)
    (hi : i < ids.length),
    let single := pqDistLookupSingleIn (allCoords.view (ids[i].toNat * t.nChunks)) t.nChunks pqDists
    let rows := aggregateCoords ids allCoords t.nChunks out
    (pqDistLookup rows ids.length t.nChunks pqDists)[i]? = some single ∧
      pqDistLookupPtr rows ids.length t.nChunks pqDists distsOut i = single
  gatheredPtr : ∀ (ids : ℕ → VertexId) (nIds : ℕ) (allCoords out : Bytes)
    (pqDists distsOut : Buffer K), ∀ i < nIds,
    let single :=
      pqDistLookupSingleIn (allCoords.view ((ids i).toNat * t.nChunks)) t.nChunks pqDists
    let rows := aggregateCoordsPtr ids nIds allCoords t.nChunks out
    (pqDistLookup rows nIds t.nChunks pqDists)[i]? = some single ∧
      pqDistLookupPtr rows nIds t.nChunks pqDists distsOut i = single
  preprocessed : ∀ (query : List K), t.ndims ≤ query.length →
    ∀ (distVec outVec : Buffer K) (code : Bytes),
    pqDistLookupSingleIn code t.nChunks
        (t.populateChunkDistancesIn (t.preprocessQuery query) distVec)
      = ∑ j ∈ Finset.range t.ndims, (query.getD j 0 - t.inflateVector code outVec j) ^ 2

namespace FixedChunkPQTable

variable (t : FixedChunkPQTable K)

/-- A batch has the lookups of its codes. -/
lemma gatheredPtr (ids : ℕ → VertexId) (allCoords out : Bytes) (pqDists distsOut : Buffer K)
    {nIds i : ℕ} (hi : i < nIds) :
    (pqDistLookup (aggregateCoordsPtr ids nIds allCoords t.nChunks out) nIds t.nChunks
        pqDists)[i]?
        = some (pqDistLookupSingleIn (allCoords.view ((ids i).toNat * t.nChunks)) t.nChunks
          pqDists) ∧
      pqDistLookupPtr (aggregateCoordsPtr ids nIds allCoords t.nChunks out) nIds t.nChunks pqDists
          distsOut i
        = pqDistLookupSingleIn (allCoords.view ((ids i).toNat * t.nChunks)) t.nChunks pqDists := by
  rw [getElem?_pqDistLookup _ _ _ hi, pqDistLookupPtr_apply _ _ _ _ hi,
    sum_chunkDist ids allCoords out t.nChunks pqDists hi]
  exact ⟨rfl, rfl⟩

theorem looksUp : LooksUp t where
  distances := fun query distVec code => lookup_populateChunks code distVec
  innerProducts := fun query distVec code => by
    rw [populateChunkInnerProducts, lookup_populateChunks, accumulate_neg, innerProduct]
  gathered := fun ids allCoords out pqDists distsOut i hi => by
    have hget : ids.getD i 0 = ids[i] := List.getD_eq_getElem _ _ hi
    have hbatch := t.gatheredPtr (fun i => ids.getD i 0) allCoords out pqDists distsOut hi
    rwa [hget] at hbatch
  gatheredPtr := fun ids nIds allCoords out pqDists distsOut i hi =>
    t.gatheredPtr ids allCoords out pqDists distsOut hi
  preprocessed := fun query hquery distVec outVec code => by
    rw [populateChunkDistancesIn, lookup_populateChunks]
    exact accumulate_square_eq (fun j hj => getD_preprocessQuery hquery hj) code outVec

/-- **A table with a zero centroid** needs no centered queries. -/
theorem lookup_of_centroid (h : ∀ j, t.centroid.getD j 0 = 0) (query : List K)
    (distVec outVec : Buffer K) (code : Bytes) :
    pqDistLookupSingleIn code t.nChunks (t.populateChunkDistancesIn query distVec)
      = ∑ j ∈ Finset.range t.ndims, (query.getD j 0 - t.inflateVector code outVec j) ^ 2 := by
  rw [populateChunkDistancesIn, lookup_populateChunks]
  exact accumulate_square_eq (fun j _ => by rw [h j, sub_zero]) code outVec

end FixedChunkPQTable

/-- **PQ lookups equal distances to the decoded vectors**, for every table; with the tables of
`generate_quantized_data` the query is not centered, as in the search. -/
theorem pqLookups : (∀ t : FixedChunkPQTable K, LooksUp t) ∧
    ∀ (cluster : List K → ℕ → ℕ → List K) (heap : Buffer K) (existing : Option (ℕ × ℕ))
      (trainData : List K) (trainSize trainDim : ℕ) (compareMetric : Efanna2e.Metric)
      (numPqChunks : ℕ) (p : Pivots K) (h : generateQuantizedData cluster heap existing trainData
        trainSize trainDim compareMetric numPqChunks = some p)
      (query : List K) (distVec outVec : Buffer K) (code : Bytes),
      let t := p.table (cuts_generateQuantizedData h)
      pqDistLookupSingleIn code t.nChunks (t.populateChunkDistancesIn query distVec)
        = ∑ j ∈ Finset.range t.ndims, (query.getD j 0 - t.inflateVector code outVec j) ^ 2 :=
  ⟨fun t => t.looksUp, fun _ _ _ _ _ _ _ _ p h query distVec outVec code =>
    (p.table (cuts_generateQuantizedData h)).lookup_of_centroid
      (centroid_generateQuantizedData h) query distVec outVec code⟩

/-- A clustering that takes the training vectors for pivots, over and over. -/
def cycleVectors (data : List ℚ) (numTrain dim : ℕ) : List ℚ :=
  (List.range (numPqCentroids * dim)).map fun a => data.getD (a % (numTrain * dim)) 0

/-- Three training vectors of three coordinates, in two chunks. -/
theorem pqLookups_threeVectors : ∃ (p : Pivots ℚ)
    (h : generateQuantizedData cycleVectors (fun _ => 0)
      none [7, 200, 16, 30, 4, 90, 255, 0, 128] 3 3 .L2 2 = some p),
    p.chunkOffsets = [0, 2, 3] ∧
      ∀ (query : List ℚ) (distVec outVec : Buffer ℚ) (code : Bytes),
        let t := p.table (cuts_generateQuantizedData h)
        pqDistLookupSingleIn code t.nChunks (t.populateChunkDistancesIn query distVec)
          = ∑ j ∈ Finset.range t.ndims, (query.getD j 0 - t.inflateVector code outVec j) ^ 2 := by
  obtain ⟨s, hs, hoffsets⟩ : ∃ s, assignDims 3 2 = some s ∧
      chunkOffsetsOf 3 2 s.binToDims = [0, 2, 3] := by
    have hsome : (assignDims 3 2).isSome := by decide +kernel
    exact ⟨_, (Option.some_get hsome).symm, by decide +kernel +revert⟩
  obtain ⟨p, hgen, hp⟩ : ∃ p, generateQuantizedData cycleVectors (fun _ => (0 : ℚ)) none
      [7, 200, 16, 30, 4, 90, 255, 0, 128] 3 3 .L2 2 = some p ∧ p.chunkOffsets = [0, 2, 3] := by
    rw [generateQuantizedData, generatePqPivots, if_neg (show ¬ 3 < 2 by decide),
      if_neg (Option.some_ne_none _).symm, hs]
    exact ⟨_, rfl, hoffsets⟩
  exact ⟨p, hgen, hp, pqLookups.2 _ _ _ _ _ _ _ _ _ hgen⟩

/-! ### The search -/

/-- The rows of the table of a query, and the array they stand in. -/
lemma getD_populateChunkDistances (t : FixedChunkPQTable K) (query : List K) (distVec : Buffer K)
    {chunk idx : ℕ} (hc : chunk < t.nChunks) (hi : idx < numPqCentroids) :
    ((t.populateChunkDistances query).getD chunk []).getD idx 0
      = t.populateChunkDistancesIn query distVec (chunk * numPqCentroids + idx) := by
  have hrow : (t.populateChunkDistances query).getD chunk [] = t.chunkDists query chunk := by
    simp [FixedChunkPQTable.populateChunkDistances, List.getD_eq_getElem?_getD, hc]
  rw [hrow, t.getD_chunkDists query chunk hi, FixedChunkPQTable.populateChunkDistancesIn,
    FixedChunkPQTable.populateChunks_apply distVec hc hi]

/-- Lookups in the rows are lookups in the array. -/
lemma pqDistLookupSingle_populate (t : FixedChunkPQTable K) (query : List K) (distVec : Buffer K)
    (code : Bytes) :
    pqDistLookupSingle code t.nChunks (t.populateChunkDistances query)
      = pqDistLookupSingleIn code t.nChunks (t.populateChunkDistancesIn query distVec) := by
  rw [pqDistLookupSingle_eq, pqDistLookupSingleIn_eq]
  refine Finset.sum_congr rfl fun chunk hc => ?_
  exact getD_populateChunkDistances t query distVec (Finset.mem_range.mp hc) (UInt8.toNat_lt _)

/-- **The estimate of the search** is the squared distance to the decoded vector, although its
queries are not centered. -/
theorem PQ.estimate_eq_sum (pq : PQ K) (hchunks : pq.pqTable.nChunks = pq.numPqChunks.toNat)
    (h : ∀ j, pq.pqTable.centroid.getD j 0 = 0) {id : VertexId}
    (hid : id.toNat * pq.numPqChunks.toNat < 2 ^ 32) (query : List K) (outVec : Buffer K) :
    pq.estimate (pq.pqTable.populateChunkDistances query) id
      = ∑ j ∈ Finset.range pq.pqTable.ndims, (query.getD j 0
          - pq.pqTable.inflateVector (pq.pqData.view (id.toNat * pq.numPqChunks.toNat)) outVec j)
            ^ 2 := by
  rw [PQ.estimate, UInt32.toNat_mul, Nat.mod_eq_of_lt hid, ← hchunks,
    pqDistLookupSingle_populate _ _ fun _ => 0,
    pq.pqTable.lookup_of_centroid h query _ outVec]

end Results

end RedAnns
