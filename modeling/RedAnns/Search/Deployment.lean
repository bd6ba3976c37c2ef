import RedAnns.Index.Addresses
import RedAnns.Search.Buckets
import RedAnns.Search.Serving

/-!
An index on buckets, loaded on the servers of a cluster.

* `Cluster`: any arrangement of any base set, one bucket a server, and what
  `load_base_index_distributed` leaves in the kvstores (`Cluster.kvstore`).
* `Deployment`: one server of a cluster, with its RDMA cache, its projections and the
  hardware; a cache that lies cannot be built into one.
* `Deployment.serves`: every deployment is fit for the search, over the places of the base
  vertices, and `Deployment.agree` says that the records of the cluster are those of the index
  on buckets.
-/

namespace RedAnns

open Bytes GStore

/-- An index on buckets and the memory of the servers that load it, one bucket each. A record is
read in one piece, whose length is an `int`. -/
structure Cluster where
  b : BaseSet
  elementSize_lt : b.bucketLayout.elementSize < 2 ^ 31
  bucketCount : ℕ
  baseInBucket : List UInt32
  assigns : Assigns b bucketCount baseInBucket
  malloc : ServerId → Bytes
  mem : ServerId → Bytes

namespace Cluster

variable (cl : Cluster)

/-- The index on buckets. -/
def index : BucketIndex := arrange cl.b cl.bucketCount cl.baseInBucket cl.malloc

/-- The kvstores after `save_base_index_on_buckets` and `load_base_index_distributed`: the used
part of every bucket is in front. -/
def kvstore (s : ServerId) : Bytes :=
  (cl.mem s).write 0
    ((cl.index.memoryBuckets s).read 0 (cl.index.dataNum.getD s.toNat 0
        * cl.index.layout.elementSize))

/-- The items of the cluster: the places of the base vertices. -/
def items : Finset Item := (Finset.range cl.b.baseNum).image cl.index.place

variable {cl}

lemma placed : Placed cl.b cl.index := placed_arrange cl.assigns cl.malloc

lemma mem_items {t : Item} : t ∈ cl.items ↔ ∃ id < cl.b.baseNum, cl.index.place id = t := by
  rw [items, Finset.mem_image]
  simp only [Finset.mem_range]

lemma place_mem {id : ℕ} (hid : id < cl.b.baseNum) : cl.index.place id ∈ cl.items :=
  mem_items.mpr ⟨id, hid, rfl⟩

/-- The kvstores hold the records of the index on buckets. -/
lemma agree {t : Item} (ht : t ∈ cl.items) :
    cl.index.layout.Agree ((cl.kvstore t.first).view (t.second.toNat * cl.index.layout.elementSize))
      (cl.index.getVertex t) := by
  obtain ⟨id, hid, rfl⟩ := mem_items.mp ht
  intro i hi
  have hle := placed.slot_le id hid
  have hstand := stands_write (cl.mem (cl.index.place id).first) 0
    ((cl.index.memoryBuckets (cl.index.place id).first).read 0
      (cl.index.dataNum.getD (cl.index.place id).first.toNat 0 * cl.index.layout.elementSize))
    ((cl.index.place id).second.toNat * cl.index.layout.elementSize + i)
    (by rw [length_read]; omega)
  rw [Nat.zero_add, getElem_read, Nat.zero_add] at hstand
  exact hstand

/-- The entries of a record name the places of the neighbours. -/
lemma degree_place {id : ℕ} (hid : id < cl.b.baseNum) :
    ((cl.index.getVertex (cl.index.place id)).readWord cl.index.layout.neighborOffset).toNat
      = (cl.b.adjacency id).length :=
  Layout.degree_of_stands (L := cl.b.bucketLayout) (cl.b.length_vector id)
    (getVertex_arrange cl.malloc cl.assigns hid) (BaseSet.degree_adjacency_lt hid)

end Cluster

/-- A server of a cluster: its id, its RDMA cache with true copies of records, what
`load_learn_projection` has read, and the hardware. -/
structure Deployment extends Cluster where
  sid : ServerId
  rdmaCache : RdmaCache
  copies : ∀ item off, rdmaCache.cacheTable item = some off →
    ∀ i < toCluster.index.layout.elementSize, rdmaCache.cacheData (off + i)
      = toCluster.kvstore item.first (item.second.toNat * toCluster.index.layout.elementSize + i)
  learnProjectionInBase : List (List VertexId)
  projection_lt : ∀ vs ∈ learnProjectionInBase, ∀ v ∈ vs, v.toNat < toCluster.b.baseNum
  schedule : ℕ → List ServerId

namespace Deployment

variable (d : Deployment)

/-- The store of the server. -/
def gstore : GStore where
  sid := d.sid
  numServers := d.bucketCount
  vertexSize := d.index.layout.elementSize
  vertexSize_lt := d.elementSize_lt
  rdmaCache := d.rdmaCache
  hw := ⟨d.kvstore, d.schedule⟩

/-- The index of the server. -/
def serverIndex : ServerIndex where
  gstore := d.gstore
  layout := d.index.layout
  membktEP := d.index.membktEP
  baseInBucket := d.index.baseInBucket
  baseToLid := d.index.baseToLid
  learnProjectionInBase := d.learnProjectionInBase

variable {d}

/-- **The records of the cluster are those of the index on buckets.** -/
lemma agree {t : Item} (ht : t ∈ d.items) :
    d.index.layout.Agree (d.serverIndex.gstore.record t) (d.index.getVertex t) :=
  Cluster.agree ht

lemma fits {t : Item} (ht : t ∈ d.items) :
    d.index.layout.neighborOffset + 4
      + 9 * ((d.index.getVertex t).readWord d.index.layout.neighborOffset).toNat
      ≤ d.index.layout.elementSize := by
  obtain ⟨id, hid, rfl⟩ := Cluster.mem_items.mp ht
  rw [Cluster.degree_place hid]
  exact Cluster.placed.fields_apart.2.2 id hid

lemma neighborsDistributed_record {t : Item} (ht : t ∈ d.items) :
    d.serverIndex.layout.neighborsDistributed (d.serverIndex.gstore.record t)
      = d.index.layout.neighborsDistributed (d.index.getVertex t) :=
  (agree ht).neighborsDistributed (fits ht)

/-- An entry of a record names a base vertex and its place. -/
lemma exists_of_mem_entries {t : Item} (ht : t ∈ d.items) {e : VertexId × Item}
    (he : e ∈ d.serverIndex.layout.neighborsDistributed (d.serverIndex.gstore.record t)) :
    e.1.toNat < d.b.baseNum ∧ e.2 = d.index.place e.1.toNat := by
  rw [neighborsDistributed_record ht] at he
  obtain ⟨id, hid, rfl⟩ := Cluster.mem_items.mp ht
  rw [Cluster.placed.neighbors_at id hid] at he
  obtain ⟨v, hv, rfl⟩ := List.mem_map.mp he
  exact ⟨BaseSet.adjacency_lt hid hv, rfl⟩

lemma membktEP_eq : d.index.membktEP = d.index.place d.b.baseGraphEP.toNat :=
  getD_place d.malloc d.assigns d.b.entry_lt

/-- **Every deployment is fit for the search.** -/
theorem serves : Serves d.serverIndex d.items where
  servers_le := d.assigns.count_le
  size_eq := rfl
  copies := fun item off hoff i hi => d.copies item off hoff i hi
  server_mem t ht := by
    obtain ⟨id, hid, rfl⟩ := Cluster.mem_items.mp ht
    refine (mem_servers d.assigns.count_le).mpr ?_
    show (d.index.place id).first.toNat < d.bucketCount
    rw [show (d.index.place id).first.toNat = _ from first_place d.malloc d.assigns hid]
    exact d.assigns.lt id hid
  entry_mem := by
    show d.index.membktEP ∈ d.items
    rw [membktEP_eq]
    exact Cluster.place_mem d.b.entry_lt
  adaptive_mem vs hvs v hv := Cluster.place_mem (d.projection_lt vs hvs v hv)
  neighbor_mem t ht e he := by
    obtain ⟨hlt, heq⟩ := exists_of_mem_entries ht he
    rw [heq]
    exact Cluster.place_mem hlt
  fits t ht := by
    have hfit := fits ht
    have hdeg := (agree ht).readWord (show d.index.layout.neighborOffset + 4
      ≤ d.index.layout.elementSize by omega)
    rw [← hdeg] at hfit
    exact hfit

/-- A place tells the vectors and the out-neighbours that the search on buckets reads. -/
lemma dist_store {δ : Type*} (distance : Distance δ) (query : List UInt32) {t : Item}
    (ht : t ∈ d.items) :
    d.serverIndex.store.dist distance query t = (bucketStore d.index).dist distance query t :=
  congrArg (distance.compare · query) (agree ht).base

lemma neighbors_store {t : Item} (ht : t ∈ d.items) :
    d.serverIndex.store.neighbors (d.serverIndex.store.getVertex t)
      = (bucketStore d.index).neighbors ((bucketStore d.index).getVertex t) := by
  show (d.serverIndex.layout.neighborsDistributed (d.serverIndex.gstore.record t)).map Prod.snd
    = d.index.layout.neighborsOnBuckets (d.index.getVertex t)
  rw [neighborsDistributed_record ht]
  rfl

variable (d) in
/-- The items of the cluster are closed under out-neighbours, as the search over the buckets
reads them. -/
lemma neighborsOnBuckets_mem : ∀ v ∈ d.items,
    ∀ w ∈ (bucketStore d.index).neighbors ((bucketStore d.index).getVertex v), w ∈ d.items := by
  intro v hv w hw
  rw [← neighbors_store hv] at hw
  obtain ⟨e, he, rfl⟩ := List.mem_map.mp hw
  exact serves.neighbor_mem v hv e he

variable (d) in
lemma card_items_le : d.items.card ≤ d.b.baseNum :=
  Finset.card_image_le.trans (Finset.card_range _).le

lemma label_store {t : Item} (ht : t ∈ d.items) :
    d.serverIndex.store.label (d.serverIndex.store.getVertex t)
      = (bucketStore d.index).label ((bucketStore d.index).getVertex t) := (agree ht).label

end Deployment

end RedAnns
