import RedAnns.Store.GStore

/-!
Filling the RDMA cache (`core/store/cache.hpp`, `core/store/gstore.hpp`).

* `setCache` is `RDMA_Cache::set_cache`: a new buffer takes the place of the old one, and the
  record of every key is read into it and entered in the table of its server. The tables of
  the last call stay.
* `cacheFrom_spec`: what the loop does to the buffer and to the tables, and `isSome_lookup`:
  what a sequence of calls leaves in the tables.
* `AnswersLatest`: the cache answers for the keys of the latest call, with copies in its
  buffer. `answersLatest_iff` says after which calls it does.
* `GStore.cacheKeys` are the keys a store chooses, all of them remote, and
  `trueCopies_setCache` says that a cache filled once holds true copies.
-/

namespace RedAnns

/-- `RDMA_Cache`: the address of the buffer, the tables of pointers, one a server, and the heap
they point into. -/
structure CacheState where
  vertexNum : ℕ
  cacheData : ℕ
  cacheTable : ServerId → LocalId → Option ℕ
  heap : Bytes

/-- What the cache runs on: the cluster, whose records are read in one piece, the RDMA buffer of
thread 0, and an allocator that may return any address. -/
structure CacheEnv where
  numServers : ℕ
  vertexSize : ℕ
  vertexSize_lt : vertexSize < 2 ^ 31
  bufferSize : ℕ
  kvstore : ServerId → Bytes
  newArray : CacheState → ℕ → ℕ

namespace CacheState

/-- The constructor. -/
def empty : CacheState := ⟨0, 0, fun _ _ => none, fun _ => 0⟩

/-- `lookup`. -/
def lookup (s : CacheState) (key : Item) : Option ℕ := s.cacheTable key.first key.second

/-- A record is copied to `ptr`, and the table of its server gets an entry. -/
def put (s : CacheState) (key : Item) (ptr : ℕ) (buf : List UInt8) : CacheState :=
  { s with
    heap := s.heap.write ptr buf
    cacheTable := Function.update s.cacheTable key.first
      (Function.update (s.cacheTable key.first) key.second (some ptr)) }

@[simp] lemma cacheData_put (s : CacheState) (key : Item) (ptr : ℕ) (buf : List UInt8) :
    (s.put key ptr buf).cacheData = s.cacheData := rfl

@[simp] lemma heap_put (s : CacheState) (key : Item) (ptr : ℕ) (buf : List UInt8) :
    (s.put key ptr buf).heap = s.heap.write ptr buf := rfl

lemma lookup_put (s : CacheState) (key key' : Item) (ptr : ℕ) (buf : List UInt8) :
    (s.put key ptr buf).lookup key' = if key' = key then some ptr else s.lookup key' := by
  show Function.update s.cacheTable key.first _ key'.first key'.second = _
  rw [lookup]
  by_cases hfirst : key'.first = key.first
  · rw [hfirst, Function.update_self, Function.update_apply]
    by_cases hsecond : key'.second = key.second
    · rw [if_pos hsecond, if_pos (Item.ext hfirst hsecond)]
    · rw [if_neg hsecond, if_neg fun heq => hsecond (congrArg Item.second heq)]
  · rw [Function.update_of_ne hfirst, if_neg fun heq => hfirst (congrArg Item.first heq)]

end CacheState

namespace CacheEnv

variable (env : CacheEnv)

/-- The record of a key, as a synchronous `RdmaRead` returns it. -/
def rdmaRead (key : Item) : List UInt8 :=
  (env.kvstore key.first).read (key.second.toNat * env.vertexSize) env.vertexSize

/-- The loop of `set_cache` from the index `i` on. A record that does not fit the RDMA buffer
fails the `ASSERT`, and there is no connection to a server outside the cluster. -/
def cacheFrom : ℕ → List Item → CacheState → Except Stop CacheState
  | _, [], s => .ok s
  | i, key :: keys, s =>
      if env.bufferSize ≤ env.vertexSize ∨ env.numServers ≤ key.first.toNat then .error .aborted
      else
        cacheFrom (i + 1) keys (s.put key (s.cacheData + i * env.vertexSize) (env.rdmaRead key))

/-- `RDMA_Cache::set_cache`. -/
def setCache (s : CacheState) (keys : List Item) : Except Stop CacheState :=
  env.cacheFrom 0 keys
    { s with
      vertexNum := keys.length
      cacheData := env.newArray s (keys.length * env.vertexSize) }

/-- A sequence of calls on a new cache. -/
def setCaches (calls : List (List Item)) : Except Stop CacheState :=
  calls.foldlM env.setCache .empty

/-- **What the cache owes after its latest call**: it answers for the keys of the call and no
other, with pointers into the buffer of that call, where the records of the keys stand. -/
def AnswersLatest (keys : List Item) (s : CacheState) : Prop :=
  ∀ key : Item, key.first.toNat < env.numServers →
    ((s.lookup key).isSome = true ↔ key ∈ keys) ∧
      ∀ ptr, s.lookup key = some ptr →
        s.cacheData ≤ ptr ∧ ptr + env.vertexSize ≤ s.cacheData + keys.length * env.vertexSize ∧
          s.heap.read ptr env.vertexSize = env.rdmaRead key

/-! ### One call -/

variable {env} {s s' : CacheState} {key key' : Item} {keys : List Item}

lemma length_rdmaRead (key : Item) : (env.rdmaRead key).length = env.vertexSize :=
  Bytes.length_read _

/-- **What the loop does**: it leaves what stands below its first slot, enters every key with
a slot that holds the record of the key, and leaves the entries of other keys. -/
lemma cacheFrom_spec {i : ℕ} (h : env.cacheFrom i keys s = .ok s') :
    s'.cacheData = s.cacheData ∧
      (∀ a < s.cacheData + i * env.vertexSize, s'.heap a = s.heap a) ∧
      (∀ key ∉ keys, s'.lookup key = s.lookup key) ∧
      ∀ key ∈ keys, key.first.toNat < env.numServers ∧ ∃ j < keys.length,
        s'.lookup key = some (s.cacheData + (i + j) * env.vertexSize) ∧
          s'.heap.read (s.cacheData + (i + j) * env.vertexSize) env.vertexSize
            = env.rdmaRead key := by
  induction keys generalizing i s with
  | nil =>
      obtain rfl : s = s' := Except.ok.inj h
      exact ⟨rfl, fun _ _ => rfl, fun _ _ => rfl, by simp⟩
  | cons key keys ih =>
      rw [cacheFrom] at h
      split_ifs at h with hstop
      rw [not_or, not_le, not_le] at hstop
      obtain ⟨hdata, hheap, hother, hentered⟩ := ih h
      simp only [CacheState.cacheData_put, CacheState.heap_put, CacheState.lookup_put]
        at hdata hheap hother hentered
      have hslot : s.cacheData + (i + 1) * env.vertexSize
          = s.cacheData + i * env.vertexSize + env.vertexSize := by rw [Nat.succ_mul, Nat.add_assoc]
      refine ⟨hdata, fun a ha => ?_, fun key' hkey' => ?_, fun key' hkey' => ?_⟩
      · rw [hheap a (by omega)]
        exact Bytes.write_of_outside (Or.inl ha)
      · rw [List.mem_cons, not_or] at hkey'
        rw [hother key' hkey'.2, if_neg hkey'.1]
      · by_cases hmem : key' ∈ keys
        · obtain ⟨hlt, j, hj, hlook, hread⟩ := hentered key' hmem
          have hidx : i + (j + 1) = i + 1 + j := by omega
          exact ⟨hlt, j + 1, by rw [List.length_cons]; omega, by rw [hidx]; exact hlook,
            by rw [hidx]; exact hread⟩
        · obtain rfl : key' = key := (List.mem_cons.mp hkey').resolve_right hmem
          refine ⟨hstop.2, 0, by simp, ?_, ?_⟩
          · rw [hother key' hmem, if_pos rfl, Nat.add_zero]
          · -- the slot ends where the next one starts, so its bytes are final
            rw [Nat.add_zero]
            refine List.ext_getElem (by rw [Bytes.length_read, length_rdmaRead]) fun k hk hk' => ?_
            rw [length_rdmaRead] at hk'
            rw [Bytes.getElem_read, hheap _ (by omega)]
            exact Bytes.stands_write _ _ _ k (by rw [length_rdmaRead]; exact hk')

/-! ### Sequences of calls -/

/-- A call enters its keys, and no entry goes away. -/
lemma isSome_setCache (h : env.setCache s keys = .ok s') (key : Item) :
    (s'.lookup key).isSome = true ↔ (s.lookup key).isSome = true ∨ key ∈ keys := by
  obtain ⟨-, -, hother, hentered⟩ := cacheFrom_spec h
  by_cases hmem : key ∈ keys
  · obtain ⟨-, j, -, hlook, -⟩ := hentered key hmem
    rw [hlook]
    exact iff_of_true rfl (Or.inr hmem)
  · rw [hother key hmem, or_iff_left hmem]
    rfl

/-- **The tables keep the keys of every call.** -/
theorem isSome_lookup {calls : List (List Item)}
    (h : calls.foldlM env.setCache s = .ok s') (key : Item) :
    (s'.lookup key).isSome = true ↔
      (s.lookup key).isSome = true ∨ ∃ keys ∈ calls, key ∈ keys := by
  induction calls generalizing s with
  | nil =>
      obtain rfl : s = s' := Except.ok.inj h
      simp
  | cons keys calls ih =>
      rw [List.foldlM_cons] at h
      cases hcall : env.setCache s keys with
      | error e => rw [hcall] at h; cases h
      | ok t =>
          rw [hcall] at h
          rw [ih h, isSome_setCache hcall, or_assoc]
          simp [or_and_right, exists_or]

/-- A call that returns has keys of servers of the cluster only. -/
lemma lt_of_mem_call {calls : List (List Item)} (h : calls.foldlM env.setCache s = .ok s')
    (hkey : ∃ keys ∈ calls, key ∈ keys) : key.first.toNat < env.numServers := by
  induction calls generalizing s with
  | nil => simp at hkey
  | cons keys calls ih =>
      rw [List.foldlM_cons] at h
      cases hcall : env.setCache s keys with
      | error e => rw [hcall] at h; cases h
      | ok t =>
          rw [hcall] at h
          obtain ⟨keys', hkeys', hkey'⟩ := hkey
          rcases List.mem_cons.mp hkeys' with rfl | hkeys'
          · exact ((cacheFrom_spec hcall).2.2.2 key hkey').1
          · exact ih h ⟨keys', hkeys', hkey'⟩

/-- The entries of the keys of a call point into its buffer, at copies of their records. -/
lemma setCache_copies (h : env.setCache s keys = .ok s') (hkey : key ∈ keys) {ptr : ℕ}
    (hptr : s'.lookup key = some ptr) :
    s'.cacheData ≤ ptr ∧ ptr + env.vertexSize ≤ s'.cacheData + keys.length * env.vertexSize ∧
      s'.heap.read ptr env.vertexSize = env.rdmaRead key := by
  obtain ⟨hdata, -, -, hentered⟩ := cacheFrom_spec h
  obtain ⟨-, j, hj, hlook, hread⟩ := hentered key hkey
  rw [hptr, Nat.zero_add, Option.some.injEq] at hlook
  rw [Nat.zero_add] at hread
  rw [hdata, hlook]
  have hle : j * env.vertexSize + env.vertexSize ≤ keys.length * env.vertexSize := by
    rw [← Nat.succ_mul]
    exact Nat.mul_le_mul_right _ hj
  exact ⟨Nat.le_add_right _ _, by omega, hread⟩

lemma setCaches_append {earlier : List (List Item)}
    (h : env.setCaches (earlier ++ [keys]) = .ok s') :
    ∃ s, env.setCaches earlier = .ok s ∧ env.setCache s keys = .ok s' := by
  rw [setCaches, List.foldlM_append] at h
  cases hearlier : env.setCaches earlier with
  | error e => rw [setCaches] at hearlier; rw [hearlier] at h; cases h
  | ok s =>
      rw [setCaches] at hearlier
      rw [hearlier] at h
      refine ⟨s, rfl, ?_⟩
      cases hlast : env.setCache s keys with
      | error e => simp [bind, Except.bind, hlast] at h
      | ok t => simpa [bind, Except.bind, hlast, pure, Except.pure] using h

/-- **When the cache answers for its latest call**: every key of an earlier call is one of the
latest. The entry of any other key stays behind and points into a buffer that is gone. -/
theorem answersLatest_iff {earlier : List (List Item)}
    (h : env.setCaches (earlier ++ [keys]) = .ok s') :
    env.AnswersLatest keys s' ↔ ∀ keys' ∈ earlier, ∀ key ∈ keys', key ∈ keys := by
  obtain ⟨s, hearlier, hlast⟩ := setCaches_append h
  constructor
  · intro hanswers keys' hkeys' key hkey
    have hcall : ∃ keys' ∈ earlier ++ [keys], key ∈ keys' :=
      ⟨keys', List.mem_append_left _ hkeys', hkey⟩
    exact (hanswers key (lt_of_mem_call h hcall)).1.mp ((isSome_lookup h key).mpr (Or.inr hcall))
  · intro hall key _
    have hiff : (s'.lookup key).isSome = true ↔ key ∈ keys := by
      rw [isSome_setCache hlast, isSome_lookup hearlier key]
      simp only [CacheState.lookup, CacheState.empty, Option.isSome_none, Bool.false_eq_true,
        false_or, or_iff_right_iff_imp]
      rintro ⟨keys', hkeys', hkey⟩
      exact hall keys' hkeys' key hkey
    exact ⟨hiff, fun ptr hptr => setCache_copies hlast (hiff.mp (by rw [hptr]; rfl)) hptr⟩

/-- Two servers, one byte a record, and an allocator that returns fresh addresses. -/
def twoServersCache : CacheEnv where
  numServers := 2
  vertexSize := 1
  vertexSize_lt := by decide
  bufferSize := 2
  kvstore := fun _ a => UInt8.ofNat a
  newArray := fun s n => s.cacheData + s.vertexNum + n

/-- A second call keeps the keys of the first one. -/
theorem answersLatest_twoServers : ∃ s,
    twoServersCache.setCaches ([[⟨1, 0⟩]] ++ [[⟨1, 1⟩, ⟨1, 0⟩]]) = .ok s ∧
      (twoServersCache.AnswersLatest [⟨1, 1⟩, ⟨1, 0⟩] s ↔
        ∀ keys' ∈ [[(⟨1, 0⟩ : Item)]], ∀ key ∈ keys', key ∈ [(⟨1, 1⟩ : Item), ⟨1, 0⟩]) :=
  ⟨_, rfl, answersLatest_iff rfl⟩

/-- A key of the first call only is still answered for. -/
theorem not_answersLatest_twoServers : ∃ s,
    twoServersCache.setCaches [[⟨1, 0⟩], [⟨1, 1⟩]] = .ok s ∧
      ¬ twoServersCache.AnswersLatest [⟨1, 1⟩] s :=
  ⟨_, rfl, fun h => absurd ((h ⟨1, 0⟩ (by decide)).1.mp (by decide)) (by decide)⟩

end CacheEnv

/-! ### The keys a store caches -/

namespace GStore

variable (gs : GStore)

/-- The loop of `GStore::set_cache` over the sorted frequencies. -/
def pickKeys (numNodesToCache : ℕ) : List (ℕ × Item) → List Item → List Item
  | [], keys => keys
  | f :: frequency, keys =>
      if numNodesToCache ≤ keys.length then keys
      else if f.1 = 0 then keys
      else pickKeys numNodesToCache frequency (keys ++ [f.2])

/-- The access counts of the records on other servers. -/
def frequency (accessCount : ℕ → ℕ → ℕ) (dataNum : List ℕ) : List (ℕ × Item) :=
  (List.range gs.numServers).flatMap fun dsid =>
    if dsid = gs.sid.toNat then []
    else (List.range (dataNum.getD dsid 0)).map fun dlid =>
      (accessCount dsid dlid, ⟨UInt8.ofNat dsid, UInt32.ofNat dlid⟩)

/-- The keys that `GStore::set_cache` chooses: the remote records most often accessed. -/
def cacheKeys (accessCount : ℕ → ℕ → ℕ) (dataNum : List ℕ) (numNodesToCache : ℕ) : List Item :=
  pickKeys numNodesToCache
    ((gs.frequency accessCount dataNum).mergeSort fun f f' => decide (toLex f' ≤ toLex f)) []

/-- The cache a store has after `set_cache` on a new one. -/
def withCache (s : CacheState) : GStore := { gs with rdmaCache := ⟨s.heap, s.lookup⟩ }

/-- What the cache of a store runs on. -/
def cacheEnv (bufferSize : ℕ) (newArray : CacheState → ℕ → ℕ) : CacheEnv :=
  ⟨gs.numServers, gs.vertexSize, gs.vertexSize_lt, bufferSize, gs.hw.kvstore, newArray⟩

variable {gs}

/-- **A cache filled once holds true copies.** -/
theorem trueCopies_setCache {bufferSize : ℕ} {newArray : CacheState → ℕ → ℕ} {keys : List Item}
    {s : CacheState} (h : (gs.cacheEnv bufferSize newArray).setCache .empty keys = .ok s) :
    (gs.withCache s).TrueCopies := by
  intro item off hoff i hi
  have hmem : item ∈ keys := by
    have hsome :=
      (CacheEnv.isSome_setCache h item).mp (by rw [show s.lookup item = _ from hoff]; rfl)
    exact hsome.resolve_left Bool.false_ne_true
  have hread := (CacheEnv.setCache_copies h hmem hoff).2.2
  have hbyte := congrArg (·[i]?) hread
  simp only [Bytes.read, CacheEnv.rdmaRead, List.getElem?_map,
    List.getElem?_range (show i < (gs.cacheEnv bufferSize newArray).vertexSize from hi)] at hbyte
  exact Option.some.inj hbyte

end GStore

end RedAnns
