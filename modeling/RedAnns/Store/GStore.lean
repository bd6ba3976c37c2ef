import RedAnns.Store.Batches

/-!
The store of a server (`core/store/gstore.hpp`, `core/store/cache.hpp`).

A record is found in the local kvstore, in the RDMA cache or, once it has been read, in the
RDMA buffer of the thread; `Ptr` says where. `ThdCtx` is what the store keeps for a thread.

* `getVertexBatch` hands out one pointer a key and reads what is neither local nor cached,
  at once or asynchronously; `getVertexBatchWait` waits for the oldest asynchronous batch;
  `getVertex` knows local records and what `updateThdCache` has recorded.
* `Arrived gs ctx u item ptr`: while the batches `u` are not waited for, the bytes behind
  `ptr` are those of the record of `item`, and no outstanding read touches them.
* `StoreInv gs ctx u`: the queued polls and the outstanding reads are those of the batches
  `u`. `StoreInv.send`, `StoreInv.wait` and `StoreInv.read` are the contracts of the
  operations, and `Keeps` says that what has arrived stays.
-/

namespace RedAnns

open CompletionQueue

/-- Where a record is: in the kvstore of this server, in the RDMA cache, or in the RDMA
buffer of the thread. -/
inductive Ptr
  | kvstore (off : ℕ)
  | cache (off : ℕ)
  | buffer (off : ℕ)
  deriving DecidableEq

/-- `RDMA_Cache`: copies of remote records and where they are. -/
structure RdmaCache where
  cacheData : Bytes
  cacheTable : Item → Option ℕ

/-- `GStore`, with the hardware it runs on. A read takes its length as an `int`. -/
structure GStore where
  sid : ServerId
  numServers : ℕ
  vertexSize : ℕ
  vertexSize_lt : vertexSize < 2 ^ 31
  rdmaCache : RdmaCache
  hw : Hardware

/-- What the store keeps for a thread: how much of its buffer is used, the records it has
recorded, the polls of its asynchronous batches, and its side of the network. -/
structure ThdCtx where
  bufUsedSz : ℕ
  thdCache : Item → Option Ptr
  thdPolls : List Polls
  net : Net

namespace GStore

variable (gs : GStore)

/-! ### The operations -/

/-- The ids `0, …, num_servers - 1`. -/
def servers : List ServerId := (List.range gs.numServers).map UInt8.ofNat

/-- `dst_off`. -/
def dstOff (key : Item) : ℕ := key.second.toNat * gs.vertexSize

/-- The bytes from a pointer on. -/
def view (ctx : ThdCtx) : Ptr → Bytes
  | .kvstore off => (gs.hw.kvstore gs.sid).view off
  | .cache off => gs.rdmaCache.cacheData.view off
  | .buffer off => ctx.net.buffer.view off

/-- `reset_thd_ctx`. -/
def resetThdCtx (ctx : ThdCtx) : ThdCtx :=
  { ctx with bufUsedSz := 0, thdCache := fun _ => none }

/-- `update_thd_cache`. -/
def updateThdCache (ctx : ThdCtx) (item : Item) (ptr : Ptr) : ThdCtx :=
  if item.first ≠ gs.sid then
    { ctx with thdCache := Function.update ctx.thdCache item (some ptr) }
  else ctx

/-- `get_vertex`. -/
def getVertex (ctx : ThdCtx) (key : Item) : Except Stop Ptr :=
  if key.first = gs.sid then .ok (.kvstore (gs.dstOff key))
  else
    match ctx.thdCache key with
    | some ptr => .ok ptr
    | none => .error (.threw "thd_cache miss.")

/-- The loop of `get_vertex_batch`: a pointer for every key, and what has to be fetched into
the buffer from `buf` on. -/
def gather : List Item → ℕ → List Ptr × List Fetch
  | [], _ => ([], [])
  | key :: keys, buf =>
      if key.first = gs.sid then
        let (res, fetches) := gather keys buf
        (.kvstore (gs.dstOff key) :: res, fetches)
      else
        match gs.rdmaCache.cacheTable key with
        | some cached =>
            let (res, fetches) := gather keys buf
            (.cache cached :: res, fetches)
        | none =>
            let (res, fetches) := gather keys (buf + gs.vertexSize)
            (.buffer buf :: res, ⟨key.first, buf, gs.dstOff key⟩ :: fetches)

/-- `get_vertex_batch`. -/
def getVertexBatch (ctx : ThdCtx) (keyBatch : List Item) (async : Bool) :
    Except Stop (List Ptr × ThdCtx) :=
  let (res, fetches) := gs.gather keyBatch ctx.bufUsedSz
  let ctx := { ctx with bufUsedSz := ctx.bufUsedSz + gs.vertexSize * fetches.length }
  if async then
    let (net, polls) :=
      if fetches.length ≠ 0 then
        rdmaReadBatchDoorbellUnsignalAsyncSend gs.hw gs.servers gs.vertexSize fetches ctx.net
          fun _ => 0
      else (ctx.net, fun _ => 0)
    .ok (res, { ctx with thdPolls := ctx.thdPolls ++ [polls], net := net })
  else if fetches.length ≠ 0 then do
    let net ← rdmaReadBatch gs.hw gs.servers gs.vertexSize fetches ctx.net
    .ok (res, { ctx with net := net })
  else .ok (res, ctx)

/-- `get_vertex_batch_wait`. -/
def getVertexBatchWait (ctx : ThdCtx) : Except Stop ThdCtx :=
  match ctx.thdPolls with
  | [] => .error .emptyFront
  | polls :: thdPolls => do
      let net ← rdmaReadBatchUnsignalAsyncWait gs.hw gs.servers polls ctx.net
      .ok { ctx with thdPolls := thdPolls, net := net }

/-! ### Records and pointers -/

/-- The record of an item, on the server it is stored on. -/
def record (item : Item) : Bytes := (gs.hw.kvstore item.first).view (gs.dstOff item)

/-- The cache holds true copies. -/
def TrueCopies : Prop :=
  ∀ item off, gs.rdmaCache.cacheTable item = some off →
    ∀ i < gs.vertexSize, gs.rdmaCache.cacheData (off + i) = gs.record item i

/-- A batch: its items with their pointers. -/
abbrev Batch := List (Item × Ptr)

/-- What a batch has to fetch. -/
def fetchOf (x : Item × Ptr) : Option Fetch :=
  match x.2 with
  | .buffer off => some ⟨x.1.first, off, gs.dstOff x.1⟩
  | _ => none

/-- The fetches of a batch. -/
def fetchesOf (b : Batch) : List Fetch := b.filterMap gs.fetchOf

/-- The groups of reads that the batches `u` have outstanding. -/
def groups (u : List Batch) (s : ServerId) : List (List Request) :=
  u.map fun b => batchGroup gs.vertexSize (gs.fetchesOf b) s

/-- The poll counts of a batch. -/
def pollsOf (b : Batch) : Polls :=
  fun s => (batchGroup gs.vertexSize (gs.fetchesOf b) s).length

/-- A pointer that was handed out for an item. -/
def Issued (used : ℕ) (item : Item) : Ptr → Prop
  | .kvstore off => item.first = gs.sid ∧ off = gs.dstOff item
  | .cache off => gs.rdmaCache.cacheTable item = some off
  | .buffer off => item.first ≠ gs.sid ∧ off + gs.vertexSize ≤ used

/-- **A pointer whose record has arrived**: behind a pointer into the buffer stand the bytes
of the record, and no outstanding read touches them. -/
def Arrived (ctx : ThdCtx) (u : List Batch) (item : Item) (ptr : Ptr) : Prop :=
  gs.Issued ctx.bufUsedSz item ptr ∧
    ∀ off, ptr = .buffer off → ∀ i < gs.vertexSize,
      Settled (gs.groups u) (off + i) ∧ ctx.net.buffer (off + i) = gs.record item i

/-- **The invariant of the store**: the polls and the outstanding reads of the thread are
those of the batches `u`, whose pointers were handed out below the used part of the buffer. -/
structure StoreInv (ctx : ThdCtx) (u : List Batch) : Prop where
  polls : ctx.thdPolls = u.map gs.pollsOf
  outstanding : Outstanding gs.hw ctx.net (gs.groups u)
  issued : ∀ b ∈ u, ∀ x ∈ b, gs.Issued ctx.bufUsedSz x.1 x.2
  server_mem : ∀ b ∈ u, ∀ x ∈ b, x.1.first ∈ gs.servers

/-- What an operation keeps: the used part of the buffer grows, and what no outstanding read
touches there stays as it is. -/
structure Keeps (ctx : ThdCtx) (u : List Batch) (ctx' : ThdCtx) (u' : List Batch) : Prop where
  used_le : ctx.bufUsedSz ≤ ctx'.bufUsedSz
  settled : ∀ a < ctx.bufUsedSz, Settled (gs.groups u) a → Settled (gs.groups u') a
  bytes : ∀ a < ctx.bufUsedSz, Settled (gs.groups u) a → ctx'.net.buffer a = ctx.net.buffer a

variable {gs} {ctx ctx' ctx'' : ThdCtx} {u u' u'' : List Batch} {item : Item} {ptr : Ptr}

lemma Keeps.refl : gs.Keeps ctx u ctx u := ⟨le_rfl, fun _ _ h => h, fun _ _ _ => rfl⟩

lemma Keeps.trans (h : gs.Keeps ctx u ctx' u') (h' : gs.Keeps ctx' u' ctx'' u'') :
    gs.Keeps ctx u ctx'' u'' where
  used_le := h.used_le.trans h'.used_le
  settled a ha hset := h'.settled a (ha.trans_le h.used_le) (h.settled a ha hset)
  bytes a ha hset :=
    (h'.bytes a (ha.trans_le h.used_le) (h.settled a ha hset)).trans (h.bytes a ha hset)

lemma Issued.mono {used used' : ℕ} (h : gs.Issued used item ptr) (hle : used ≤ used') :
    gs.Issued used' item ptr := by
  cases ptr with
  | kvstore off => exact h
  | cache off => exact h
  | buffer off => exact ⟨h.1, h.2.trans hle⟩

/-- **What has arrived stays.** -/
lemma Arrived.keep (h : gs.Arrived ctx u item ptr) (hk : gs.Keeps ctx u ctx' u') :
    gs.Arrived ctx' u' item ptr := by
  refine ⟨h.1.mono hk.used_le, fun off heq i hi => ?_⟩
  obtain ⟨hset, hbyte⟩ := h.2 off heq i hi
  have hlt : off + i < ctx.bufUsedSz := by
    have hle := h.1
    rw [heq] at hle
    have := hle.2
    omega
  exact ⟨hk.settled _ hlt hset, (hk.bytes _ hlt hset).trans hbyte⟩

/-- **An arrived pointer reads as its record.** -/
theorem Arrived.view_eq (h : gs.Arrived ctx u item ptr) (hcache : gs.TrueCopies) {i : ℕ}
    (hi : i < gs.vertexSize) : gs.view ctx ptr i = gs.record item i := by
  cases ptr with
  | kvstore off =>
      obtain ⟨hsid, hoff⟩ := h.1
      rw [view, record, hsid, hoff]
  | cache off => exact hcache item off h.1 i hi
  | buffer off => exact (h.2 off rfl i hi).2

/-- No posted read touches the bytes behind an arrived pointer. -/
lemma Arrived.not_posted {off : ℕ} (h : gs.Arrived ctx u item (.buffer off))
    (hinv : gs.StoreInv ctx u) {s : ServerId} {r : Request}
    (hr : r ∈ (ctx.net.qps s).posted) {i : ℕ} (hi : i < gs.vertexSize) :
    off + i < r.localBuf ∨ r.localBuf + r.length ≤ off + i :=
  (h.2 off rfl i hi).1 s r (hinv.outstanding.mem_of_posted hr)

/-- A pointer that is not into the buffer has arrived as soon as it is handed out. -/
lemma Issued.arrived (h : gs.Issued ctx.bufUsedSz item ptr) (hptr : ∀ off, ptr ≠ .buffer off) :
    gs.Arrived ctx u item ptr := ⟨h, fun off heq => absurd heq (hptr off)⟩

lemma thdCache_updateThdCache (item item' : Item) :
    (gs.updateThdCache ctx item ptr).thdCache item'
      = if item.first ≠ gs.sid ∧ item' = item then some ptr else ctx.thdCache item' := by
  rw [updateThdCache]
  by_cases hsid : item.first ≠ gs.sid
  · rw [if_pos hsid]
    show Function.update ctx.thdCache item (some ptr) item' = _
    rw [Function.update_apply]
    exact if_congr (and_iff_right hsid).symm rfl rfl
  · rw [if_neg hsid, if_neg fun hall => hsid hall.1]

/-! ### Which reads belong to a batch -/

lemma mem_fetchesOf {b : Batch} {f : Fetch} :
    f ∈ gs.fetchesOf b ↔ ∃ x ∈ b, x.2 = .buffer f.localBuf ∧ f.nid = x.1.first ∧
      f.off = gs.dstOff x.1 := by
  rw [fetchesOf, List.mem_filterMap]
  refine exists_congr fun x => and_congr_right fun _ => ?_
  rcases x with ⟨item, ptr⟩
  cases ptr with
  | kvstore off => simp [fetchOf]
  | cache off => simp [fetchOf]
  | buffer off =>
      simp only [fetchOf, Option.some.injEq, Ptr.buffer.injEq]
      constructor
      · rintro rfl
        exact ⟨rfl, rfl, rfl⟩
      · rintro ⟨h₁, h₂, h₃⟩
        cases f
        simp_all

/-- A read of the batches goes to a pointer that was handed out. -/
lemma mem_groups {s : ServerId} {r : Request} (h : r ∈ (gs.groups u s).flatten) :
    ∃ b ∈ u, ∃ x ∈ b, x.2 = .buffer r.localBuf ∧ r.length = gs.vertexSize ∧ x.1.first = s := by
  rw [groups, ← List.flatMap_def, List.mem_flatMap] at h
  obtain ⟨b, hb, hr⟩ := h
  obtain ⟨f, hf, hnid, hbuf, hlen⟩ := mem_batchGroup hr
  obtain ⟨x, hx, hptr, hfirst, -⟩ := mem_fetchesOf.mp hf
  exact ⟨b, hb, x, hx, by rw [hptr, hbuf], hlen.trans (sgeLength_eq gs.vertexSize_lt),
    by rw [← hfirst, hnid]⟩

/-- All outstanding reads end in the used part of the buffer. -/
lemma StoreInv.below (h : gs.StoreInv ctx u) : Below (gs.groups u) ctx.bufUsedSz := by
  intro s r hr
  obtain ⟨b, hb, x, hx, hptr, hlen, -⟩ := mem_groups hr
  have hissued := h.issued b hb x hx
  rw [hptr] at hissued
  rw [hlen]
  exact hissued.2

lemma batchGroup_eq_nil {b : Batch} (hmem : ∀ x ∈ b, x.1.first ∈ gs.servers) {s : ServerId}
    (hs : s ∉ gs.servers) : batchGroup gs.vertexSize (gs.fetchesOf b) s = [] := by
  rw [List.eq_nil_iff_forall_not_mem]
  intro r hr
  obtain ⟨f, hf, hnid, -⟩ := mem_batchGroup hr
  obtain ⟨x, hx, -, hfirst, -⟩ := mem_fetchesOf.mp hf
  exact hs (by rw [← hnid, hfirst]; exact hmem x hx)

/-- The loop of `get_vertex_batch`: one pointer a key, and as fetches those of the batch, one
behind the other. -/
lemma gather_spec (gs : GStore) (keys : List Item) (buf : ℕ) :
    let res := (gs.gather keys buf).1
    let fetches := (gs.gather keys buf).2
    res.length = keys.length ∧ fetches = gs.fetchesOf (keys.zip res) ∧
      Spaced gs.vertexSize buf fetches ∧
      (∀ x ∈ keys.zip res, gs.Issued (buf + gs.vertexSize * fetches.length) x.1 x.2) ∧
      ∀ x ∈ keys.zip res, x.1.first = gs.sid → x.2 = .kvstore (gs.dstOff x.1) := by
  induction keys generalizing buf with
  | nil => exact ⟨rfl, rfl, ⟨by simp [gather], by simp [gather]⟩, by simp, by simp⟩
  | cons key keys ih =>
      simp only [gather]
      split_ifs with hsid
      · obtain ⟨hlen, hfetch, hspaced, hissued, hlocal⟩ := ih buf
        refine ⟨by simp [hlen], ?_, hspaced, ?_, ?_⟩
        · rw [List.zip_cons_cons, fetchesOf, List.filterMap_cons]
          exact hfetch
        · exact List.forall_mem_cons.mpr ⟨⟨hsid, rfl⟩, hissued⟩
        · exact List.forall_mem_cons.mpr ⟨fun _ => rfl, hlocal⟩
      · cases hcache : gs.rdmaCache.cacheTable key with
        | some cached =>
            obtain ⟨hlen, hfetch, hspaced, hissued, hlocal⟩ := ih buf
            refine ⟨by simp [hlen], ?_, hspaced, ?_, ?_⟩
            · rw [List.zip_cons_cons, fetchesOf, List.filterMap_cons]
              exact hfetch
            · exact List.forall_mem_cons.mpr ⟨hcache, hissued⟩
            · exact List.forall_mem_cons.mpr ⟨fun h => absurd h hsid, hlocal⟩
        | none =>
            obtain ⟨hlen, hfetch, hspaced, hissued, hlocal⟩ := ih (buf + gs.vertexSize)
            refine ⟨by simp [hlen], ?_, ⟨?_, ?_⟩, ?_, ?_⟩
            · rw [List.zip_cons_cons, fetchesOf, List.filterMap_cons]
              exact congrArg _ hfetch
            · refine List.forall_mem_cons.mpr ⟨le_rfl, fun f hf => ?_⟩
              exact (Nat.le_add_right _ _).trans (hspaced.le f hf)
            · exact List.pairwise_cons.mpr ⟨hspaced.le, hspaced.pairwise⟩
            · have hused : buf + gs.vertexSize
                  * ((gs.gather keys (buf + gs.vertexSize)).2.length + 1)
                  = buf + gs.vertexSize
                    + gs.vertexSize * (gs.gather keys (buf + gs.vertexSize)).2.length := by
                rw [Nat.mul_succ]
                omega
              rw [List.length_cons, hused]
              exact List.forall_mem_cons.mpr ⟨⟨hsid, Nat.le_add_right _ _⟩, hissued⟩
            · exact List.forall_mem_cons.mpr ⟨fun h => absurd h hsid, hlocal⟩

end GStore

end RedAnns
