import RedAnns.Store.Contract

/-!
The batches that a query fetches (`core/store/gstore.hpp`).

A query makes a sequence of calls: it reads a batch at once, sends one, or waits for the oldest
one it has sent; between the calls the hardware may make progress. `Fetching` is where such a
sequence stands, `call` one call, and `Allowed` what every query keeps to: it waits for no more
than it has sent, and reads at once only while nothing is in flight.

* `FetchInv.call`: no allowed call fails, and what has been answered has arrived and stays.
* `Positional`: one pointer a key, in the order of the keys, with the record of the key behind
  it. `getVertexBatch_positional` says this of all that a sequence of calls has answered, at
  every later moment and for every cache with true copies.
-/

namespace RedAnns

namespace GStore

/-! ### Sequences of calls -/

/-- What a query asks of the store, and the progress of the hardware. -/
inductive StoreCall
  | read (keyBatch : List Item)
  | send (keyBatch : List Item)
  | wait
  | progress
  deriving DecidableEq

/-- The keys of a call. -/
def StoreCall.keyBatch : StoreCall → List Item
  | .read keyBatch => keyBatch
  | .send keyBatch => keyBatch
  | _ => []

/-- A batch of keys with the results that were appended for it. -/
structure Answer where
  keyBatch : List Item
  res : List Ptr
  deriving DecidableEq

/-- The pairs of keys and results. -/
def Answer.batch (a : Answer) : Batch := a.keyBatch.zip a.res

/-- Where a query stands: the context of its thread, the batches it has not waited for, and
those it may use. -/
structure Fetching where
  ctx : ThdCtx
  inFlight : List Answer
  done : List Answer

variable (gs : GStore)

/-- A query begins. -/
def beginQuery (ctx : ThdCtx) : Fetching := ⟨resetThdCtx ctx, [], []⟩

/-- One call. -/
def call (r : Fetching) : StoreCall → Except Stop Fetching
  | .read keyBatch => do
      let (res, ctx) ← gs.getVertexBatch r.ctx keyBatch false
      .ok { r with ctx := ctx, done := r.done ++ [⟨keyBatch, res⟩] }
  | .send keyBatch => do
      let (res, ctx) ← gs.getVertexBatch r.ctx keyBatch true
      .ok { r with ctx := ctx, inFlight := r.inFlight ++ [⟨keyBatch, res⟩] }
  | .wait => do
      let ctx ← gs.getVertexBatchWait r.ctx
      .ok { ctx := ctx, inFlight := r.inFlight.tail, done := r.done ++ r.inFlight.take 1 }
  | .progress => .ok { r with ctx := { r.ctx with net := RedAnns.progress gs.hw r.ctx.net } }

/-- A sequence of calls. -/
def callAll (calls : List StoreCall) (r : Fetching) : Except Stop Fetching :=
  calls.foldlM gs.call r

/-- What every query keeps to, `n` batches being in flight: a synchronous batch comes before
the asynchronous ones, and a wait after what it waits for. -/
def Allowed : ℕ → List StoreCall → Prop
  | _, [] => True
  | n, .read _ :: calls => n = 0 ∧ Allowed n calls
  | n, .send _ :: calls => Allowed (n + 1) calls
  | n, .wait :: calls => 0 < n ∧ Allowed (n - 1) calls
  | n, .progress :: calls => Allowed n calls

/-- The batches that a sequence of calls answers, with the batches `q` in flight before it. -/
def answered : List (List Item) → List StoreCall → List (List Item)
  | _, [] => []
  | q, .read keyBatch :: calls => keyBatch :: answered q calls
  | q, .send keyBatch :: calls => answered (q ++ [keyBatch]) calls
  | q, .wait :: calls => q.take 1 ++ answered q.tail calls
  | q, .progress :: calls => answered q calls

/-- **A batch answered in position**: one pointer a key, and behind the pointer at a position
the record of the key at that position, as its server stores it. -/
structure Positional (ctx : ThdCtx) (a : Answer) : Prop where
  length_eq : a.res.length = a.keyBatch.length
  bytes : ∀ (i : ℕ) (key : Item) (ptr : Ptr), a.keyBatch[i]? = some key → a.res[i]? = some ptr →
    ∀ k < gs.vertexSize, gs.view ctx ptr k = gs.record key k

/-! ### What has been answered -/

/-- **The invariant of a query**: its batches in flight are those of the store, and what it may
use has arrived. -/
structure FetchInv (r : Fetching) : Prop where
  store : gs.StoreInv r.ctx (r.inFlight.map Answer.batch)
  inFlight_length : ∀ a ∈ r.inFlight, a.res.length = a.keyBatch.length
  done_length : ∀ a ∈ r.done, a.res.length = a.keyBatch.length
  arrived : ∀ a ∈ r.done, ∀ x ∈ a.batch, gs.Arrived r.ctx (r.inFlight.map Answer.batch) x.1 x.2

variable {gs} {r r' : Fetching} {calls : List StoreCall}

/-- What may be used is answered in position. -/
lemma FetchInv.positional (h : gs.FetchInv r) (hcopies : gs.TrueCopies) {a : Answer}
    (ha : a ∈ r.done) : gs.Positional r.ctx a := by
  refine ⟨h.done_length a ha, fun i key ptr hkey hptr k hk => ?_⟩
  have hx : (key, ptr) ∈ a.batch := by
    refine List.mem_iff_getElem?.mpr ⟨i, ?_⟩
    rw [Answer.batch, List.getElem?_zip_eq_some]
    exact ⟨hkey, hptr⟩
  exact (h.arrived a ha (key, ptr) hx).view_eq hcopies hk

/-- A call that answers the batches `new` and leaves `inFlight`. -/
lemma FetchInv.of_keeps (h : gs.FetchInv r) {ctx : ThdCtx} {inFlight : List Answer}
    (new : List Answer) (hstore : gs.StoreInv ctx (inFlight.map Answer.batch))
    (hkeep : gs.Keeps r.ctx (r.inFlight.map Answer.batch) ctx (inFlight.map Answer.batch))
    (hin : ∀ a ∈ inFlight, a.res.length = a.keyBatch.length)
    (hnew : ∀ a ∈ new, a.res.length = a.keyBatch.length ∧
      ∀ x ∈ a.batch, gs.Arrived ctx (inFlight.map Answer.batch) x.1 x.2) :
    gs.FetchInv ⟨ctx, inFlight, r.done ++ new⟩ where
  store := hstore
  inFlight_length := hin
  done_length a ha := by
    rcases List.mem_append.mp ha with ha | ha
    · exact h.done_length a ha
    · exact (hnew a ha).1
  arrived a ha x hx := by
    rcases List.mem_append.mp ha with ha | ha
    · exact (h.arrived a ha x hx).keep hkeep
    · exact (hnew a ha).2 x hx

/-- **No allowed call fails**: what was answered stays, and the answers go on as told. -/
lemma FetchInv.call (h : gs.FetchInv r) (hservers : gs.numServers ≤ 256) {c : StoreCall}
    (hallowed : Allowed r.inFlight.length (c :: calls))
    (hkeys : ∀ key ∈ c.keyBatch, key.first ∈ gs.servers) :
    ∃ r', gs.call r c = .ok r' ∧ gs.FetchInv r' ∧ Allowed r'.inFlight.length calls ∧
      r.done <+: r'.done ∧
      r.done.map Answer.keyBatch ++ answered (r.inFlight.map Answer.keyBatch) (c :: calls)
        = r'.done.map Answer.keyBatch ++ answered (r'.inFlight.map Answer.keyBatch) calls := by
  cases c with
  | read keyBatch =>
      obtain ⟨hlen, hallowed⟩ := hallowed
      have hnil : r.inFlight = [] := List.length_eq_zero_iff.mp hlen
      have hstore := h.store
      rw [hnil] at hstore
      obtain ⟨res, ctx, hread, hres, hstore', hkeep, -, harr⟩ := hstore.read hservers keyBatch hkeys
      refine ⟨{ r with ctx := ctx, done := r.done ++ [⟨keyBatch, res⟩] }, ?_, ?_, hallowed,
        List.prefix_append _ _, ?_⟩
      · rw [GStore.call, hread]
        rfl
      · refine h.of_keeps [⟨keyBatch, res⟩] (by rw [hnil]; exact hstore')
          (by rw [hnil]; exact hkeep) h.inFlight_length fun a ha => ?_
        rw [List.mem_singleton.mp ha, hnil]
        exact ⟨hres, harr⟩
      · rw [answered, List.map_append, List.append_assoc]
        rfl
  | send keyBatch =>
      obtain ⟨res, ctx, hsend, hres, hstore', hkeep, -, -⟩ := h.store.send hservers keyBatch hkeys
      have hmap : (r.inFlight ++ [(⟨keyBatch, res⟩ : Answer)]).map Answer.batch
          = r.inFlight.map Answer.batch ++ [keyBatch.zip res] := List.map_append
      refine ⟨{ r with ctx := ctx, inFlight := r.inFlight ++ [⟨keyBatch, res⟩] }, ?_, ?_, ?_,
        List.prefix_refl _, ?_⟩
      · rw [GStore.call, hsend]
        rfl
      · have hinv := h.of_keeps [] (hmap ▸ hstore') (hmap ▸ hkeep) (fun a ha => ?_)
          (by simp)
        · rwa [List.append_nil] at hinv
        · rcases List.mem_append.mp ha with ha | ha
          · exact h.inFlight_length a ha
          · rw [List.mem_singleton.mp ha]
            exact hres
      · rw [List.length_append]
        exact hallowed
      · rw [answered, List.map_append]
        rfl
  | wait =>
      obtain ⟨hpos, hallowed⟩ := hallowed
      cases hflight : r.inFlight with
      | nil =>
          rw [hflight] at hpos
          exact absurd hpos (lt_irrefl 0)
      | cons a rest =>
          have hstore := h.store
          rw [hflight] at hstore hallowed
          obtain ⟨ctx, hwait, hstore', hkeep, -, harr⟩ := hstore.wait hservers
          refine ⟨⟨ctx, rest, r.done ++ [a]⟩, ?_, ?_, hallowed, List.prefix_append _ _, ?_⟩
          · rw [GStore.call, hwait, hflight]
            rfl
          · have hlen := h.inFlight_length
            rw [hflight] at hlen
            refine h.of_keeps [a] hstore' (by rw [hflight]; exact hkeep)
              (fun a' ha' => hlen a' (List.mem_cons_of_mem _ ha')) fun a' ha' => ?_
            rw [List.mem_singleton.mp ha']
            exact ⟨hlen a (List.mem_cons_self ..), harr⟩
          · rw [List.map_cons, answered, List.map_append, List.append_assoc]
            rfl
  | progress =>
      obtain ⟨hstore', hkeep⟩ := h.store.progress
      refine ⟨_, rfl, ?_, hallowed, List.prefix_refl _, rfl⟩
      have hinv := h.of_keeps [] hstore' hkeep h.inFlight_length (by simp)
      rwa [List.append_nil] at hinv

/-- **No allowed sequence of calls fails**, with the calls `rest` still to come. -/
lemma FetchInv.callAll (h : gs.FetchInv r) (hservers : gs.numServers ≤ 256)
    (rest : List StoreCall) (hallowed : Allowed r.inFlight.length (calls ++ rest))
    (hkeys : ∀ c ∈ calls, ∀ key ∈ c.keyBatch, key.first ∈ gs.servers) :
    ∃ r', gs.callAll calls r = .ok r' ∧ gs.FetchInv r' ∧ Allowed r'.inFlight.length rest ∧
      r.done <+: r'.done ∧
      r.done.map Answer.keyBatch
          ++ answered (r.inFlight.map Answer.keyBatch) (calls ++ rest)
        = r'.done.map Answer.keyBatch ++ answered (r'.inFlight.map Answer.keyBatch) rest := by
  induction calls generalizing r with
  | nil => exact ⟨r, rfl, h, hallowed, List.prefix_refl _, rfl⟩
  | cons c calls ih =>
      obtain ⟨r₁, hrun₁, h₁, hallowed₁, hdone₁, hans₁⟩ :=
        h.call hservers hallowed (hkeys c (List.mem_cons_self ..))
      obtain ⟨r₂, hrun₂, h₂, hallowed₂, hdone₂, hans₂⟩ :=
        ih h₁ hallowed₁ fun c' hc' => hkeys c' (List.mem_cons_of_mem _ hc')
      refine ⟨r₂, ?_, h₂, hallowed₂, hdone₁.trans hdone₂, hans₁.trans hans₂⟩
      rw [GStore.callAll, List.foldlM_cons, hrun₁]
      exact hrun₂

lemma callAll_append {earlier later : List StoreCall} (h : gs.callAll earlier r = .ok r') :
    gs.callAll (earlier ++ later) r = gs.callAll later r' := by
  rw [callAll] at h
  rw [callAll, List.foldlM_append, h]
  rfl

/-- A query that begins on an idle thread. -/
lemma fetchInv_beginQuery {ctx : ThdCtx} (hpolls : ctx.thdPolls = [])
    (hidle : ∀ s, ctx.net.qps s = CompletionQueue.idle) : gs.FetchInv (beginQuery ctx) where
  store := storeInv_of_idle hpolls hidle
  inFlight_length := by simp [beginQuery]
  done_length := by simp [beginQuery]
  arrived := by simp [beginQuery]

/-! ### The records behind the results -/

/-- Another cache of the same server. -/
def withRdmaCache (gs : GStore) (rdmaCache : RdmaCache) : GStore :=
  { gs with rdmaCache := rdmaCache }

lemma Positional.exists_key {ctx : ThdCtx} {a : Answer} (h : gs.Positional ctx a) {j : ℕ}
    {ptr : Ptr} (hptr : a.res[j]? = some ptr) : ∃ key, a.keyBatch[j]? = some key := by
  obtain ⟨hj, -⟩ := List.getElem?_eq_some_iff.mp hptr
  exact ⟨_, List.getElem?_eq_getElem (h.length_eq ▸ hj)⟩

/-- **Fetching is positional and transparent.** No allowed sequence of calls fails. It answers
the batches in the order in which they were read or waited for, each of them in position;
results of earlier calls keep their bytes; and with any other cache of true copies the same
batches are answered with the same bytes. -/
theorem getVertexBatch_positional (hservers : gs.numServers ≤ 256) (hcopies : gs.TrueCopies)
    {ctx : ThdCtx} (hpolls : ctx.thdPolls = [])
    (hidle : ∀ s, ctx.net.qps s = CompletionQueue.idle) (hallowed : Allowed 0 calls)
    (hkeys : ∀ c ∈ calls, ∀ key ∈ c.keyBatch, key.first ∈ gs.servers) :
    ∃ r, gs.callAll calls (beginQuery ctx) = .ok r ∧
      r.done.map Answer.keyBatch = answered [] calls ∧
      (∀ a ∈ r.done, gs.Positional r.ctx a) ∧
      (∀ earlier later, calls = earlier ++ later →
        ∃ r₁, gs.callAll earlier (beginQuery ctx) = .ok r₁ ∧ r₁.done <+: r.done ∧
          ∀ a ∈ r₁.done, ∀ ptr ∈ a.res, ∀ k < gs.vertexSize,
            gs.view r₁.ctx ptr k = gs.view r.ctx ptr k) ∧
      ∀ rdmaCache, (gs.withRdmaCache rdmaCache).TrueCopies →
        ∃ r', (gs.withRdmaCache rdmaCache).callAll calls (beginQuery ctx) = .ok r' ∧
          ∀ (i j : ℕ) (a a' : Answer) (ptr ptr' : Ptr), r.done[i]? = some a →
            r'.done[i]? = some a' → a.res[j]? = some ptr → a'.res[j]? = some ptr' →
            ∀ k < gs.vertexSize,
              gs.view r.ctx ptr k = (gs.withRdmaCache rdmaCache).view r'.ctx ptr' k := by
  -- what a run from the beginning on is, for either cache
  have hbegin : ∀ gs' : GStore, gs'.numServers ≤ 256 →
      (∀ c ∈ calls, ∀ key ∈ c.keyBatch, key.first ∈ gs'.servers) →
      ∃ r, gs'.callAll calls (beginQuery ctx) = .ok r ∧ gs'.FetchInv r ∧
        r.done.map Answer.keyBatch = answered [] calls := by
    intro gs' hservers' hkeys'
    obtain ⟨r, hrun, hinv, -, -, hans⟩ := (fetchInv_beginQuery hpolls hidle).callAll
      hservers' [] (by rw [List.append_nil]; exact hallowed) hkeys'
    rw [List.append_nil, answered, List.append_nil] at hans
    exact ⟨r, hrun, hinv, hans.symm⟩
  obtain ⟨r, hrun, hinv, hans⟩ := hbegin gs hservers hkeys
  have hpos : ∀ a ∈ r.done, gs.Positional r.ctx a := fun a ha => hinv.positional hcopies ha
  refine ⟨r, hrun, hans, hpos, fun earlier later heq => ?_, fun rdmaCache hcopies' => ?_⟩
  · subst heq
    obtain ⟨r₁, hrun₁, hinv₁, hallowed₁, -, -⟩ := (fetchInv_beginQuery hpolls hidle).callAll
      hservers later hallowed fun c hc => hkeys c (List.mem_append_left _ hc)
    obtain ⟨r₂, hrun₂, -, -, hdone, -⟩ := hinv₁.callAll hservers []
      (by rwa [List.append_nil]) fun c hc => hkeys c (List.mem_append_right _ hc)
    obtain rfl : r₂ = r := by
      rw [callAll_append hrun₁, hrun₂] at hrun
      exact Except.ok.inj hrun
    refine ⟨r₁, hrun₁, hdone, fun a ha ptr hptr k hk => ?_⟩
    have hpos₁ := hinv₁.positional hcopies ha
    obtain ⟨j, hj⟩ := List.mem_iff_getElem?.mp hptr
    obtain ⟨key, hkey⟩ := hpos₁.exists_key hj
    calc gs.view r₁.ctx ptr k
        = gs.record key k := hpos₁.bytes j key ptr hkey hj k hk
      _ = gs.view r₂.ctx ptr k := ((hpos a (hdone.subset ha)).bytes j key ptr hkey hj k hk).symm
  · obtain ⟨r', hrun', hinv', hans'⟩ := hbegin (gs.withRdmaCache rdmaCache) hservers hkeys
    refine ⟨r', hrun', fun i j a a' ptr ptr' ha ha' hptr hptr' k hk => ?_⟩
    have hsame : a.keyBatch = a'.keyBatch := by
      have hi := congrArg (·[i]?) (hans.trans hans'.symm)
      simp only [List.getElem?_map, ha, ha', Option.map_some, Option.some.injEq] at hi
      exact hi
    have hpos' := hinv'.positional hcopies' (List.mem_of_getElem? ha')
    have hposa := hpos a (List.mem_of_getElem? ha)
    obtain ⟨key, hkey⟩ := hposa.exists_key hptr
    calc gs.view r.ctx ptr k
        = gs.record key k := hposa.bytes j key ptr hkey hptr k hk
      _ = (gs.withRdmaCache rdmaCache).view r'.ctx ptr' k :=
          (hpos'.bytes j key ptr' (hsame ▸ hkey) hptr' k hk).symm

/-- A store of two servers with records of one byte that tell where they are stored. -/
def twoServersStore : GStore where
  sid := 0
  numServers := 2
  vertexSize := 1
  vertexSize_lt := Nat.one_lt_two_pow (Nat.succ_ne_zero 30)
  rdmaCache := ⟨fun _ => 10, fun key => if key = ⟨1, 0⟩ then some 0 else none⟩
  hw := ⟨fun s a => UInt8.ofNat (10 * s.toNat + a), fun _ => [1]⟩

/-- Calls on it: two batches in flight, of local, cached and remote keys, some of them twice. -/
def twoServersCalls : List StoreCall :=
  [.read [⟨0, 2⟩], .send [⟨1, 1⟩, ⟨0, 1⟩, ⟨1, 0⟩], .send [⟨1, 1⟩, ⟨1, 2⟩], .wait, .wait]

/-- A thread that has nothing in flight. -/
def idleCtx : ThdCtx := ⟨7, fun _ => none, [], ⟨fun _ => CompletionQueue.idle, fun _ => 0, 0⟩⟩

/-- The three batches are answered in position. -/
theorem getVertexBatch_positional_twoServers : ∃ r,
    twoServersStore.callAll twoServersCalls (beginQuery idleCtx) = .ok r ∧
      r.done.map Answer.keyBatch
        = [[⟨0, 2⟩], [⟨1, 1⟩, ⟨0, 1⟩, ⟨1, 0⟩], [⟨1, 1⟩, ⟨1, 2⟩]] ∧
      ∀ a ∈ r.done, twoServersStore.Positional r.ctx a := by
  have hcopies : twoServersStore.TrueCopies := by
    intro item off hoff i hi
    obtain rfl : i = 0 := Nat.lt_one_iff.mp hi
    change (if item = ⟨1, 0⟩ then some 0 else none) = some off at hoff
    split_ifs at hoff with heq
    rw [heq]
    rfl
  obtain ⟨r, hrun, hans, hpos, -⟩ := @getVertexBatch_positional twoServersStore twoServersCalls
    (by decide) hcopies idleCtx rfl (fun _ => rfl) (by simp [Allowed, twoServersCalls])
    (by decide)
  exact ⟨r, hrun, hans, hpos⟩

end GStore

end RedAnns
