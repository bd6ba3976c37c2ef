import RedAnns.Store.GStore

/-!
The contracts of the store: what its operations make of the batches that are in flight.

* `StoreInv.send`: an asynchronous batch joins the batches in flight, behind the others.
* `StoreInv.wait`: waiting ends for the oldest batch, whose records have then arrived.
* `StoreInv.read`: a synchronous batch on an idle thread has arrived when it returns.
* `StoreInv.progress`: the hardware may make progress at any moment.
-/

namespace RedAnns

open CompletionQueue

namespace GStore

variable {gs : GStore} {ctx : ThdCtx} {u : List Batch}

/-! ### The servers -/

lemma mem_servers (h : gs.numServers ≤ 256) {s : ServerId} :
    s ∈ gs.servers ↔ s.toNat < gs.numServers := by
  rw [servers, List.mem_map]
  constructor
  · rintro ⟨i, hi, rfl⟩
    rw [List.mem_range] at hi
    rw [UInt8.toNat_ofNat', Nat.mod_eq_of_lt (by omega)]
    exact hi
  · exact fun hs => ⟨s.toNat, List.mem_range.mpr hs, UInt8.ofNat_toNat⟩

lemma nodup_servers (h : gs.numServers ≤ 256) : gs.servers.Nodup := by
  refine (List.nodup_range (n := gs.numServers)).map_on fun i hi j hj heq => ?_
  rw [List.mem_range] at hi hj
  have hnat := congrArg UInt8.toNat heq
  rwa [UInt8.toNat_ofNat', UInt8.toNat_ofNat', Nat.mod_eq_of_lt (by omega),
    Nat.mod_eq_of_lt (by omega)] at hnat

/-! ### No batch in flight -/

lemma storeInv_of_idle (hpolls : ctx.thdPolls = []) (hidle : ∀ s, ctx.net.qps s = idle) :
    gs.StoreInv ctx [] where
  polls := hpolls
  outstanding := outstanding_idle hidle
  issued := by simp
  server_mem := by simp

/-- With no batch in flight nothing is posted, nothing is left to poll. -/
theorem StoreInv.idle (h : gs.StoreInv ctx []) :
    ctx.thdPolls = [] ∧ ∀ s, ctx.net.qps s = CompletionQueue.idle :=
  ⟨h.polls, fun _ => h.outstanding.eq_idle rfl⟩

/-! ### Progress -/

/-- The hardware may make progress at any moment. -/
theorem StoreInv.progress (h : gs.StoreInv ctx u) :
    gs.StoreInv { ctx with net := progress gs.hw ctx.net } u ∧
      gs.Keeps ctx u { ctx with net := RedAnns.progress gs.hw ctx.net } u := by
  obtain ⟨hout, hsame⟩ := h.outstanding.progress
  exact ⟨⟨h.polls, hout, h.issued, h.server_mem⟩, le_rfl, fun _ _ hset => hset,
    fun a _ hset => hsame a hset⟩

/-- Recording a record touches neither the batches nor what has arrived. -/
lemma StoreInv.updateThdCache (h : gs.StoreInv ctx u) (item : Item) (ptr : Ptr) :
    gs.StoreInv (gs.updateThdCache ctx item ptr) u ∧
      gs.Keeps ctx u (gs.updateThdCache ctx item ptr) u := by
  rw [GStore.updateThdCache]
  split_ifs
  · exact ⟨⟨h.polls, h.outstanding, h.issued, h.server_mem⟩, le_rfl, fun _ _ hset => hset,
      fun _ _ _ => rfl⟩
  · exact ⟨h, .refl⟩

/-! ### Sending a batch -/

lemma groups_append (u : List Batch) (b : Batch) (s : ServerId) :
    gs.groups (u ++ [b]) s = gs.groups u s ++ [batchGroup gs.vertexSize (gs.fetchesOf b) s] := by
  rw [groups, List.map_append, List.map_singleton]
  rfl

/-- Reads behind the used part of the buffer leave what is settled there settled. -/
lemma settled_append {used : ℕ} {b : Batch} {a : ℕ} (h : Settled (gs.groups u) a)
    (hspaced : Spaced gs.vertexSize used (gs.fetchesOf b)) (ha : a < used) :
    Settled (gs.groups (u ++ [b])) a := by
  intro s r hr
  rw [groups_append, List.flatten_append, List.flatten_singleton] at hr
  rcases List.mem_append.mp hr with hr | hr
  · exact h s r hr
  · obtain ⟨f, hf, -, hbuf, -⟩ := mem_batchGroup hr
    have := hspaced.le f hf
    exact Or.inl (by omega)

/-- **An asynchronous batch joins the batches in flight.** -/
theorem StoreInv.send (h : gs.StoreInv ctx u) (hservers : gs.numServers ≤ 256)
    (keys : List Item) (hkeys : ∀ key ∈ keys, key.first ∈ gs.servers) :
    ∃ res ctx', gs.getVertexBatch ctx keys true = .ok (res, ctx') ∧ res.length = keys.length ∧
      gs.StoreInv ctx' (u ++ [keys.zip res]) ∧
      gs.Keeps ctx u ctx' (u ++ [keys.zip res]) ∧ ctx'.thdCache = ctx.thdCache ∧
      ∀ x ∈ keys.zip res, x.1.first = gs.sid → x.2 = .kvstore (gs.dstOff x.1) := by
  have hspec := gs.gather_spec keys ctx.bufUsedSz
  rw [getVertexBatch]
  generalize gs.gather keys ctx.bufUsedSz = gathered at hspec ⊢
  obtain ⟨res, fetches⟩ := gathered
  obtain ⟨hlen, hfetch, hspaced, hissued, hlocal⟩ := hspec
  simp only at hlen hfetch hspaced hissued hlocal ⊢
  have hmem : ∀ x ∈ keys.zip res, x.1.first ∈ gs.servers := fun x hx =>
    hkeys x.1 (List.of_mem_zip hx).1
  have hnid : ∀ f ∈ fetches, f.nid ∈ gs.servers := fun f hf => by
    rw [hfetch] at hf
    obtain ⟨x, hx, -, hfirst, -⟩ := mem_fetchesOf.mp hf
    exact hfirst ▸ hmem x hx
  -- with or without reads to post, the batch adds its group to every queue pair
  have hsent : ∃ net, (if fetches.length ≠ 0 then
        rdmaReadBatchDoorbellUnsignalAsyncSend gs.hw gs.servers gs.vertexSize fetches ctx.net
          fun _ => 0
      else (ctx.net, fun _ => 0)) = (net, gs.pollsOf (keys.zip res)) ∧
      Outstanding gs.hw net (gs.groups (u ++ [keys.zip res])) ∧
      ∀ a < ctx.bufUsedSz, Settled (gs.groups u) a → net.buffer a = ctx.net.buffer a := by
    have hG : gs.groups (u ++ [keys.zip res])
        = fun s => gs.groups u s ++ [batchGroup gs.vertexSize fetches s] := by
      funext s
      rw [groups_append, hfetch]
    rw [hG]
    split_ifs with hne
    · obtain ⟨hout, hsame, hpolls⟩ := h.outstanding.send (nodup_servers hservers) h.below hspaced
        hnid fun _ => 0
      refine ⟨_, Prod.ext rfl (funext fun s => ?_), hout, hsame⟩
      show _ = (batchGroup gs.vertexSize (gs.fetchesOf (keys.zip res)) s).length
      rw [hpolls s, ← hfetch]
      split_ifs with hs
      · rfl
      · rw [hfetch, batchGroup_eq_nil hmem hs]
        rfl
    · have hnil : fetches = [] := List.length_eq_zero_iff.mp (not_not.mp hne)
      refine ⟨ctx.net, Prod.ext rfl (funext fun s => ?_), ?_, fun _ _ _ => rfl⟩
      · show 0 = (batchGroup gs.vertexSize (gs.fetchesOf (keys.zip res)) s).length
        rw [← hfetch, hnil]
        rfl
      · refine h.outstanding.addNil fun s => Or.inr ?_
        rw [hnil]
        rfl
  obtain ⟨net, hrun, hout, hbytes⟩ := hsent
  rw [hrun]
  refine ⟨res, _, rfl, hlen, ⟨?_, hout, ?_, ?_⟩, ⟨Nat.le_add_right _ _, fun a ha hset => ?_,
    hbytes⟩, rfl, hlocal⟩
  · rw [List.map_append, List.map_singleton, h.polls]
  · intro b hb x hx
    rcases List.mem_append.mp hb with hb | hb
    · exact (h.issued b hb x hx).mono (Nat.le_add_right _ _)
    · rw [List.mem_singleton.mp hb] at hx
      exact hissued x hx
  · intro b hb x hx
    rcases List.mem_append.mp hb with hb | hb
    · exact h.server_mem b hb x hx
    · rw [List.mem_singleton.mp hb] at hx
      exact hmem x hx
  · exact settled_append hset (hfetch ▸ hspaced) ha

/-! ### Waiting for a batch -/

/-- **Waiting ends for the oldest batch**, whose records have then arrived. -/
theorem StoreInv.wait {b : Batch} (h : gs.StoreInv ctx (b :: u))
    (hservers : gs.numServers ≤ 256) :
    ∃ ctx', gs.getVertexBatchWait ctx = .ok ctx' ∧ gs.StoreInv ctx' u ∧
      gs.Keeps ctx (b :: u) ctx' u ∧ ctx'.thdCache = ctx.thdCache ∧
      ∀ x ∈ b, gs.Arrived ctx' u x.1 x.2 := by
  have hpolls := h.polls
  rw [List.map_cons] at hpolls
  have hG : ∀ s, gs.groups (b :: u) s
      = batchGroup gs.vertexSize (gs.fetchesOf b) s :: gs.groups u s := fun _ => rfl
  obtain ⟨net, hrun, hout, hdel, hsame⟩ := h.outstanding.wait (nodup_servers hservers) hG
    (fun s => batchGroup_eq_nil (h.server_mem b (by simp)))
    (fun _ _ => rfl : ∀ s ∈ gs.servers, gs.pollsOf b s = _)
  have hset : ∀ a, Settled (gs.groups (b :: u)) a → Settled (gs.groups u) a := fun a ha =>
    ha.mono fun s => by
      rw [hG s, List.flatten_cons]
      exact List.subset_append_right _ _
  refine ⟨{ ctx with thdPolls := u.map gs.pollsOf, net := net }, ?_,
    ⟨rfl, hout, fun b' hb' => h.issued b' (List.mem_cons_of_mem _ hb'),
      fun b' hb' => h.server_mem b' (List.mem_cons_of_mem _ hb')⟩,
    ⟨le_rfl, fun a _ ha => hset a ha, fun a _ ha => hsame a ha⟩, rfl,
    fun x hx => ⟨h.issued b (by simp) x hx, fun off heq i hi => ?_⟩⟩
  · rw [getVertexBatchWait, hpolls]
    simp only [hrun]
    rfl
  · -- the read of this record is in the group of its server
    have hfetch : (⟨x.1.first, off, gs.dstOff x.1⟩ : Fetch) ∈ gs.fetchesOf b :=
      mem_fetchesOf.mpr ⟨x, hx, heq, rfl, rfl⟩
    obtain ⟨signaled, hr⟩ := exists_mem_signalLast
      (mem_requestsTo.mpr ⟨_, hfetch, rfl, rfl⟩ :
        Fetch.request ⟨x.1.first, off, gs.dstOff x.1⟩ gs.vertexSize false
          ∈ requestsTo gs.vertexSize (gs.fetchesOf b) x.1.first)
    have hlen : i < sgeLength gs.vertexSize := hi.trans_eq (sgeLength_eq gs.vertexSize_lt).symm
    refine ⟨?_, hdel x.1.first _ hr i hlen⟩
    exact h.outstanding.settled_of_front hG hr hlen

/-! ### Reading a batch -/

/-- **A synchronous batch has arrived when it returns.** -/
theorem StoreInv.read (h : gs.StoreInv ctx []) (hservers : gs.numServers ≤ 256)
    (keys : List Item) (hkeys : ∀ key ∈ keys, key.first ∈ gs.servers) :
    ∃ res ctx', gs.getVertexBatch ctx keys false = .ok (res, ctx') ∧ res.length = keys.length ∧
      gs.StoreInv ctx' [] ∧ gs.Keeps ctx [] ctx' [] ∧ ctx'.thdCache = ctx.thdCache ∧
      ∀ x ∈ keys.zip res, gs.Arrived ctx' [] x.1 x.2 := by
  have hspec := gs.gather_spec keys ctx.bufUsedSz
  rw [getVertexBatch]
  generalize gs.gather keys ctx.bufUsedSz = gathered at hspec ⊢
  obtain ⟨res, fetches⟩ := gathered
  obtain ⟨hlen, hfetch, hspaced, hissued, hlocal⟩ := hspec
  simp only at hlen hfetch hspaced hissued hlocal ⊢
  have hnid : ∀ f ∈ fetches, f.nid ∈ gs.servers := fun f hf => by
    rw [hfetch] at hf
    obtain ⟨x, hx, -, hfirst, -⟩ := mem_fetchesOf.mp hf
    exact hfirst ▸ hkeys x.1 (List.of_mem_zip hx).1
  rw [if_neg (by simp)]
  split_ifs with hne
  · obtain ⟨net, hrun, hidle, hsame, hbytes⟩ :=
      Outstanding.readBatch (nodup_servers hservers) gs.vertexSize_lt h.idle.2 hspaced hnid
    refine ⟨res, { ctx with
      bufUsedSz := ctx.bufUsedSz + gs.vertexSize * fetches.length, net := net }, ?_, hlen,
      storeInv_of_idle h.polls hidle,
      ⟨Nat.le_add_right _ _, fun _ _ hset => hset, fun a ha _ => hsame a ha⟩, rfl,
      fun x hx => ⟨hissued x hx, fun off heq i hi => ?_⟩⟩
    · rw [hrun]
      rfl
    · have hmem : (⟨x.1.first, off, gs.dstOff x.1⟩ : Fetch) ∈ fetches := by
        rw [hfetch]
        exact mem_fetchesOf.mpr ⟨x, hx, heq, rfl, rfl⟩
      exact ⟨fun s r hr => absurd hr (by simp [groups]), hbytes _ hmem i hi⟩
  · have hnil : fetches = [] := List.length_eq_zero_iff.mp (not_not.mp hne)
    refine ⟨res, _, rfl, hlen, storeInv_of_idle h.polls h.idle.2,
      ⟨Nat.le_add_right _ _, fun _ _ hset => hset, fun _ _ _ => rfl⟩, rfl,
      fun x hx => (hissued x hx).arrived fun off heq => ?_⟩
    have hmem : (⟨x.1.first, off, gs.dstOff x.1⟩ : Fetch) ∈ fetches := by
      rw [hfetch]
      exact mem_fetchesOf.mpr ⟨x, hx, heq, rfl, rfl⟩
    rw [hnil] at hmem
    exact absurd hmem (by simp)

end GStore

end RedAnns
