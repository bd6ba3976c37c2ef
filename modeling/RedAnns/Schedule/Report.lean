import RedAnns.Lib.Accumulate
import RedAnns.Schedule.Termination
import RedAnns.Search.Distributed
import RedAnns.Search.Recall

/-!
What `test_search_distributed_with_dynamic_scheduling` reports.

Every server has a row of results and a record of counters for each query. An engine that is handed
a query searches for it and leaves what it has found in the row and the record of its own server. At
the end every server computes its recall and the means of its counters over all queries, those it
has not run included, and sends them to server 0, which adds them up.

* `Searches`: the searches, as relations; `Workload`: the ground truth.
* `Rows`, `Test`, `TestStep`, `TestRun`: the scheduling together with the rows.
* `getMeanStats`, `resultMsg`, `report`: the end of the test.
* `Filled`: the rows hold what was handed so far; `TestRun.exists_filled`.
* `report_eq`: what is reported, whatever the interleaving.
-/

namespace RedAnns

/-- The counters of a new record. -/
def QueryStats.zero : QueryStats := ⟨0, 0, 0, 0⟩

namespace Schedule

variable {c : Cluster} {K : ℕ}

/-- What a search leaves behind: `K` labels, and the record of its query. -/
structure Outcome (K : ℕ) where
  indices : List VertexId
  stats : QueryStats
  length_indices : indices.length = K

/-- The searches of the engine threads: what a thread keeps from one to the next, and what a search
of a thread for a query may leave, of that and of the record. -/
structure Searches (c : Cluster) (K : ℕ) where
  Scratch : Type
  Returns : c.Thread → ℕ → Scratch → QueryStats → Scratch → Outcome K → Prop

/-- The ground truth of every query, long enough for `K` results. -/
structure Workload (c : Cluster) (K : ℕ) where
  gt : List (List VertexId)
  pos : 0 < K
  queryNum_pos : 0 < c.queryNum
  gt_length : c.queryNum ≤ gt.length
  row_length : ∀ qid < c.queryNum, K ≤ (gt.getD qid []).length

/-- `res`, `stats` and `run_query_num` of a server. -/
structure Rows where
  res : List (List VertexId)
  stats : List QueryStats
  runQueryNum : ℕ

/-- The rows before the run. -/
def Rows.init (queryNum K : ℕ) : Rows where
  res := (List.range queryNum).map fun _ => List.replicate K 0
  stats := (List.range queryNum).map fun _ => QueryStats.zero
  runQueryNum := 0

/-- The rows after a search for a query. -/
def Rows.fill (rows : Rows) (qid : ℕ) (o : Outcome K) : Rows where
  res := rows.res.set qid o.indices
  stats := rows.stats.set qid o.stats
  runQueryNum := rows.runQueryNum + 1

/-- The scheduling, what the threads keep, and the rows of the servers. -/
structure Test (searches : Searches c K) where
  state : State c
  scratch : c.Thread → searches.Scratch
  rows : Fin c.numServers → Rows

section Source

variable (searches : Searches c K)

/-- A step of the test: a search, or what else an engine or a proxy does. -/
inductive TestStep (m : Test searches) : Test searches → Prop
  | search (t : c.Thread) (qid : ℕ) (x : searches.Scratch) (o : Outcome K) (s : State c) :
      (m.state.engines t).point = .search qid → engineStep t m.state = some s →
      searches.Returns t qid (m.scratch t) ((m.rows t.1).stats.getD qid QueryStats.zero) x o →
      TestStep m ⟨s, Function.update m.scratch t x,
        Function.update m.rows t.1 ((m.rows t.1).fill qid o)⟩
  | engine (t : c.Thread) (s : State c) : (∀ qid, (m.state.engines t).point ≠ .search qid) →
      engineStep t m.state = some s → TestStep m ⟨s, m.scratch, m.rows⟩
  | proxy (t : c.Thread) (p : Fin c.numServers) (s : State c) : proxyStep t p m.state = some s →
      TestStep m ⟨s, m.scratch, m.rows⟩

/-- The states that runs of `n` steps reach. -/
inductive TestRun : ℕ → Test searches → Prop
  | init (scratch : c.Thread → searches.Scratch) :
      TestRun 0 ⟨State.init c, scratch, fun _ => Rows.init c.queryNum K⟩
  | step {n : ℕ} {m m' : Test searches} : TestRun n m → TestStep searches m m' → TestRun (n + 1) m'

variable (F : Type) [Field F]

/-- `get_mean_stats`. -/
def getMeanStats (stats : List QueryStats) (len : ℕ) (memberFn : QueryStats → UInt32) : F :=
  (List.range len).foldl (fun avg i => avg + ((memberFn (stats.getD i QueryStats.zero)).toNat : F))
    0 / len

/-- What a server reports, up to the times. -/
structure ResultMsg where
  recallAtK : F
  queryCount : ℕ
  meanHops : F
  meanCmps : F
  meanCmpsLocal : F
  meanCmpsRemote : F

variable {F}

/-- The report of another server is added. -/
def ResultMsg.add (total msg : ResultMsg F) : ResultMsg F where
  recallAtK := total.recallAtK + msg.recallAtK
  queryCount := total.queryCount + msg.queryCount
  meanHops := total.meanHops + msg.meanHops
  meanCmps := total.meanCmps + msg.meanCmps
  meanCmpsLocal := total.meanCmpsLocal + msg.meanCmpsLocal
  meanCmpsRemote := total.meanCmpsRemote + msg.meanCmpsRemote

variable (F)

/-- The report of a server. -/
def resultMsg (w : Workload c K) (rows : Rows) : Except String (ResultMsg F) := do
  let recallAtK ← computeRecall c.queryNum K w.gt rows.res
  return {
    recallAtK
    queryCount := rows.runQueryNum
    meanHops := getMeanStats F rows.stats c.queryNum (·.nHops)
    meanCmps := getMeanStats F rows.stats c.queryNum (·.nCmps)
    meanCmpsLocal := getMeanStats F rows.stats c.queryNum (·.nCmpsLocal)
    meanCmpsRemote := getMeanStats F rows.stats c.queryNum (·.nCmpsRemote) }

/-- What server 0 reports in the end: it adds the reports of the others to its own. -/
def report (w : Workload c K) (rows : Fin c.numServers → Rows) (sid : Fin c.numServers) :
    Except String (ResultMsg F) := do
  let own ← resultMsg F w (rows sid)
  let msgs ← (List.finRange c.numServers).tail.mapM fun srcSid => resultMsg F w (rows srcSid)
  return msgs.foldl ResultMsg.add own

end Source

/-! ### What is handed to a search -/

section Handed

variable {s s' : State c} {t : c.Thread} {qid : ℕ}

lemma handed_of_search (hpt : (s.engines t).point = .search qid) (h : engineStep t s = some s') :
    s'.handed = s.handed ++ [qid] := by
  rw [engineStep] at h
  simp only [hpt, Option.some.injEq] at h
  rw [← h]
  rfl

lemma handed_of_engineStep (hpt : ∀ qid, (s.engines t).point ≠ .search qid)
    (h : engineStep t s = some s') : s'.handed = s.handed := by
  rw [engineStep] at h
  cases hp : (s.engines t).point with
  | dispatch =>
      simp only [hp, Option.some.injEq] at h
      exact h ▸ rfl
  | send qid =>
      simp only [hp, Option.some.injEq] at h
      exact h ▸ rfl
  | execute =>
      simp only [hp] at h
      split_ifs at h <;> exact Option.some.inj h ▸ rfl
  | recv =>
      simp only [hp] at h
      cases hrep : s.replies ((s.engines t).dsid, t.1) with
      | nil => simp [hrep] at h
      | cons reply rest =>
          cases reply with
          | dequeueSucc qid =>
              simp only [hrep, Option.some.injEq] at h
              exact h ▸ rfl
          | dequeueFail =>
              simp only [hrep, Option.some.injEq] at h
              exact h ▸ rfl
  | search qid => exact absurd hp (hpt qid)
  | left => simp [hp] at h

lemma handed_of_proxyStep {p : Fin c.numServers} (h : proxyStep t p s = some s') :
    s'.handed = s.handed := by
  rw [proxyStep] at h
  cases hreq : s.requests (t, p) with
  | nil => simp [hreq] at h
  | cons m rest =>
      cases m with
      | enqueue qid =>
          simp only [hreq, Option.some.injEq] at h
          exact h ▸ rfl
      | dequeueHighAffinity =>
          simp only [hreq, Option.some.injEq] at h
          subst h
          cases popBack (s.taskQueue p) <;> rfl
      | dequeueLowAffinity =>
          simp only [hreq, Option.some.injEq] at h
          subst h
          cases popFront (s.taskQueue p) <;> rfl

lemma one_le_held (hpt : (s.engines t).point = .search qid) : 1 ≤ held qid s.engines := by
  have hle : (s.engines t).point.holds qid ≤ held qid s.engines :=
    le_tally (fun _ (e : Engine c) => e.point.holds qid) s.engines t
  rwa [hpt, Point.holds, if_pos rfl] at hle

/-- A query is handed to one search only. -/
lemma Conserved.not_mem_handed (h : Conserved s) (hpt : (s.engines t).point = .search qid) :
    qid ∉ s.handed := by
  intro hmem
  have hcount := List.count_pos_iff.mpr hmem
  have hheld := one_le_held hpt
  have hq := h qid
  rw [occurrences] at hq
  split_ifs at hq <;> omega

/-- Whatever occurs anywhere is a query. -/
lemma Conserved.lt_of_occurs (h : Conserved s) (hpos : 0 < occurrences s qid) :
    qid < c.queryNum := by
  by_contra hge
  rw [h qid, if_neg fun hand => hge hand.2] at hpos
  exact hpos.false

/-- An engine holds a query that was drawn. -/
lemma Conserved.lt_of_hand (h : Conserved s) (hpt : (s.engines t).point = .search qid) :
    qid < c.queryNum := by
  have hheld := one_le_held hpt
  refine h.lt_of_occurs ?_
  rw [occurrences]
  omega

/-- Only queries are handed to searches. -/
lemma Conserved.lt_of_mem_handed (h : Conserved s) (hmem : qid ∈ s.handed) : qid < c.queryNum := by
  have hcount := List.count_pos_iff.mpr hmem
  refine h.lt_of_occurs ?_
  rw [occurrences]
  omega

/-- When the work is done, exactly the queries were handed to searches. -/
lemma Finished.perm_handed (h : Finished s) (hc : Conserved s) (t : c.Thread) :
    s.handed.Perm (List.range c.queryNum) := by
  refine List.perm_iff_count.mpr fun qid => ?_
  by_cases hlt : qid < c.queryNum
  · rw [h.once ⟨t⟩ qid hlt, List.count_eq_one_of_mem List.nodup_range (List.mem_range.mpr hlt)]
  · rw [List.count_eq_zero.mpr fun hmem => hlt (hc.lt_of_mem_handed hmem),
      List.count_eq_zero.mpr fun hmem => hlt (List.mem_range.mp hmem)]

end Handed

/-! ### What the rows hold -/

section Filled

variable {searches : Searches c K} {m m' : Test searches} {n : ℕ}

lemma set_map_range {α : Type*} (n : ℕ) (f : ℕ → α) (i : ℕ) (a : α) :
    ((List.range n).map f).set i a = (List.range n).map (Function.update f i a) := by
  refine List.ext_getElem (by simp) fun j _ _ => ?_
  rw [List.getElem_set]
  simp only [List.getElem_map, List.getElem_range, Function.update_apply, eq_comm]

/-- The rows of a server, of the queries that were handed to searches, the server that has run each
of them and what was left behind. -/
def Rows.of (handed : List ℕ) (executor : ℕ → Fin c.numServers) (outcome : ℕ → Outcome K)
    (sid : Fin c.numServers) : Rows where
  res := (List.range c.queryNum).map fun qid =>
    if qid ∈ handed ∧ executor qid = sid then (outcome qid).indices else List.replicate K 0
  stats := (List.range c.queryNum).map fun qid =>
    if qid ∈ handed ∧ executor qid = sid then (outcome qid).stats else QueryStats.zero
  runQueryNum := handed.countP (executor · = sid)

/-- **The rows hold what was handed to searches.** -/
structure Filled (m : Test searches) (executor : ℕ → Fin c.numServers) (outcome : ℕ → Outcome K) :
    Prop where
  rows : ∀ sid, m.rows sid = Rows.of m.state.handed executor outcome sid
  returned : ∀ qid ∈ m.state.handed, ∃ t x x', t.1 = executor qid ∧
    searches.Returns t qid x QueryStats.zero x' (outcome qid)

section Fill

variable {handed : List ℕ} {qid : ℕ} (hnew : qid ∉ handed) (executor : ℕ → Fin c.numServers)
  (outcome : ℕ → Outcome K) (sid : Fin c.numServers) (o : Outcome K)

include hnew

/-- The server that runs a query. -/
lemma Rows.fill_of : (Rows.of handed executor outcome sid).fill qid o
    = Rows.of (handed ++ [qid]) (Function.update executor qid sid) (Function.update outcome qid o)
        sid := by
  have hcount : handed.countP (fun q => decide (Function.update executor qid sid q = sid))
      = handed.countP fun q => decide (executor q = sid) := by
    refine List.countP_congr fun q hq => ?_
    rw [Function.update_of_ne (ne_of_mem_of_not_mem hq hnew)]
  have hcell : ∀ {α : Type} (a : Outcome K → α) (zero : α), Function.update
      (fun q => if q ∈ handed ∧ executor q = sid then a (outcome q) else zero) qid (a o)
        = fun q => if q ∈ handed ++ [qid] ∧ Function.update executor qid sid q = sid
            then a (Function.update outcome qid o q) else zero := by
    intro α a zero
    funext q
    rcases eq_or_ne q qid with rfl | hq
    · simp
    · simp [hq]
  rw [Rows.fill, Rows.of, Rows.of, Rows.mk.injEq]
  refine ⟨?_, ?_, ?_⟩
  · rw [set_map_range, hcell]
  · rw [set_map_range, hcell]
  · rw [List.countP_append, hcount]
    simp

/-- The other servers. -/
lemma Rows.of_append {p : Fin c.numServers} (hp : p ≠ sid) :
    Rows.of (handed ++ [qid]) (Function.update executor qid sid) (Function.update outcome qid o) p
      = Rows.of handed executor outcome p := by
  have hcount : (handed ++ [qid]).countP
      (fun q => decide (Function.update executor qid sid q = p))
        = handed.countP fun q => decide (executor q = p) := by
    have hlast : [qid].countP (fun q => decide (Function.update executor qid sid q = p)) = 0 := by
      simp [hp.symm]
    rw [List.countP_append, hlast, Nat.add_zero]
    refine List.countP_congr fun q hq => ?_
    rw [Function.update_of_ne (ne_of_mem_of_not_mem hq hnew)]
  have hcell : ∀ {α : Type} (a : Outcome K → α) (zero : α),
      (fun q => if q ∈ handed ++ [qid] ∧ Function.update executor qid sid q = p
        then a (Function.update outcome qid o q) else zero)
        = fun q => if q ∈ handed ∧ executor q = p then a (outcome q) else zero := by
    intro α a zero
    funext q
    rcases eq_or_ne q qid with rfl | hq
    · simp [hnew, hp.symm]
    · simp [hq]
  rw [Rows.of, Rows.of, Rows.mk.injEq, hcell, hcell]
  exact ⟨rfl, rfl, hcount⟩

end Fill

variable {executor : ℕ → Fin c.numServers} {outcome : ℕ → Outcome K}

/-- A step that hands no query to a search. -/
lemma Filled.of_handed_eq (h : Filled m executor outcome) {s : State c}
    (heq : s.handed = m.state.handed) : Filled ⟨s, m.scratch, m.rows⟩ executor outcome where
  rows := fun sid => (h.rows sid).trans (by rw [heq])
  returned := fun qid hqid => h.returned qid (heq ▸ hqid)

/-- A search begins with a new record. -/
lemma Filled.zero_stats (h : Filled m executor outcome) (hc : Conserved m.state) {t : c.Thread}
    {qid : ℕ} (hpt : (m.state.engines t).point = .search qid) :
    (m.rows t.1).stats.getD qid QueryStats.zero = QueryStats.zero := by
  rw [h.rows, Rows.of, getD_map_range (hc.lt_of_hand hpt),
    if_neg fun hand => hc.not_mem_handed hpt hand.1]

/-- **A step keeps the rows filled.** -/
lemma Filled.step (h : Filled m executor outcome) (hc : Conserved m.state)
    (hs : TestStep searches m m') : ∃ executor' outcome', Filled m' executor' outcome' := by
  cases hs with
  | engine t s hpt hstep =>
      exact ⟨executor, outcome, h.of_handed_eq (handed_of_engineStep hpt hstep)⟩
  | proxy t p s hstep => exact ⟨executor, outcome, h.of_handed_eq (handed_of_proxyStep hstep)⟩
  | search t qid x o s hpt hstep hret =>
      have hnew : qid ∉ m.state.handed := hc.not_mem_handed hpt
      have hhanded := handed_of_search hpt hstep
      rw [h.zero_stats hc hpt] at hret
      refine ⟨Function.update executor qid t.1, Function.update outcome qid o, ?_, ?_⟩
      · intro sid
        show Function.update m.rows t.1 ((m.rows t.1).fill qid o) sid = Rows.of s.handed _ _ sid
        rw [hhanded, h.rows]
        rcases eq_or_ne sid t.1 with rfl | hsid
        · rw [Function.update_self, Rows.fill_of hnew]
        · rw [Function.update_of_ne hsid, Rows.of_append hnew _ _ _ _ hsid, h.rows]
      · intro q hq
        rcases eq_or_ne q qid with rfl | hne
        · exact ⟨t, m.scratch t, x, by simp, by simpa using hret⟩
        · rw [show Test.state _ = s from rfl, hhanded] at hq
          have hold : q ∈ m.state.handed := by simpa [hne] using hq
          simpa [hne] using h.returned q hold

/-- The scheduling of a step of the test. -/
lemma TestStep.step (h : TestStep searches m m') : Step m.state m'.state := by
  cases h with
  | search t qid x o s hpt hstep hret => exact .engine t hstep
  | engine t s hpt hstep => exact .engine t hstep
  | proxy t p s hstep => exact .proxy t p hstep

/-- The scheduling of a run of the test. -/
lemma TestRun.run (h : TestRun searches n m) : Run c n m.state := by
  induction h with
  | init scratch => exact .init
  | step _ hs ih => exact ih.step hs.step

/-- **Every run keeps the rows filled.** -/
lemma TestRun.exists_filled (h : TestRun searches n m) (default : Outcome K)
    (sid : Fin c.numServers) : ∃ executor outcome, Filled m executor outcome := by
  induction h with
  | init scratch =>
      refine ⟨fun _ => sid, fun _ => default, fun p => ?_, fun qid hqid => ?_⟩
      · simp [Rows.of, Rows.init, State.init]
      · exact absurd hqid (List.not_mem_nil)
  | step hrun hs ih =>
      obtain ⟨executor, outcome, hfilled⟩ := ih
      exact hfilled.step hrun.run.reachable.inv.conserved hs

end Filled

/-! ### What is reported -/

section Report

variable (F : Type) [Field F] {handed : List ℕ} {executor : ℕ → Fin c.numServers}
  {outcome : ℕ → Outcome K}

/-- The rows of a single server that runs all queries. -/
def Rows.merged (queryNum : ℕ) (outcome : ℕ → Outcome K) : Rows where
  res := (List.range queryNum).map fun qid => (outcome qid).indices
  stats := (List.range queryNum).map fun qid => (outcome qid).stats
  runQueryNum := queryNum

/-- The answers of the searches, for the recall. -/
def Workload.recallRun (w : Workload c K) (executor : ℕ → Fin c.numServers)
    (outcome : ℕ → Outcome K) : RecallRun where
  queryNum := c.queryNum
  K := K
  gt := w.gt
  numServers := c.numServers
  executor := executor
  answer := fun qid => (outcome qid).indices
  pos := w.pos
  gt_length := w.gt_length
  row_length := w.row_length
  answer_length := fun qid => (outcome qid).length_indices

lemma getMeanStats_map (n : ℕ) (stats : ℕ → QueryStats) (memberFn : QueryStats → UInt32) :
    getMeanStats F ((List.range n).map stats) n memberFn
      = (∑ qid ∈ Finset.range n, ((memberFn (stats qid)).toNat : F)) / n := by
  have hsum : ((List.range n).map fun i =>
      ((memberFn (((List.range n).map stats).getD i QueryStats.zero)).toNat : F)).sum
        = ∑ qid ∈ Finset.range n, ((memberFn (stats qid)).toNat : F) := by
    rw [← List.toFinset_range, List.sum_toFinset _ List.nodup_range]
    refine congrArg List.sum (List.map_congr_left fun i hi => ?_)
    rw [getD_map_range (List.mem_range.mp hi)]
  rw [getMeanStats, foldl_add, zero_add, hsum]

/-- When all queries were handed to searches, only the server tells whether a row was filled. -/
lemma Rows.of_done (h : handed.Perm (List.range c.queryNum)) (sid : Fin c.numServers) :
    Rows.of handed executor outcome sid =
      { res := (List.range c.queryNum).map fun qid =>
          if executor qid = sid then (outcome qid).indices else List.replicate K 0
        stats := (List.range c.queryNum).map fun qid =>
          if executor qid = sid then (outcome qid).stats else QueryStats.zero
        runQueryNum := handed.countP (executor · = sid) } := by
  rw [Rows.of, Rows.mk.injEq]
  refine ⟨List.map_congr_left fun qid hqid => ?_, List.map_congr_left fun qid hqid => ?_, rfl⟩
  · simp [h.mem_iff.mpr hqid]
  · simp [h.mem_iff.mpr hqid]

/-- **The means of the servers add up** to those of a single server. -/
lemma sum_getMeanStats (h : handed.Perm (List.range c.queryNum)) (memberFn : QueryStats → UInt32)
    (hzero : memberFn QueryStats.zero = 0) :
    ∑ sid, getMeanStats F (Rows.of handed executor outcome sid).stats c.queryNum memberFn
      = getMeanStats F (Rows.merged c.queryNum outcome).stats c.queryNum memberFn := by
  have hcell : ∀ sid qid, ((memberFn (if executor qid = sid then (outcome qid).stats
      else QueryStats.zero)).toNat : F)
        = if executor qid = sid then ((memberFn (outcome qid).stats).toNat : F) else 0 := by
    intro sid qid
    split_ifs
    · rfl
    · rw [hzero, UInt32.toNat_zero, Nat.cast_zero]
  simp only [Rows.of_done h, Rows.merged, getMeanStats_map, hcell]
  rw [← Finset.sum_div, Finset.sum_comm]
  congr 1
  refine Finset.sum_congr rfl fun qid _ => ?_
  rw [Finset.sum_ite_eq, if_pos (Finset.mem_univ _)]

/-- The servers have run all queries. -/
lemma sum_runQueryNum (h : handed.Perm (List.range c.queryNum)) :
    ∑ sid, (Rows.of handed executor outcome sid).runQueryNum = c.queryNum := by
  have hclass : ∀ sid : Fin c.numServers, (Rows.of handed executor outcome sid).runQueryNum
      = handed.countP fun qid => (executor qid).val = sid.val := fun sid =>
    List.countP_congr fun qid _ => by simp [Fin.ext_iff]
  rw [Finset.sum_congr rfl fun sid _ => hclass sid,
    Fin.sum_univ_eq_sum_range (fun k => handed.countP fun qid => (executor qid).val = k),
    sum_countP _ _ fun qid _ => (executor qid).isLt, h.length_eq, List.length_range]

/-- The sum of the reports. -/
lemma foldl_add_resultMsg (msgs : List (ResultMsg F)) (own : ResultMsg F) :
    msgs.foldl ResultMsg.add own =
      { recallAtK := own.recallAtK + (msgs.map (·.recallAtK)).sum
        queryCount := own.queryCount + (msgs.map (·.queryCount)).sum
        meanHops := own.meanHops + (msgs.map (·.meanHops)).sum
        meanCmps := own.meanCmps + (msgs.map (·.meanCmps)).sum
        meanCmpsLocal := own.meanCmpsLocal + (msgs.map (·.meanCmpsLocal)).sum
        meanCmpsRemote := own.meanCmpsRemote + (msgs.map (·.meanCmpsRemote)).sum } := by
  induction msgs generalizing own with
  | nil => simp
  | cons msg msgs ih => simp [ih, ResultMsg.add, add_assoc]

/-- Server 0 and the others. -/
lemma finRange_eq_cons {n : ℕ} {sid : Fin n} (hsid : sid.val = 0) :
    List.finRange n = sid :: (List.finRange n).tail := by
  cases n with
  | zero => exact sid.elim0
  | succ n =>
      rw [List.finRange_succ, List.tail_cons, List.cons.injEq]
      exact ⟨Fin.ext hsid.symm, rfl⟩

/-- **The reports of the servers add up** to that of a single server, up to the recall. -/
lemma report_of_done (w : Workload c K) {rows : Fin c.numServers → Rows} {sid : Fin c.numServers}
    (hsid : sid.val = 0) (h : handed.Perm (List.range c.queryNum))
    (hrows : ∀ p, rows p = Rows.of handed executor outcome p) :
    ∃ msg, resultMsg F w (Rows.merged c.queryNum outcome) = .ok msg ∧
      report F w rows sid = .ok { msg with
        recallAtK := msg.recallAtK
          + ((c.numServers - 1 : ℕ) * (w.recallRun executor outcome).zeroQueries.card : ℕ) / K * 100
            / c.queryNum } := by
  set r := w.recallRun executor outcome with hr
  obtain ⟨merged, hmerged, hcluster⟩ := r.clusterRecall_eq (F := F)
  -- the recall and the report of each server
  have hrow : ∀ p qid, (if r.executor qid = p then r.answer qid
      else List.replicate r.K 0).length = r.K := by
    intro p qid
    split_ifs
    · exact r.answer_length qid
    · exact List.length_replicate
  obtain ⟨recallAtK, hrecall⟩ : ∃ recallAtK : Fin c.numServers → F, ∀ p,
      computeRecall c.queryNum K w.gt (r.res p) = .ok (recallAtK p) :=
    ⟨_, fun p => r.computeRecall_eq (F := F) (hrow p)⟩
  have hmsg : ∀ p, resultMsg F w (rows p) = .ok
      { recallAtK := recallAtK p
        queryCount := (Rows.of handed executor outcome p).runQueryNum
        meanHops := getMeanStats F (Rows.of handed executor outcome p).stats c.queryNum (·.nHops)
        meanCmps := getMeanStats F (Rows.of handed executor outcome p).stats c.queryNum (·.nCmps)
        meanCmpsLocal :=
          getMeanStats F (Rows.of handed executor outcome p).stats c.queryNum (·.nCmpsLocal)
        meanCmpsRemote :=
          getMeanStats F (Rows.of handed executor outcome p).stats c.queryNum
            (·.nCmpsRemote) } := by
    intro p
    have hres : computeRecall c.queryNum K w.gt (rows p).res = .ok (recallAtK p) := by
      rw [hrows, Rows.of_done h]
      exact hrecall p
    rw [resultMsg, hres, hrows]
    rfl
  -- the recalls of all servers
  have hsum : ∑ p, recallAtK p
      = merged + ((c.numServers - 1 : ℕ) * r.zeroQueries.card : ℕ) / K * 100 / c.queryNum := by
    have hall : r.clusterRecall F = .ok ((List.finRange c.numServers).map recallAtK).sum := by
      rw [RecallRun.clusterRecall]
      exact congrArg (· >>= fun recalls : List F => Except.ok recalls.sum)
        (RecallRun.mapM_eq_ok hrecall _)
    rw [Fin.sum_univ_def]
    exact Except.ok.inj (hall.symm.trans hcluster)
  have hsingle : computeRecall c.queryNum K w.gt (Rows.merged c.queryNum outcome).res
      = .ok merged := hmerged
  refine ⟨_, by rw [resultMsg, hsingle]; rfl, ?_⟩
  rw [report, hmsg, RecallRun.mapM_eq_ok hmsg]
  show Except.ok _ = _
  rw [foldl_add_resultMsg, Except.ok.injEq, ResultMsg.mk.injEq]
  have hfirst : ∀ {M : Type} [AddCommMonoid M] (g : Fin c.numServers → M),
      g sid + ((List.finRange c.numServers).tail.map g).sum = ∑ p, g p := fun g => by
    rw [← List.sum_cons, ← List.map_cons, ← finRange_eq_cons hsid, Fin.sum_univ_def]
  simp only [List.map_map, Function.comp_def]
  exact ⟨(hfirst _).trans hsum, (hfirst _).trans (sum_runQueryNum h),
    (hfirst _).trans (sum_getMeanStats F h _ rfl), (hfirst _).trans (sum_getMeanStats F h _ rfl),
    (hfirst _).trans (sum_getMeanStats F h _ rfl), (hfirst _).trans (sum_getMeanStats F h _ rfl)⟩

variable {searches : Searches c K} {m : Test searches} {n : ℕ}

/-- No state is stuck but where a search does not return, or before the end. -/
lemma TestRun.exists_step_or_finished (h : TestRun searches n m)
    (hfilled : Filled m executor outcome) :
    (∃ m', TestStep searches m m') ∨
      (∃ t qid, (m.state.engines t).point = .search qid ∧
        ∀ x o, ¬ searches.Returns t qid (m.scratch t) QueryStats.zero x o) ∨ Finished m.state := by
  have hinv := h.run.reachable.inv
  rcases hinv.exists_step_or_finished with ⟨s, hstep⟩ | hdone
  · cases hstep with
    | proxy t p hstep => exact Or.inl ⟨_, .proxy t p s hstep⟩
    | engine t hstep =>
        by_cases hpt : ∀ qid, (m.state.engines t).point ≠ .search qid
        · exact Or.inl ⟨_, .engine t s hpt hstep⟩
        · obtain ⟨qid, hpt⟩ := not_forall_not.mp hpt
          by_cases hret : ∃ x o, searches.Returns t qid (m.scratch t) QueryStats.zero x o
          · obtain ⟨x, o, hret⟩ := hret
            rw [← hfilled.zero_stats hinv.conserved hpt] at hret
            exact Or.inl ⟨_, .search t qid x o s hpt hstep hret⟩
          · exact Or.inr (Or.inl ⟨t, qid, hpt, fun x o hx => hret ⟨x, o, hx⟩⟩)
  · exact Or.inr (Or.inr hdone)

/-- When every search returns, every run of the scheduling is one of the test. -/
lemma exists_testRun (hret : ∀ t qid x stats, ∃ x' o, searches.Returns t qid x stats x' o)
    (scratch : c.Thread → searches.Scratch) {s : State c} (h : Run c n s) :
    ∃ m, TestRun searches n m ∧ m.state = s := by
  induction h with
  | init => exact ⟨_, .init scratch, rfl⟩
  | @step n s s' _ hs ih =>
      obtain ⟨m, hm, rfl⟩ := ih
      cases hs with
      | proxy t p hstep => exact ⟨_, hm.step (.proxy t p s' hstep), rfl⟩
      | engine t hstep =>
          by_cases hpt : ∀ qid, (m.state.engines t).point ≠ .search qid
          · exact ⟨_, hm.step (.engine t s' hpt hstep), rfl⟩
          · obtain ⟨qid, hpt⟩ := not_forall_not.mp hpt
            obtain ⟨x, o, hx⟩ := hret t qid (m.scratch t)
              ((m.rows t.1).stats.getD qid QueryStats.zero)
            exact ⟨_, hm.step (.search t qid x o s' hpt hstep hx), rfl⟩

/-- **What the test reports.** In every interleaving the test makes at most `maxSteps` steps, and it
goes on until the work is done, unless a search does not return. Then every query was answered by
one search, and the report is that of a single server with all answers, but for the recall, which
counts a row of zeros for every server but one. -/
theorem report_eq (w : Workload c K) (h : TestRun searches n m) (t : c.Thread)
    {sid : Fin c.numServers} (hsid : sid.val = 0) :
    n ≤ c.maxSteps ∧ ((∃ m', TestStep searches m m') ∨
      (∃ t qid, (m.state.engines t).point = .search qid ∧
        ∀ x o, ¬ searches.Returns t qid (m.scratch t) QueryStats.zero x o) ∨
      ∃ (executor : ℕ → Fin c.numServers) (outcome : ℕ → Outcome K),
        (∀ qid < c.queryNum, ∃ t x x', t.1 = executor qid ∧
          searches.Returns t qid x QueryStats.zero x' (outcome qid)) ∧
        ∃ msg, resultMsg F w (Rows.merged c.queryNum outcome) = .ok msg ∧
          report F w m.rows sid = .ok { msg with
            recallAtK := msg.recallAtK
              + ((c.numServers - 1 : ℕ) * (w.recallRun executor outcome).zeroQueries.card : ℕ) / K
                * 100 / c.queryNum }) := by
  obtain ⟨executor, outcome, hfilled⟩ :=
    h.exists_filled ⟨List.replicate K 0, QueryStats.zero, List.length_replicate⟩ sid
  refine ⟨(Nat.le_add_right n _).trans h.run.add_stepsLeft_le, ?_⟩
  rcases h.exists_step_or_finished hfilled with hstep | hstuck | hdone
  · exact Or.inl hstep
  · exact Or.inr (Or.inl hstuck)
  · have hperm := hdone.perm_handed h.run.reachable.inv.conserved t
    refine Or.inr (Or.inr ⟨executor, outcome, fun qid hqid => ?_, ?_⟩)
    · exact hfilled.returned qid (hperm.mem_iff.mpr (List.mem_range.mpr hqid))
    · exact report_of_done F w hsid hperm hfilled.rows

/-- Searches that find vertex 7 after three hops and five comparisons, for examples. -/
def findsSeven (c : Cluster) : Searches c 1 where
  Scratch := Unit
  Returns _ _ _ _ _ o := o.indices = [7] ∧ o.stats = ⟨3, 5, 4, 1⟩

lemma findsSeven_returns (t : c.Thread) (qid : ℕ) (x : (findsSeven c).Scratch)
    (stats : QueryStats) :
    ∃ x' o, (findsSeven c).Returns t qid x stats x' o :=
  ⟨(), ⟨[7], ⟨3, 5, 4, 1⟩, rfl⟩, rfl, rfl⟩

/-- One query on a server of one engine, with vertex 7 as its ground truth. -/
theorem report_eq_oneEngine : ∃ m, TestRun (findsSeven oneEngine) 12 m ∧
    ∃ (w : Workload oneEngine 1) (sid : Fin oneEngine.numServers) (msg : ResultMsg ℚ),
      report ℚ w m.rows sid = .ok msg ∧ msg.queryCount = 1 := by
  let t : oneEngine.Thread := ⟨(0 : Fin 1), (0 : Fin 1)⟩
  let w : Workload oneEngine 1 :=
    ⟨[[7]], Nat.one_pos, Nat.one_pos, le_rfl, fun qid hqid => by
      rw [Nat.lt_one_iff.mp hqid]
      rfl⟩
  obtain ⟨s, hrun, hstuck⟩ := run_oneEngine
  obtain ⟨m, hm, rfl⟩ : ∃ m, TestRun (findsSeven oneEngine) 12 m ∧ m.state = s :=
    exists_testRun findsSeven_returns (fun _ => ()) hrun
  have hsid : t.1.val = 0 := rfl
  obtain ⟨-, hend⟩ := report_eq ℚ w hm t hsid
  rcases hend with ⟨m', hs⟩ | ⟨t, qid, -, hnone⟩ | ⟨executor, outcome, -, msg, hmsg, hreport⟩
  · exact absurd ⟨_, hs.step⟩ hstuck
  · obtain ⟨x, o, hx⟩ := findsSeven_returns t qid (m.scratch t) QueryStats.zero
    exact absurd hx (hnone x o)
  · refine ⟨m, hm, w, _, _, hreport, ?_⟩
    rw [resultMsg] at hmsg
    cases hrecall : computeRecall (F := ℚ) oneEngine.queryNum 1 w.gt
        (Rows.merged oneEngine.queryNum outcome).res with
    | error e =>
        rw [hrecall] at hmsg
        cases hmsg
    | ok recallAtK =>
        rw [hrecall] at hmsg
        obtain rfl := Except.ok.inj hmsg
        rfl

end Report

end Schedule

end RedAnns
