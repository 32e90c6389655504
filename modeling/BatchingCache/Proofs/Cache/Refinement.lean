import BatchingCache.Proofs.Cache.Writes
import BatchingCache.Proofs.Pipeline.Backlog
import BatchingCache.Proofs.Store.Observed
/-!
# Queued and direct writes

One caller queues requests and flushes now and then.  Once all that was queued has been executed,
the store is as if the requests had been carried out directly, and every mutation has come to what
its own call would have told, as long as the clock does not end before a string is to expire.
-/

namespace BatchingCache

/-! ## Direct runs -/

def Write.storeAfter (c : Cache) (ws : List Write) (s : Memory) : Memory :=
  ws.foldl (fun s w => (w.direct c s).store) s

def Write.pendingFrom (ns : Namespace) : Nat → List Write → List PendingOp
  | _, [] => []
  | first, w :: ws =>
    ((w.mutation ns).toOption.map fun m => ⟨m, w.mutationId, first⟩).toList ++
      pendingFrom ns (first + 1) ws

/-- Whether the call of a request would be abandoned.  A request that is refused makes none. -/
def Write.isOverdue (ns : Namespace) (now : Nat) (w : Write) : Bool :=
  (w.mutation ns).toOption.any (Mutation.isOverdue now)

namespace Write

variable {ns : Namespace} {first i : Nat} {ws : List Write} {w : Write}

theorem pendingFrom_append (ws ws' : List Write) :
    pendingFrom ns first (ws ++ ws') =
      pendingFrom ns first ws ++ pendingFrom ns (first + ws.length) ws' := by
  induction ws generalizing first with
  | nil => rfl
  | cons w ws ih =>
    have hfirst : first + 1 + ws.length = first + (ws.length + 1) := by omega
    rw [List.cons_append, pendingFrom, ih, pendingFrom, List.append_assoc, List.length_cons, hfirst]

theorem pendingFrom_of_refused {e : CacheError} (h : w.mutation ns = .error e) :
    pendingFrom ns first [w] = [] := by
  rw [pendingFrom, h]
  rfl

theorem pendingFrom_of_mutation {m : Mutation} (h : w.mutation ns = .ok m) :
    pendingFrom ns first [w] = [⟨m, w.mutationId, first⟩] := by
  rw [pendingFrom, h]
  rfl

theorem token_of_mem_pendingFrom {op : PendingOp} (h : op ∈ pendingFrom ns first ws) :
    ∃ i < ws.length, first + i = op.token := by
  induction ws generalizing first with
  | nil => cases h
  | cons w ws ih =>
    rcases List.mem_append.1 h with h | h
    · rw [Option.mem_toList, Option.map_eq_some_iff] at h
      obtain ⟨m, -, rfl⟩ := h
      exact ⟨0, Nat.succ_pos _, rfl⟩
    · obtain ⟨i, hi, htoken⟩ := ih h
      refine ⟨i + 1, Nat.succ_lt_succ hi, ?_⟩
      rw [← htoken]
      omega

theorem overdue_pendingFrom (now first : Nat) (ws : List Write) :
    Batch.overdue now (pendingFrom ns first ws) = ws.any fun w => w.isOverdue ns now := by
  induction ws generalizing first with
  | nil => rfl
  | cons w ws ih =>
    have hhead : Batch.overdue now (pendingFrom ns first [w]) = w.isOverdue ns now := by
      rw [isOverdue]
      cases hm : w.mutation ns with
      | error e => rw [pendingFrom_of_refused hm]; rfl
      | ok m => rw [pendingFrom_of_mutation hm]; exact Bool.or_false _
    have hsplit : pendingFrom ns first (w :: ws) =
        pendingFrom ns first [w] ++ pendingFrom ns (first + 1) ws := pendingFrom_append [w] ws
    rw [hsplit, Batch.overdue_append, hhead, ih, List.any_cons]

theorem direct_run {c : Cache} {s : Memory} (hs : s.failing = false) (first : Nat)
    (ws : List Write) :
    (storeAfter c ws s).failing = false ∧ (storeAfter c ws s).now = s.now ∧
      (storeAfter c ws s).content =
        Batch.contentAfter s.now (pendingFrom c.tenant first ws) s.content ∧
      (storeAfter c ws s).abandoned =
        ((ws.any fun w => w.isOverdue c.tenant s.now) || s.abandoned) := by
  induction ws generalizing first s with
  | nil => exact ⟨hs, rfl, rfl, rfl⟩
  | cons w ws ih =>
    have hstep : (w.direct c s).store.failing = false ∧ (w.direct c s).store.now = s.now ∧
        (w.direct c s).store.content =
          Batch.contentAfter s.now (pendingFrom c.tenant first [w]) s.content ∧
        (w.direct c s).store.abandoned = (w.isOverdue c.tenant s.now || s.abandoned) := by
      rw [isOverdue]
      cases hm : w.mutation c.tenant with
      | error e =>
        rw [(direct_of_refused hm s).2, pendingFrom_of_refused hm]
        exact ⟨hs, rfl, rfl, rfl⟩
      | ok m =>
        rw [(direct_of_mutation hm s).1, pendingFrom_of_mutation hm]
        refine ⟨?_, Memory.now_call m.call, Memory.content_call_mutation hs m,
          Memory.abandoned_call_mutation hs m⟩
        rw [← hs]
        exact Memory.failing_call m.call
    obtain ⟨hfailing, hnow, hcontent, habandoned⟩ := hstep
    obtain ⟨hfailing', hnow', hcontent', habandoned'⟩ := ih hfailing (first + 1)
    refine ⟨hfailing', hnow'.trans hnow, ?_, ?_⟩
    · have hsplit : pendingFrom c.tenant first (w :: ws) =
          pendingFrom c.tenant first [w] ++ pendingFrom c.tenant (first + 1) ws :=
        pendingFrom_append [w] ws
      rw [hsplit, Batch.contentAfter_append, ← hcontent, ← hnow]
      exact hcontent'
    · rw [List.any_cons, Bool.or_assoc, Bool.or_left_comm, ← habandoned, ← hnow]
      exact habandoned'

/-- What comes of the mutation of one request depends on those before it alone. -/
theorem filter_settled {now : Nat} {d : Content} (hw : ws[i]? = some w) :
    (Batch.settleInOrder now (pendingFrom ns 0 ws) d).filter (fun x => x.token = i) =
      Batch.settleInOrder now (pendingFrom ns i [w])
        (Batch.contentAfter now (pendingFrom ns 0 (ws.take i)) d) := by
  have hi : i < ws.length := (List.getElem?_eq_some_iff.1 hw).1
  have hsplit : ws = ws.take i ++ ([w] ++ ws.drop (i + 1)) := by
    have hdrop := List.drop_eq_getElem_cons hi
    rw [(List.getElem?_eq_some_iff.1 hw).2] at hdrop
    rw [List.singleton_append, ← hdrop, List.take_append_drop]
  have hlength : (ws.take i).length = i := List.length_take_of_le (by omega)
  have hpending : pendingFrom ns 0 ws = pendingFrom ns 0 (ws.take i) ++
      (pendingFrom ns i [w] ++ pendingFrom ns (i + 1) (ws.drop (i + 1))) := by
    calc pendingFrom ns 0 ws
      _ = pendingFrom ns 0 (ws.take i ++ ([w] ++ ws.drop (i + 1))) := by rw [← hsplit]
      _ = _ := by
        rw [pendingFrom_append, pendingFrom_append, hlength, Nat.zero_add, List.length_singleton]
  have hbefore : ∀ op ∈ pendingFrom ns 0 (ws.take i), op.token ≠ i := by
    intro op hop heq
    obtain ⟨j, hj, htoken⟩ := token_of_mem_pendingFrom hop
    have hij : 0 + j = i := htoken.trans heq
    omega
  have hafter : ∀ op ∈ pendingFrom ns (i + 1) (ws.drop (i + 1)), op.token ≠ i := by
    intro op hop heq
    obtain ⟨j, -, htoken⟩ := token_of_mem_pendingFrom hop
    have hij : i + 1 + j = i := htoken.trans heq
    omega
  rw [hpending, Batch.settleInOrder_append, Batch.settleInOrder_append, List.filter_append,
    List.filter_append, Batch.filter_settleInOrder_eq_nil hbefore,
    Batch.filter_settleInOrder_eq_nil hafter, List.nil_append, List.append_nil, List.filter_eq_self]
  intro x hx
  cases hm : w.mutation ns with
  | error e =>
    rw [pendingFrom_of_refused hm] at hx
    cases hx
  | ok m =>
    rw [pendingFrom_of_mutation hm] at hx
    rw [List.mem_singleton.1 hx]
    exact decide_eq_true rfl

end Write

/-! ## Queued runs -/

inductive Act : Type 1 where
  | submit (w : Write)
  | background
  | flush

def Act.write? : Act → Option Write
  | submit w => some w
  | _ => none

/-- What a run has come to.  A request has the number of requests before it as its token. -/
structure Queued where
  cache : Cache
  store : Memory
  /-- What the caller was told about each request that it queued. -/
  answers : List (Except CacheError Unit) := []
  settled : List Settlement := []

namespace Queued

def step (q : Queued) : Act → Queued
  | .submit w =>
    { q with
      cache := (w.queue q.cache q.answers.length).cache
      answers := q.answers ++ [(w.queue q.cache q.answers.length).result] }
  | .background =>
    let (pipeline, e) := q.cache.pipeline.runOldest q.store
    { q with cache := { q.cache with pipeline }, store := e.store, settled := q.settled ++ e.settled }
  | .flush =>
    let (cache, e) := q.cache.flush q.store
    { q with cache, store := e.store, settled := q.settled ++ e.settled }

def run (q : Queued) (acts : List Act) : Queued := acts.foldl step q

/-! ## The simulation -/

variable {c : Cache} {s : Memory} {size : Nat} {ws : List Write} {q : Queued} {full : List Batch}
  {current : Batch}

/-- Once what still waits is executed, the store is as after a direct run of the requests, and their
mutations have come to the same. -/
structure Simulates (c : Cache) (s : Memory) (size : Nat) (ws : List Write) (q : Queued)
    (full : List Batch) (current : Batch) : Prop where
  backlog : q.cache.pipeline.Backlog size full current
  tenant : q.cache.tenant = c.tenant
  answers : q.answers = ws.map fun w => (w.mutation c.tenant).map fun _ => ()
  now : q.store.now = s.now
  failing : q.store.failing = false
  content :
    Batch.contentAfter s.now ((full ++ [current]).flatMap Batch.pending) q.store.content =
      Batch.contentAfter s.now (Write.pendingFrom c.tenant 0 ws) s.content
  settled :
    q.settled ++
        Batch.settleInOrder s.now ((full ++ [current]).flatMap Batch.pending) q.store.content =
      Batch.settleInOrder s.now (Write.pendingFrom c.tenant 0 ws) s.content
  abandoned :
    (Batch.overdue s.now ((full ++ [current]).flatMap Batch.pending) || q.store.abandoned) =
      (Batch.overdue s.now (Write.pendingFrom c.tenant 0 ws) || s.abandoned)

theorem Simulates.submit (h : Simulates c s size ws q full current) (w : Write) :
    ∃ full' current', Simulates c s size (ws ++ [w]) (q.step (.submit w)) full' current' := by
  have hqueue := w.queue_eq q.cache q.answers.length
  have htoken : q.answers.length = ws.length := by rw [h.answers, List.length_map]
  have hpending : Write.pendingFrom c.tenant 0 (ws ++ [w]) =
      Write.pendingFrom c.tenant 0 ws ++ Write.pendingFrom c.tenant ws.length [w] := by
    rw [Write.pendingFrom_append, Nat.zero_add]
  have hanswers : ∀ r, r = (w.mutation c.tenant).map (fun _ => ()) →
      q.answers ++ [r] = (ws ++ [w]).map fun w => (w.mutation c.tenant).map fun _ => () := by
    intro r hr
    rw [hr, h.answers, List.map_append, List.map_singleton]
  rw [htoken, h.tenant] at hqueue
  rw [step, htoken, hqueue]
  cases hm : w.mutation c.tenant with
  | error e =>
    rw [hm] at hanswers
    rw [Write.pendingFrom_of_refused hm, List.append_nil] at hpending
    refine ⟨full, current, h.backlog, h.tenant, hanswers _ rfl, h.now, h.failing, ?_, ?_, ?_⟩
    · rw [hpending]
      exact h.content
    · rw [hpending]
      exact h.settled
    · rw [hpending]
      exact h.abandoned
  | ok m =>
    rw [hm] at hanswers
    rw [Write.pendingFrom_of_mutation hm] at hpending
    obtain ⟨haccepted, hqueued⟩ := h.backlog.enqueue ⟨m, w.mutationId, ws.length⟩
    -- The batch that took the mutation is the last one, in the slot or on top of the background.
    have hlast : ∀ full' current',
        (q.cache.pipeline.enqueue ⟨m, w.mutationId, ws.length⟩).2.1.Backlog size full' current' →
        (full' ++ [current']).flatMap Batch.pending =
          (full ++ [current]).flatMap Batch.pending ++ [⟨m, w.mutationId, ws.length⟩] →
        Simulates c s size (ws ++ [w])
          { q with
            cache := (q.cache.queue w.queueName (.ok m) w.mutationId ws.length).cache
            answers :=
              q.answers ++ [(q.cache.queue w.queueName (.ok m) w.mutationId ws.length).result] }
          full' current' := by
      intro full' current' hbacklog hwaiting
      refine ⟨hbacklog, h.tenant, hanswers _ haccepted, h.now, h.failing, ?_, ?_, ?_⟩
      · rw [hpending, hwaiting, Batch.contentAfter_append, h.content, Batch.contentAfter_append]
      · rw [hpending, hwaiting, Batch.settleInOrder_append, ← List.append_assoc, h.settled,
          h.content, Batch.settleInOrder_append]
      · rw [hpending, hwaiting, Batch.overdue_append, Bool.or_right_comm, h.abandoned,
          Batch.overdue_append, Bool.or_right_comm]
    split at hqueued
    · refine ⟨_, _, hlast _ _ hqueued ?_⟩
      simp
    · refine ⟨_, _, hlast _ _ hqueued ?_⟩
      simp

theorem Simulates.background (h : Simulates c s size ws q full current) :
    ∃ full' current', Simulates c s size ws (q.step .background) full' current' := by
  cases full with
  | nil =>
    have hidle : q.step .background = q := by
      rw [step, h.backlog.runOldest_nil]
      simp
    rw [hidle]
    exact ⟨[], current, h⟩
  | cons b full =>
    obtain ⟨hbacklog, hrun⟩ := h.backlog.runOldest_cons (s := q.store)
    have hcontent := h.content
    have hsettled := h.settled
    have habandoned := h.abandoned
    rw [List.cons_append, List.flatMap_cons] at hcontent hsettled habandoned
    refine ⟨full, current, hbacklog, h.tenant, h.answers, ?_, ?_, ?_, ?_, ?_⟩
    · show (q.cache.pipeline.runOldest q.store).2.store.now = s.now
      rw [hrun, Batch.now_run, h.now]
    · show (q.cache.pipeline.runOldest q.store).2.store.failing = false
      rw [hrun, Batch.failing_run, h.failing]
    · show Batch.contentAfter s.now _ (q.cache.pipeline.runOldest q.store).2.store.content = _
      rw [hrun, Batch.content_run h.failing, h.now, ← Batch.contentAfter_append, hcontent]
    · show (q.settled ++ (q.cache.pipeline.runOldest q.store).2.settled) ++
        Batch.settleInOrder s.now _ (q.cache.pipeline.runOldest q.store).2.store.content = _
      rw [hrun, Batch.content_run h.failing, Batch.settled_run h.failing, h.now,
        List.append_assoc, ← Batch.settleInOrder_append, hsettled]
    · show (_ || (q.cache.pipeline.runOldest q.store).2.store.abandoned) = _
      rw [hrun, Batch.abandoned_run h.failing, h.now, Bool.or_left_comm, ← Bool.or_assoc,
        ← Batch.overdue_append, habandoned]

/-- After a flush nothing waits. -/
theorem Simulates.flush (h : Simulates c s size ws q full current) :
    Simulates c s size ws (q.step .flush) [] { id := q.cache.pipeline.nextId } := by
  obtain ⟨hbacklog, hstore, hsettled, -⟩ := h.backlog.flush (s := q.store)
  refine ⟨hbacklog, h.tenant, h.answers, ?_, ?_, ?_, ?_, ?_⟩
  · show (q.cache.pipeline.flush q.store).2.store.now = s.now
    rw [hstore, Batch.now_storeAfter, h.now]
  · show (q.cache.pipeline.flush q.store).2.store.failing = false
    rw [hstore, Batch.failing_storeAfter, h.failing]
  · show (q.cache.pipeline.flush q.store).2.store.content = _
    rw [hstore, Batch.content_storeAfter h.failing, h.now, h.content]
  · show (q.settled ++ (q.cache.pipeline.flush q.store).2.settled) ++ [] = _
    rw [hsettled, Batch.settledBy_eq h.failing, h.now, List.append_nil, h.settled]
  · show (q.cache.pipeline.flush q.store).2.store.abandoned = _
    rw [hstore, Batch.abandoned_storeAfter h.failing, h.now, h.abandoned]

theorem Simulates.run (h : Simulates c s size ws q full current) (acts : List Act) :
    ∃ full' current',
      Simulates c s size (ws ++ acts.filterMap Act.write?) (q.run acts) full' current' := by
  induction acts generalizing ws q full current with
  | nil => exact ⟨full, current, by rw [List.filterMap_nil, List.append_nil]; exact h⟩
  | cons a acts ih =>
    cases a with
    | submit w =>
      obtain ⟨full', current', hstep⟩ := h.submit w
      have hws : ws ++ (Act.submit w :: acts).filterMap Act.write? =
          (ws ++ [w]) ++ acts.filterMap Act.write? := by
        rw [List.append_assoc]
        rfl
      rw [hws]
      exact ih hstep
    | background =>
      obtain ⟨full', current', hstep⟩ := h.background
      exact ih hstep
    | flush => exact ih h.flush

theorem simulates_build {config : Config} (hsize : 1 ≤ config.pipelineSize)
    (hs : s.failing = false) :
    ∃ c, Cache.build true config = .ok c ∧
      Simulates c s config.pipelineSize [] { cache := c, store := s } [] { id := 1 } := by
  obtain ⟨p, hstart, hbacklog⟩ := Pipeline.backlog_start hsize config.batchRetries
  have hbuild : Cache.build true config = .ok
      { tenant := Namespace.ofName config.namespaceName
        scanLimit := UInt64.ofNat config.effectiveScanLimit
        healthMonitorEnabled := config.healthMonitorEnabled
        needsRestartOnFailure := config.needsRestartOnFailure
        pipeline := p } := by
    rw [Cache.build, hstart]
    rfl
  exact ⟨_, hbuild, hbacklog, rfl, rfl, rfl, hs, rfl, rfl, rfl⟩

/-! ## What comes of one request -/

section Request

variable {i : Nat} {w : Write}

theorem Simulates.answer (h : Simulates c s size ws q full current) (hw : ws[i]? = some w) :
    q.answers[i]? = some ((w.mutation c.tenant).map fun _ => ()) := by
  rw [h.answers, List.getElem?_map]
  exact congrArg _ hw

/-- Once nothing waits, a mutation has come to what it comes to after the requests before it. -/
theorem Simulates.told {id : Nat} (h : Simulates c s size ws q [] { id }) (hs : s.failing = false)
    (hw : ws[i]? = some w) :
    q.settled.filter (fun x => x.token = i) =
      Batch.settleInOrder s.now (Write.pendingFrom c.tenant i [w])
        (Write.storeAfter c (ws.take i) s).content := by
  have hsettled : q.settled =
      Batch.settleInOrder s.now (Write.pendingFrom c.tenant 0 ws) s.content :=
    (List.append_nil _).symm.trans h.settled
  obtain ⟨-, -, hbefore, -⟩ := Write.direct_run (c := c) hs 0 (ws.take i)
  rw [hsettled, hbefore, Write.filter_settled hw]

end Request

/-- If a request would have a string expire after the end of the clock, a call is abandoned, whether the
requests are queued or carried out directly.  If none would, no call is abandoned, and the store ends up
the same.  Then a request that is refused when carried out directly is refused when queued, and nothing
comes of it.  Every other one is queued, and comes to its mark unless the one call that it makes when
carried out directly is a conditional one and is not answered with `true`. -/
theorem queued_refines_direct {config : Config} (hsize : 1 ≤ config.pipelineSize)
    (hs : s.failing = false) (hgoing : s.abandoned = false) (acts : List Act) :
    ∃ c, Cache.build true config = .ok c ∧
      let ws := acts.filterMap Act.write?
      let q := ((⟨c, s, [], []⟩ : Queued).run acts).step .flush
      let d := Write.storeAfter c ws s
      ((∃ w ∈ ws, w.isOverdue c.tenant s.now) → q.store.abandoned ∧ d.abandoned) ∧
      ((∀ w ∈ ws, ¬ w.isOverdue c.tenant s.now) →
        ¬ q.store.abandoned ∧ ¬ d.abandoned ∧ q.store.content = d.content ∧
        ∀ i w, ws[i]? = some w →
          let before := Write.storeAfter c (ws.take i) s
          let direct := w.direct c (⟨before, []⟩ : Observed Memory)
          let told := q.settled.filter fun x => x.token = i
          (∀ e, e.IsRefusal → direct.result = .error e →
            direct.store.calls = [] ∧ q.answers[i]? = some (.error e) ∧ told = []) ∧
          ((∀ e, direct.result = .error e → ¬ e.IsRefusal) →
            ∃ m completion, direct.store.calls = [Mutation.call m] ∧
              q.answers[i]? = some (.ok ()) ∧ told = [⟨i, completion⟩] ∧
              (m.Acknowledged before → completion = .ok w.mutationId) ∧
              (¬ m.Acknowledged before → completion = .error (.batchProcessing .notApplied)))) := by
  obtain ⟨c, hbuild, hstart⟩ := simulates_build hsize hs
  refine ⟨c, hbuild, ?_⟩
  intro ws q d
  obtain ⟨full, current, hrun⟩ := hstart.run acts
  have hend := hrun.flush
  obtain ⟨-, -, hcontent, hdirect⟩ := Write.direct_run (c := c) hs 0 ws
  have hqueued : q.store.abandoned =
      ((ws.any fun w => w.isOverdue c.tenant s.now) || s.abandoned) := by
    rw [← Write.overdue_pendingFrom]
    exact hend.abandoned
  rw [hgoing, Bool.or_false] at hdirect hqueued
  rw [hqueued, show d.abandoned = _ from hdirect, List.any_eq_true]
  refine ⟨fun hoverdue => ⟨hoverdue, hoverdue⟩, fun htimely => ?_⟩
  have hnone : ¬ ∃ w ∈ ws, w.isOverdue c.tenant s.now := by
    rintro ⟨w, hw, hoverdue⟩
    exact htimely w hw hoverdue
  refine ⟨hnone, hnone, hend.content.trans hcontent.symm, ?_⟩
  intro i w hw before direct told
  have hanswer := hend.answer hw
  have htold := hend.told hs hw
  cases hm : w.mutation c.tenant with
  | error e =>
    obtain ⟨hresult, hstore⟩ := Write.direct_of_refused hm (⟨before, []⟩ : Observed Memory)
    rw [hm] at hanswer
    rw [Write.pendingFrom_of_refused hm] at htold
    constructor
    · intro e' _ hresult'
      have heq : e = e' := Except.error.inj (hresult.symm.trans hresult')
      exact ⟨congrArg Observed.calls hstore, heq ▸ hanswer, htold⟩
    · intro haccepted
      exact absurd (Write.isRefusal_of_mutation hm) (haccepted e hresult)
  | ok m =>
    obtain ⟨hstore, hfails⟩ := Write.direct_of_mutation hm (⟨before, []⟩ : Observed Memory)
    obtain ⟨hfailing, hnow, -⟩ := Write.direct_run (c := c) hs 0 (ws.take i)
    have hcomplete := Batch.complete_mutate hfailing ⟨m, w.mutationId, i⟩
    rw [hnow] at hcomplete
    rw [hm] at hanswer
    rw [Write.pendingFrom_of_mutation hm] at htold
    constructor
    · intro e hrefusal hresult
      obtain ⟨failure, rfl⟩ := hfails e hresult
      exact absurd hrefusal (not_isRefusal_store failure)
    · intro _
      exact ⟨m, _, congrArg Observed.calls hstore, hanswer, htold, hcomplete.1, hcomplete.2⟩

example : (Write.putString
    { key := some "k", value := some "a", ttl := some ⟨clockEnd, by decide⟩ }).isOverdue ⟨""⟩ 0 := by
  decide

/-- A put that expires and one that replaces its value fill a batch, which is executed in the background;
then a score is given to a member that is there, a put has no key, and a key is deleted. -/
theorem requests_of_all_kinds_settled :
    let config : Config := { pipelineSize := 2, keyNamespace := some "t" }
    let board := ScoredSet.insert ⟨.zero, [109]⟩ ∅
    let s : Memory :=
      { content := KeyMap.ofList [("t:k", .string [111] (some 9)), ("t:z", .scored board)], now := 7 }
    let acts : List Act :=
      [.submit (.putString
          { key := some "k", value := some "a", ttl := some (.ofMillis 5), mutationId := some "put" }),
        .submit (.putString
          { key := some "k", value := some "b", expected := some "a", mutationId := some "swap" }),
        .submit (.addString { key := some "z", value := some "m" }), .background,
        .submit (.putString {}), .submit (.delete { key := some "z", mutationId := some "end" })]
    let ws := acts.filterMap Act.write?
    1 ≤ config.pipelineSize ∧ s.failing = false ∧ s.abandoned = false ∧
      ∃ c, Cache.build true config = .ok c ∧ (∀ w ∈ ws, ¬ w.isOverdue c.tenant s.now) ∧
        let q := ((⟨c, s, [], []⟩ : Queued).run acts).step .flush
        let told := fun i => q.settled.filter fun x => x.token = i
        ¬ q.store.abandoned ∧ q.store.content = (Write.storeAfter c ws s).content ∧
          q.answers[3]? = some (.error (.validation .key)) ∧ told 3 = [] ∧
          told 0 = [⟨0, .ok (some "put")⟩] ∧ told 1 = [⟨1, .ok (some "swap")⟩] ∧
          told 2 = [⟨2, .error (.batchProcessing .notApplied)⟩] ∧ told 4 = [⟨4, .ok (some "end")⟩] := by
  intro config board s acts ws
  refine ⟨by decide, rfl, rfl, ?_⟩
  obtain ⟨c, hbuild, -, htimely⟩ :=
    queued_refines_direct (s := s) (by decide : 1 ≤ config.pipelineSize) rfl rfl acts
  have hnone : ∀ w ∈ ws, ¬ w.isOverdue c.tenant s.now := by
    cases hbuild
    decide
  obtain ⟨hqueued, -, hcontent, hrequests⟩ := htimely hnone
  let q := ((⟨c, s, [], []⟩ : Queued).run acts).step .flush
  -- A request whose mutation is known comes to its mark, or is not applied.
  have hmarked (i : Nat) {w : Write} (m : Mutation) (hw : ws[i]? = some w) :
      let before := Write.storeAfter c (ws.take i) s
      let direct := w.direct c (⟨before, []⟩ : Observed Memory)
      let told := q.settled.filter fun x => x.token = i
      direct.result = .ok () → direct.store.calls = [m.call] →
        (m.Acknowledged before → told = [⟨i, .ok w.mutationId⟩]) ∧
        (¬ m.Acknowledged before → told = [⟨i, .error (.batchProcessing .notApplied)⟩]) := by
    intro before direct told hdone hcalls
    obtain ⟨m', completion, hmade, -, htold, hmark, hnot⟩ :=
      (hrequests i w hw).2 fun e he => by cases hdone.symm.trans he
    have hm : m' = m := Mutation.call_injective (List.singleton_inj.1 (hmade.symm.trans hcalls))
    subst hm
    constructor
    · intro hack
      rw [← hmark hack]
      exact htold
    · intro hack
      rw [← hnot hack]
      exact htold
  have hrefused := (hrequests 3 (.putString {}) rfl).1 (.validation .key) (.inl ⟨.key, rfl⟩) rfl
  cases hbuild
  refine ⟨_, rfl, hnone, hqueued, hcontent, hrefused.2.1, hrefused.2.2, ?_, ?_, ?_, ?_⟩
  · exact (hmarked 0 (.set "t:k" [97] (some (.ofMillis 5))) rfl (by decide) (by decide)).1 (by decide)
  · exact (hmarked 1 (.compareAndSet "t:k" [97] [98]) rfl (by decide) (by decide)).1 (by decide)
  · exact (hmarked 2 (.scoredAdd "t:z" .zero [109]) rfl (by decide) (by decide)).2 (by decide)
  · exact (hmarked 4 (.delete "t:z") rfl (by decide) (by decide)).1 (by decide)

end Queued

end BatchingCache
