import BatchingCache.Proofs.Store.Observed
/-!
# The life of a batch

A batch is filled, executed once and of no use afterwards.  Whatever store it is executed on, the first
execution settles all that was queued, each mutation by the reply at its place.
-/

namespace BatchingCache

/-! ## What a mutation comes to -/

/-- What the mutation at place `i` of batch `id` comes to, by its own reply and nothing else.  There is no
reply if the store gave too few. -/
inductive PendingOp.Resolves (id i : Nat) (op : PendingOp) :
    Except StoreError (Option Reply) → Completion → Prop
  | carriedOut (reply : Reply) (h : ¬ op.mutation.requiresAck ∨ reply.isApplied) :
    op.Resolves id i (.ok (some reply)) (.ok op.mutationId)
  | notApplied (reply : Reply) (hack : op.mutation.requiresAck) (h : ¬ reply.isApplied) :
    op.Resolves id i (.ok (some reply)) (.error (.batchProcessing .notApplied))
  | noReply :
    op.Resolves id i (.ok none) (.error (.store (.unexpectedReply ("no reply for operation " ++
      Decimal.natText i ++ " of batch " ++ Decimal.natText id))))
  | callFailed (e : StoreError) :
    op.Resolves id i (.error e) (.error (.store (.backend e.message)))

namespace Batch

theorem resolves_complete (id i : Nat) (op : PendingOp) (reply : Reply) :
    op.Resolves id i (.ok (some reply)) (complete op reply) := by
  unfold complete
  cases hack : op.mutation.requiresAck with
  | false => exact .carriedOut reply (.inl (by simp [hack]))
  | true =>
    cases happlied : reply.isApplied with
    | true => exact .carriedOut reply (.inr happlied)
    | false => exact .notApplied reply hack (by simp [happlied])

theorem resolves_settle (id : Nat) {i : Nat} {ops : List PendingOp} {op : PendingOp} (h : ops[i]? = some op)
    (answer : Except StoreError (List Reply)) :
    ∃ completion, (settle id ops answer)[i]? = some ⟨op.token, completion⟩ ∧
      op.Resolves id i (answer.map fun replies => replies[i]?) completion := by
  cases answer with
  | error e =>
    refine ⟨_, ?_, .callFailed e⟩
    rw [settle, List.getElem?_map, h]
    rfl
  | ok replies =>
    refine ⟨completeAt id replies i op, ?_, ?_⟩
    · rw [settle, List.getElem?_mapIdx, h]
      rfl
    · rw [completeAt, Except.map]
      cases replies[i]? with
      | some reply => exact resolves_complete id i op reply
      | none => exact .noReply

section Runs

variable {σ : Type} [Store σ]

theorem settled_run_eq_settle (id : Nat) (ops : List PendingOp) (s : σ) :
    (run id ops s).settled =
      settle id ops (Store.call (.batch (ops.map PendingOp.mutation)) s).1 := by
  cases ops with
  | nil =>
    cases (Store.call (.batch ([].map PendingOp.mutation)) s).1 with
    | ok replies => rfl
    | error e => rfl
  | cons op ops => rfl

theorem result_run_eq_tally (id : Nat) (ops : List PendingOp) (s : σ) :
    (run id ops s).result = tally (run id ops s).settled := by
  cases ops with
  | nil => rfl
  | cons op ops => rfl

end Runs

theorem total_tally (settled : List Settlement) :
    (tally settled).total = (tally settled).succeeded + (tally settled).failed := by
  rw [tally, List.length_eq_countP_add_countP isSettledOk]
  simp only [decide_not, Bool.decide_eq_true]

end Batch

/-! ## Uses of a batch -/

inductive Use where
  | queue (op : Mutation × Option String)
  | execute

namespace Use

def isQueue : Use → Bool
  | queue _ => true
  | execute => false

def isExecute : Use → Bool
  | queue _ => false
  | execute => true

def queuedFirst : List Use → List (Mutation × Option String)
  | queue op :: uses => op :: queuedFirst uses
  | _ => []

def afterExecution : List Use → Option (List Use)
  | [] => none
  | queue _ :: uses => afterExecution uses
  | execute :: uses => some uses

theorem eq_append_afterExecution (uses : List Use) :
    uses = (queuedFirst uses).map queue ++
      match afterExecution uses with
      | none => []
      | some later => execute :: later := by
  induction uses with
  | nil => rfl
  | cons use uses ih =>
    cases use with
    | queue op => exact congrArg (queue op :: ·) ih
    | execute => rfl

end Use

structure Usage (σ : Type) where
  batch : Batch
  store : σ
  nextToken : Token := 0
  /-- What each attempt to queue was told: a token and the number of mutations, or a refusal. -/
  answers : List (Except Unavailable (Token × Nat)) := []
  results : List BatchResult := []
  settled : List Settlement := []

namespace Usage

variable {σ : Type}

section Steps

variable [Store σ]

def after (u : Usage σ) : Use → Usage σ
  | .queue op =>
    match u.batch.push ⟨op.1, op.2, u.nextToken⟩ with
    | .ok (length, batch) =>
      { u with
        batch
        nextToken := u.nextToken + 1
        answers := u.answers ++ [.ok (u.nextToken, length)] }
    | .error reason => { u with answers := u.answers ++ [.error reason] }
  | .execute =>
    let (batch, e) := u.batch.execute u.store
    { u with
      batch
      store := e.store
      results := u.results ++ [e.result]
      settled := u.settled ++ e.settled }

def afterAll (u : Usage σ) (uses : List Use) : Usage σ := uses.foldl after u

end Steps

def numbered (asked : List (Mutation × Option String)) : List PendingOp :=
  asked.mapIdx fun token op => ⟨op.1, op.2, token⟩

def granted (n : Nat) : List (Except Unavailable (Token × Nat)) :=
  (List.range n).map fun token => .ok (token, token + 1)

def filled (id : Nat) (s : σ) (asked : List (Mutation × Option String)) : Usage σ where
  batch := { id, state := .accumulating (numbered asked) }
  store := s
  nextToken := asked.length
  answers := granted asked.length

theorem length_numbered (asked : List (Mutation × Option String)) :
    (numbered asked).length = asked.length :=
  List.length_mapIdx

theorem getElem_numbered {asked : List (Mutation × Option String)} {i : Nat}
    (hi : i < (numbered asked).length) (hi' : i < asked.length) :
    (numbered asked)[i] = ⟨asked[i].1, asked[i].2, i⟩ :=
  List.getElem_mapIdx

theorem map_token_numbered (asked : List (Mutation × Option String)) :
    (numbered asked).map PendingOp.token = List.range asked.length := by
  apply List.ext_getElem
  · rw [List.length_map, length_numbered, List.length_range]
  · intro i hi hi'
    rw [List.length_range] at hi'
    rw [List.getElem_map, List.getElem_range, getElem_numbered _ hi']

theorem map_mutation_numbered (asked : List (Mutation × Option String)) :
    (numbered asked).map PendingOp.mutation = asked.map Prod.fst := by
  apply List.ext_getElem
  · rw [List.length_map, List.length_map, length_numbered]
  · intro i hi hi'
    rw [List.length_map] at hi'
    rw [List.getElem_map, List.getElem_map, getElem_numbered _ hi']

theorem token_of_getElem? {asked : List (Mutation × Option String)} {i : Nat} {op : PendingOp}
    (h : (numbered asked)[i]? = some op) : op.token = i := by
  rw [numbered, List.getElem?_mapIdx, Option.map_eq_some_iff] at h
  obtain ⟨a, -, rfl⟩ := h
  rfl

section Runs

variable [Store σ]

theorem after_queue_filled (id : Nat) (s : σ) (asked : List (Mutation × Option String))
    (op : Mutation × Option String) :
    (filled id s asked).after (.queue op) = filled id s (asked ++ [op]) := by
  have hnumbered : numbered (asked ++ [op]) = numbered asked ++ [⟨op.1, op.2, asked.length⟩] :=
    List.mapIdx_concat
  have hgranted : granted (asked.length + 1) =
      granted asked.length ++ [.ok (asked.length, asked.length + 1)] := by
    rw [granted, List.range_succ, List.map_append]
    rfl
  simp only [after, filled, Batch.push, hnumbered, length_numbered, List.length_append,
    List.length_singleton, hgranted]

theorem afterAll_queue (id : Nat) (s : σ) (asked asked' : List (Mutation × Option String)) :
    (filled id s asked).afterAll (asked'.map Use.queue) = filled id s (asked ++ asked') := by
  induction asked' generalizing asked with
  | nil => rw [List.append_nil]; rfl
  | cons op asked' ih =>
    rw [List.map_cons, afterAll, List.foldl_cons, after_queue_filled, ← afterAll, ih,
      List.append_assoc, List.singleton_append]

/-- A retired batch refuses whatever comes, and its execution does nothing. -/
theorem afterAll_of_retired {u : Usage σ} (h : u.batch.state = .retired) (later : List Use) :
    u.afterAll later =
      { u with
        answers := u.answers ++ List.replicate (later.countP Use.isQueue) (.error .retired)
        results := u.results ++ List.replicate (later.countP Use.isExecute) {} } := by
  induction later generalizing u with
  | nil => simp [afterAll]
  | cons use later ih =>
    obtain ⟨⟨id, state⟩, store, nextToken, answers, results, settled⟩ := u
    cases h
    rw [afterAll, List.foldl_cons, ← afterAll]
    cases use with
    | queue op =>
      have hqueued : (Use.queue op :: later).countP Use.isQueue = later.countP Use.isQueue + 1 :=
        List.countP_cons_of_pos rfl
      have hexecuted : (Use.queue op :: later).countP Use.isExecute = later.countP Use.isExecute :=
        List.countP_cons_of_neg Bool.false_ne_true
      rw [ih rfl, hqueued, hexecuted, List.replicate_succ, List.append_cons]
      rfl
    | execute =>
      have hqueued : (Use.execute :: later).countP Use.isQueue = later.countP Use.isQueue :=
        List.countP_cons_of_neg Bool.false_ne_true
      have hexecuted : (Use.execute :: later).countP Use.isExecute =
          later.countP Use.isExecute + 1 :=
        List.countP_cons_of_pos rfl
      have hsettled : settled ++ [] = settled := List.append_nil settled
      rw [ih rfl, hqueued, hexecuted, List.replicate_succ, List.append_cons]
      simp only [after, Batch.execute, Batch.retire, Batch.pending, Batch.run, List.isEmpty_nil, if_true,
        hsettled]

end Runs

section Runs

variable [Store σ]

/-- The first execution runs what was queued, and what is done later has no effect. -/
theorem afterAll_execute (id : Nat) (s : σ) (asked : List (Mutation × Option String))
    (later : List Use) :
    (filled id s asked).afterAll (.execute :: later) =
      { batch := { id, state := .retired }
        store := (Batch.run id (numbered asked) s).store
        nextToken := asked.length
        answers :=
          granted asked.length ++ List.replicate (later.countP Use.isQueue) (.error .retired)
        results :=
          (Batch.run id (numbered asked) s).result ::
            List.replicate (later.countP Use.isExecute) {}
        settled := (Batch.run id (numbered asked) s).settled } :=
  afterAll_of_retired (u := (filled id s asked).after .execute) rfl later

structure Spent (id : Nat) (s : σ) (asked : List (Mutation × Option String)) (later : List Use)
    (u : Usage (Observed σ)) : Prop where
  retired : u.batch = { id, state := .retired }
  answers : u.answers =
    granted asked.length ++ List.replicate (later.countP Use.isQueue) (.error .retired)
  sentOnce : u.store.calls = if asked.isEmpty then [] else [.batch (asked.map Prod.fst)]
  counted : ∃ r : BatchResult, u.results = r :: List.replicate (later.countP Use.isExecute) {} ∧
    r.total = asked.length ∧ r.total = r.succeeded + r.failed ∧
    r.succeeded = u.settled.countP fun x => x.completion.isOk
  settledOnce : u.settled.map Settlement.token = List.range asked.length
  resolved : ∀ (i : Nat) (op : PendingOp), (numbered asked)[i]? = some op → ∃ completion : Completion,
    u.settled[i]? = some ⟨i, completion⟩ ∧
    op.Resolves id i ((Store.call (.batch (asked.map Prod.fst)) s).1.map fun replies => replies[i]?)
      completion

theorem calls_run_numbered (id : Nat) (s : σ) (asked : List (Mutation × Option String)) :
    (Batch.run id (numbered asked) (⟨s, []⟩ : Observed σ)).store.calls =
      if asked.isEmpty then [] else [.batch (asked.map Prod.fst)] := by
  have hempty : (numbered asked).isEmpty = asked.isEmpty := by
    rw [Bool.eq_iff_iff, List.isEmpty_iff_length_eq_zero, List.isEmpty_iff_length_eq_zero,
      length_numbered]
  rw [Observed.calls_run, List.filter_singleton, hempty]
  cases asked.isEmpty with
  | true => rfl
  | false => exact congrArg (fun ms => [Call.batch ms]) (map_mutation_numbered asked)

theorem resolves_run (id : Nat) (s : σ) {asked : List (Mutation × Option String)} {i : Nat}
    {op : PendingOp} (hop : (numbered asked)[i]? = some op) :
    ∃ completion : Completion,
      (Batch.run id (numbered asked) (⟨s, []⟩ : Observed σ)).settled[i]? = some ⟨i, completion⟩ ∧
        op.Resolves id i
          ((Store.call (.batch (asked.map Prod.fst)) s).1.map fun replies => replies[i]?)
          completion := by
  have hsettled : ∀ ms, (numbered asked).map PendingOp.mutation = ms →
      (Batch.run id (numbered asked) (⟨s, []⟩ : Observed σ)).settled =
        Batch.settle id (numbered asked) (Store.call (.batch ms) s).1 := by
    rintro _ rfl
    exact Batch.settled_run_eq_settle id _ _
  obtain ⟨completion, hplace, hresolves⟩ := Batch.resolves_settle id hop
    (Store.call (.batch (asked.map Prod.fst)) s).1
  refine ⟨completion, ?_, hresolves⟩
  rw [hsettled _ (map_mutation_numbered asked), hplace, token_of_getElem? hop]

theorem spent_afterAll (id : Nat) (s : σ) (asked : List (Mutation × Option String))
    (later : List Use) :
    Spent id s asked later
      ((filled id (⟨s, []⟩ : Observed σ) asked).afterAll (.execute :: later)) := by
  have hcounts := Batch.result_run_eq_tally id (numbered asked) (⟨s, []⟩ : Observed σ)
  have htotal := Batch.total_run id (numbered asked) (⟨s, []⟩ : Observed σ)
  have htokens := Batch.map_token_run id (numbered asked) (⟨s, []⟩ : Observed σ)
  rw [afterAll_execute]
  exact
    { retired := rfl
      answers := rfl
      sentOnce := calls_run_numbered id s asked
      counted := ⟨_, rfl, htotal.trans (length_numbered asked),
        hcounts ▸ Batch.total_tally _, congrArg BatchResult.succeeded hcounts⟩
      settledOnce := htokens.trans (map_token_numbered asked)
      resolved := fun i op hop => resolves_run id s hop }

/-- A batch takes what is queued until it is executed.  The execution sends everything in one call, settles
every mutation once, and counts the settlements.  Nothing that is done later has any effect. -/
theorem first_execution_settles_all (id : Nat) (s : σ) (uses : List Use) :
    let u : Usage (Observed σ) := { batch := { id }, store := ⟨s, []⟩ }
    match Use.afterExecution uses with
    | none => u.afterAll uses = filled id ⟨s, []⟩ (Use.queuedFirst uses)
    | some later => Spent id s (Use.queuedFirst uses) later (u.afterAll uses) := by
  intro u
  have huses := Use.eq_append_afterExecution uses
  have hfilled : u.afterAll ((Use.queuedFirst uses).map Use.queue) =
      filled id ⟨s, []⟩ (Use.queuedFirst uses) :=
    afterAll_queue id (⟨s, []⟩ : Observed σ) [] (Use.queuedFirst uses)
  cases hlater : Use.afterExecution uses with
  | none =>
    rw [hlater, List.append_nil] at huses
    exact (congrArg u.afterAll huses).trans hfilled
  | some later =>
    have hrun : u.afterAll uses =
        (filled id (⟨s, []⟩ : Observed σ) (Use.queuedFirst uses)).afterAll (.execute :: later) := by
      rw [hlater] at huses
      rw [← hfilled]
      exact (congrArg u.afterAll huses).trans List.foldl_append
    exact hrun ▸ spent_afterAll id s _ later

end Runs

end Usage

end BatchingCache
