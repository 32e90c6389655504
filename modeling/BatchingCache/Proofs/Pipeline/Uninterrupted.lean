import BatchingCache.Proofs.Pipeline.Ownership
/-!
# Uninterrupted callers

A caller that takes all its steps before another one takes any does to the pipeline and the store
what queueing, flushing or shutting down does at once.
-/

namespace BatchingCache.System

variable {σ : Type} {s : System σ} {caller : Nat} {op : PendingOp} {attempts : Nat}

theorem phases_setPhase_self {old new : Phase} (hold : s.phases[caller]? = some old) :
    (s.setPhase caller new).phases[caller]? = some new :=
  List.getElem?_set_self (List.getElem?_eq_some_iff.1 hold).1

/-! ## Queueing -/

structure Queued (caller : Nat) (op : PendingOp) (attempts : Nat) (s t : System σ) : Prop where
  pipeline : t.pipeline = (s.pipeline.enqueueWithin op attempts).2.1
  phases : t.phases = s.phases.set caller .idle
  store : t.store = s.store
  pushed : ∃ new, t.pushed = s.pushed ++ new ∧
    new.map Pushed.op = if (s.pipeline.enqueueWithin op attempts).1.isOk then [op] else []

theorem queued_of_retry {t : System σ} {reason : Unavailable}
    (hattempt : s.pipeline.attempt op = .error reason)
    (h : Queued caller op attempts (s.retry caller op attempts) t) :
    Queued caller op (attempts + 1) s t := by
  obtain ⟨hresult, hpipeline⟩ := Pipeline.enqueueWithin_of_error attempts hattempt
  constructor
  · rw [hpipeline]
    exact h.pipeline
  · rw [h.phases]
    exact List.set_set _
  · exact h.store
  · rw [hresult]
    exact h.pushed

variable [Store σ]

theorem step_advance {phase : Phase} (hold : s.phases[caller]? = some phase) :
    s.step (.advance caller) = s.proceed caller phase := by
  rw [step, hold]
  rfl

theorem run_append (actions more : List Action) :
    s.run (actions ++ more) = (s.run actions).run more :=
  List.foldl_append

/-- A caller reads the slot and pushes, but gets its mutation back. -/
theorem run_of_refused {reason : Unavailable}
    (hold : s.phases[caller]? = some (.reading op (attempts + 1)))
    (hattempt : s.pipeline.attempt op = .error reason) :
    ∃ n, s.run (List.replicate n (.advance caller)) = s.retry caller op attempts := by
  cases hslot : s.pipeline.slot with
  | none =>
    refine ⟨1, ?_⟩
    show s.step (.advance caller) = _
    rw [step_advance hold, proceed, hslot]
  | some id =>
    refine ⟨2, ?_⟩
    show (s.step (.advance caller)).step (.advance caller) = _
    have hread : s.step (.advance caller) = s.setPhase caller (.pushing op attempts id) := by
      rw [step_advance hold, proceed, hslot]
    have hpush : (s.setPhase caller (.pushing op attempts id)).pipeline.push id op =
        .error reason := by
      rw [Pipeline.attempt_of_slot hslot] at hattempt
      show s.pipeline.push id op = _
      cases h : s.pipeline.push id op with
      | error r =>
        rw [h] at hattempt
        cases hattempt
        rfl
      | ok r =>
        rw [h] at hattempt
        cases hattempt
    rw [hread, step_advance (phases_setPhase_self hold), proceed, hpush]
    simp only [retry, setPhase, List.set_set]

/-- A caller reads the slot, pushes, and rotates the batch if it has filled that. -/
theorem run_of_taken {id length : Nat} {q : Pipeline}
    (hold : s.phases[caller]? = some (.reading op (attempts + 1)))
    (hattempt : s.pipeline.attempt op = .ok (id, length, q)) :
    ∃ n t, s.run (List.replicate n (.advance caller)) = t ∧ t.store = s.store ∧
      t.pushed = s.pushed ++ [⟨caller, id, op⟩] ∧ t.phases = s.phases.set caller .idle ∧
      t.pipeline =
        if length = q.batchSize then (q.countEnqueued.rotateFull id).1 else q.countEnqueued := by
  obtain ⟨hslot, hpush⟩ : s.pipeline.slot = some id ∧ s.pipeline.push id op = .ok (length, q) := by
    cases hslot : s.pipeline.slot with
    | none =>
      rw [Pipeline.attempt, hslot] at hattempt
      cases hattempt
    | some id' =>
      rw [Pipeline.attempt_of_slot hslot] at hattempt
      cases h : s.pipeline.push id' op with
      | error r =>
        rw [h] at hattempt
        cases hattempt
      | ok r =>
        rw [h] at hattempt
        cases hattempt
        exact ⟨rfl, h⟩
  have hread : s.step (.advance caller) = s.setPhase caller (.pushing op attempts id) := by
    rw [step_advance hold, proceed, hslot]
  have hpush : (s.setPhase caller (.pushing op attempts id)).pipeline.push id op =
      .ok (length, q) := hpush
  have htaken : (s.step (.advance caller)).step (.advance caller) =
      (s.accept ⟨caller, id, op⟩ q.countEnqueued).setPhase caller
        (if length = q.batchSize then .rotating id else .idle) := by
    rw [hread, step_advance (phases_setPhase_self hold), proceed, hpush]
    simp only [accept, setPhase, List.set_set]
  by_cases hfull : length = q.batchSize
  · have hrotating : ((s.accept ⟨caller, id, op⟩ q.countEnqueued).setPhase caller
        (.rotating id)).phases[caller]? = some (.rotating id) :=
      phases_setPhase_self (s := s.accept ⟨caller, id, op⟩ q.countEnqueued) hold
    have hrun : s.run (List.replicate 3 (.advance caller)) =
        ((s.accept ⟨caller, id, op⟩ q.countEnqueued).leave .full
          (q.countEnqueued.rotateFull id).1).setPhase caller .idle := by
      show ((s.step (.advance caller)).step (.advance caller)).step (.advance caller) = _
      rw [htaken, if_pos hfull, step_advance hrotating, proceed]
      simp only [leave, setPhase, List.set_set]
      rfl
    exact ⟨3, _, hrun, rfl, rfl, rfl, (if_pos hfull).symm⟩
  · have hrun : s.run (List.replicate 2 (.advance caller)) =
        (s.accept ⟨caller, id, op⟩ q.countEnqueued).setPhase caller .idle := by
      show (s.step (.advance caller)).step (.advance caller) = _
      rw [htaken, if_neg hfull]
    exact ⟨2, _, hrun, rfl, rfl, rfl, (if_neg hfull).symm⟩

theorem run_enqueue (hold : s.phases[caller]? = some (.reading op attempts)) :
    ∃ n, Queued caller op attempts s (s.run (List.replicate n (.advance caller))) := by
  induction attempts generalizing s with
  | zero =>
    refine ⟨1, ?_⟩
    show Queued caller op 0 s (s.step (.advance caller))
    rw [step_advance hold]
    exact ⟨rfl, rfl, rfl, [], (List.append_nil _).symm, rfl⟩
  | succ attempts ih =>
    cases hattempt : s.pipeline.attempt op with
    | error reason =>
      obtain ⟨n, hn⟩ := run_of_refused hold hattempt
      obtain ⟨m, hm⟩ := ih (s := s.retry caller op attempts) (phases_setPhase_self hold)
      refine ⟨n + m, ?_⟩
      rw [List.replicate_add, run_append, hn]
      exact queued_of_retry hattempt hm
    | ok accepted =>
      obtain ⟨id, length, q⟩ := accepted
      obtain ⟨n, t, hn, hstore, hpushed, hphases, hpipeline⟩ := run_of_taken hold hattempt
      obtain ⟨hresult, hqueued⟩ := Pipeline.enqueueWithin_of_ok attempts hattempt
      refine ⟨n, ?_⟩
      rw [hn]
      refine ⟨hpipeline.trans hqueued.symm, hphases, hstore, [⟨caller, id, op⟩], hpushed, ?_⟩
      rw [hresult]
      rfl

/-! ## Flushing and shutting down -/

structure Executed (r : Pipeline × Execution (Observed σ)) (s t : System σ) : Prop where
  pipeline : t.pipeline = r.1
  store : t.store = r.2.store
  settled : t.settled = s.settled ++ r.2.settled

theorem run_background {ids : List Nat} (hids : s.pipeline.background = ids) :
    Executed (s.pipeline.runBackground s.store) s (s.run (ids.map .background)) ∧
      (s.run (ids.map .background)).phases = s.phases := by
  induction ids generalizing s with
  | nil =>
    have hsame : { s.pipeline with background := [] } = s.pipeline := by rw [← hids]
    rw [Pipeline.runBackground, hids, hsame]
    exact ⟨⟨rfl, rfl, (List.append_nil _).symm⟩, rfl⟩
  | cons id ids ih =>
    have hmem : id ∈ s.pipeline.background := hids ▸ List.mem_cons_self
    have hstep : s.step (.background id) = (s.fetch id).execute id := by rw [step, if_pos hmem]
    have hpipeline := pipeline_execute id (s.fetch id)
    have hrest : ((s.fetch id).execute id).pipeline.background = ids := by
      rw [hpipeline]
      show s.pipeline.background.erase id = ids
      rw [hids, List.erase_cons_head]
    obtain ⟨h, hphases⟩ := ih hrest
    have hrun : s.run ((id :: ids).map .background) =
        ((s.fetch id).execute id).run (ids.map .background) := by
      rw [← hstep]
      rfl
    have hexecution : ((s.fetch id).pipeline.executeBatch id s.store).2 =
        Batch.run id ((s.pipeline.waiting? id).getD []) s.store :=
      congrArg Prod.snd (Pipeline.executeBatch_eq s.store)
    have hstore : ((s.fetch id).execute id).store = _ := congrArg Execution.store hexecution
    have hsettled : ((s.fetch id).execute id).settled = s.settled ++ _ :=
      congrArg (s.settled ++ Execution.settled ·) hexecution
    rw [Pipeline.runBackground, hrest, hpipeline, hstore] at h
    rw [hrun, Pipeline.runBackground, hids, Pipeline.executeAll, Pipeline.executeBatch_eq]
    refine ⟨⟨h.pipeline, h.store, ?_⟩, hphases⟩
    rw [h.settled, hsettled, List.append_assoc]
    rfl

/-- A caller that has taken a batch, or found none, waits for the background and executes it. -/
theorem run_finish {taken : Option Nat} {p : Pipeline}
    (hp : s.pipeline = { p with inFlight := [] })
    (hold : s.phases[caller]? = some (taken.elim .idle .executing)) :
    let t := s.run (s.pipeline.background.map .background ++ [.advance caller])
    Executed (p.finish taken s.store) s t ∧ t.phases = s.phases.set caller .idle := by
  intro t
  obtain ⟨h, hphases⟩ := run_background (s := s) rfl
  have hrun : t = (s.run (s.pipeline.background.map .background)).step (.advance caller) :=
    run_append _ _
  generalize s.run (s.pipeline.background.map .background) = u at h hphases hrun
  rw [← hphases] at hold
  rw [hrun, step_advance hold, ← hphases]
  rw [hp] at h
  cases taken with
  | none =>
    obtain ⟨hlt, hget⟩ := List.getElem?_eq_some_iff.1 hold
    refine ⟨⟨h.pipeline, h.store, ?_⟩, ?_⟩
    · show u.settled = s.settled ++ (_ ++ [])
      rw [h.settled, List.append_nil]
      rfl
    · have hidle : u.phases[caller] = .idle := hget
      show u.phases = u.phases.set caller .idle
      rw [← hidle]
      exact (List.set_getElem_self hlt).symm
  | some id =>
    refine ⟨⟨?_, ?_, ?_⟩, rfl⟩
    · show (u.pipeline.countFlushed.executeBatch id u.store).1 = _
      rw [h.pipeline, h.store]
      rfl
    · show (u.pipeline.countFlushed.executeBatch id u.store).2.store = _
      rw [h.pipeline, h.store]
      rfl
    · show u.settled ++ (u.pipeline.countFlushed.executeBatch id u.store).2.settled = _
      rw [h.pipeline, h.store, h.settled, List.append_assoc]
      rfl

theorem run_taking {taken : Option Nat} {cause : Cause} {p : Pipeline} {old : Phase}
    (hold : s.phases[caller]? = some old)
    (hstep : s.step (.advance caller) =
      (s.leave cause { p with inFlight := [] }).setPhase caller (taken.elim .idle .executing))
    (hbackground : p.background = s.pipeline.background) :
    let t := s.run (.advance caller :: s.pipeline.background.map .background ++ [.advance caller])
    Executed (p.finish taken s.store) s t ∧ t.phases = s.phases.set caller .idle := by
  intro t
  have hphases : (s.step (.advance caller)).phases[caller]? =
      some (taken.elim .idle .executing) := by
    rw [hstep]
    exact phases_setPhase_self (s := s.leave cause { p with inFlight := [] }) hold
  have hp : (s.step (.advance caller)).pipeline = { p with inFlight := [] } := by
    rw [hstep]
    rfl
  have hrun : t = (s.step (.advance caller)).run
      ((s.step (.advance caller)).pipeline.background.map .background ++ [.advance caller]) := by
    rw [hp]
    show _ = (s.step _).run (p.background.map _ ++ _)
    rw [hbackground]
    rfl
  obtain ⟨h, hset⟩ := run_finish hp hphases
  rw [← hrun, hstep] at h
  rw [← hrun, hstep] at hset
  refine ⟨⟨h.pipeline, h.store, h.settled⟩, ?_⟩
  rw [hset]
  exact List.set_set _

theorem run_flush (hold : s.phases[caller]? = some (.taking false)) :
    let t := s.run (.advance caller :: s.pipeline.background.map .background ++ [.advance caller])
    Executed (s.pipeline.flush s.store) s t ∧ t.phases = s.phases.set caller .idle := by
  have hbackground : s.pipeline.rotate.2.1.background = s.pipeline.background := by
    rw [Pipeline.rotate]
    split <;> rfl
  obtain ⟨h, hphases⟩ := run_taking hold (step_advance hold) hbackground
  exact ⟨⟨h.pipeline, h.store, h.settled⟩, hphases⟩

theorem run_shutdown (hold : s.phases[caller]? = some (.taking true)) :
    let t := s.run (.advance caller :: s.pipeline.background.map .background ++ [.advance caller])
    Executed (s.pipeline.shutdown s.store) s t ∧ t.phases = s.phases.set caller .idle :=
  run_taking hold (step_advance hold) rfl

end BatchingCache.System
