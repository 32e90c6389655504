import BatchingCache.Proofs.Pipeline.Ownership
/-!
# Contents of batches

What a batch holds, or held when it was executed, is what was pushed into it, in that order.  Every
batch is executed at most once.  Its mutations are handed to the store in one call then, and then
only are they settled.
-/

namespace BatchingCache.System

variable {σ : Type} {s s' : System σ} {id i : Nat}

def pushedInto (s : System σ) (id : Nat) : List PendingOp :=
  (s.pushed.filter fun e => e.batch = id).map Pushed.op

theorem pushedInto_eq (hpushed : s'.pushed = s.pushed) : s'.pushedInto i = s.pushedInto i := by
  rw [pushedInto, hpushed, pushedInto]

theorem pushedInto_accept (caller : Nat) (op : PendingOp) (p : Pipeline) :
    (s.accept ⟨caller, id, op⟩ p).pushedInto i =
      s.pushedInto i ++ if id = i then [op] else [] := by
  show ((s.pushed ++ [_]).filter _).map _ = _
  rw [List.filter_append, List.map_append, List.filter_singleton]
  congr 1
  by_cases hi : id = i
  · simp [hi]
  · simp [hi]

/-- Every batch that there has been either waits or was executed, once, with what was pushed into
it. -/
structure Filled (s : System σ) : Prop where
  waiting : ∀ id ops, s.pipeline.waiting? id = some ops → ops = s.pushedInto id
  executed : ∀ x ∈ s.executed, x.2 = s.pushedInto x.1
  once : ∀ id,
    (s.executed.map Prod.fst).count id + (if (s.pipeline.waiting? id).isSome then 1 else 0) =
      if 0 < id ∧ id < s.pipeline.nextId then 1 else 0
  range : ∀ e ∈ s.pushed, 0 < e.batch ∧ e.batch < s.pipeline.nextId
  positive : 0 < s.pipeline.nextId

theorem Filled.pushedInto_nextId (h : s.Filled) : s.pushedInto s.pipeline.nextId = [] := by
  rw [pushedInto, List.map_eq_nil_iff, List.filter_eq_nil_iff]
  intro e he
  have hlt := (h.range e he).2
  simp only [decide_eq_true_eq]
  omega

theorem Filled.count_executed_of_waiting? (h : s.Filled) (hsome : (s.pipeline.waiting? id).isSome) :
    (s.executed.map Prod.fst).count id = 0 ∧ 0 < id ∧ id < s.pipeline.nextId := by
  have honce := h.once id
  rw [if_pos hsome] at honce
  split at honce
  · rename_i hrange
    exact ⟨by omega, hrange⟩
  · omega

theorem filled_of_same (h : s.Filled)
    (hwaiting : ∀ i, s'.pipeline.waiting? i = s.pipeline.waiting? i)
    (hnext : s'.pipeline.nextId = s.pipeline.nextId) (hpushed : s'.pushed = s.pushed)
    (hexecuted : s'.executed = s.executed) : s'.Filled := by
  constructor
  · intro id ops hops
    rw [hwaiting] at hops
    rw [pushedInto_eq hpushed]
    exact h.waiting id ops hops
  · intro x hx
    rw [hexecuted] at hx
    rw [pushedInto_eq hpushed]
    exact h.executed x hx
  · intro id
    rw [hexecuted, hwaiting, hnext]
    exact h.once id
  · rw [hpushed, hnext]
    exact h.range
  · rw [hnext]
    exact h.positive

theorem filled_of_install (h : s.Filled) (hwell : s.pipeline.WellFormed)
    (hwaiting : ∀ i, s'.pipeline.waiting? i = s.pipeline.install.waiting? i)
    (hnext : s'.pipeline.nextId = s.pipeline.nextId + 1) (hpushed : s'.pushed = s.pushed)
    (hexecuted : s'.executed = s.executed) : s'.Filled := by
  constructor
  · intro id ops hops
    rw [hwaiting, Pipeline.waiting?_install hwell] at hops
    rw [pushedInto_eq hpushed]
    split at hops
    · rename_i hid
      cases hops
      rw [hid, h.pushedInto_nextId]
    · exact h.waiting id ops hops
  · intro x hx
    rw [hexecuted] at hx
    rw [pushedInto_eq hpushed]
    exact h.executed x hx
  · intro id
    have honce := h.once id
    rw [hexecuted, hwaiting, Pipeline.waiting?_install hwell, hnext]
    by_cases hid : id = s.pipeline.nextId
    · have hpositive := h.positive
      have hout : ¬ (0 < id ∧ id < s.pipeline.nextId) := by omega
      have hin : 0 < id ∧ id < s.pipeline.nextId + 1 := by omega
      rw [if_neg hout] at honce
      rw [if_pos hid, Option.isSome_some, if_pos rfl, if_pos hin]
      omega
    · rw [if_neg hid, honce]
      congr 1
      rw [eq_iff_iff]
      omega
  · intro e he
    rw [hpushed] at he
    have hrange := h.range e he
    omega
  · omega

theorem filled_of_push (op : PendingOp) {ops : List PendingOp} (h : s.Filled)
    (hops : s.pipeline.waiting? id = some ops)
    (hwaiting : ∀ i, s'.pipeline.waiting? i =
      if i = id then some (ops ++ [op]) else s.pipeline.waiting? i)
    (hnext : s'.pipeline.nextId = s.pipeline.nextId)
    (hinto : ∀ i, s'.pushedInto i = s.pushedInto i ++ if id = i then [op] else [])
    (hpushed : ∀ e ∈ s'.pushed, e ∈ s.pushed ∨ e.batch = id)
    (hexecuted : s'.executed = s.executed) : s'.Filled := by
  obtain ⟨hnever, hrange⟩ := h.count_executed_of_waiting? (by rw [hops]; rfl)
  constructor
  · intro i ops' hops'
    rw [hwaiting] at hops'
    rw [hinto]
    by_cases hi : i = id
    · rw [if_pos hi] at hops'
      cases hops'
      rw [hi, if_pos rfl, h.waiting id ops hops]
    · rw [if_neg hi] at hops'
      rw [if_neg (Ne.symm hi), List.append_nil]
      exact h.waiting i ops' hops'
  · intro x hx
    rw [hexecuted] at hx
    -- What was executed takes no more: the batch that is pushed into still waits.
    have hne : id ≠ x.1 := by
      rintro rfl
      exact List.count_eq_zero.1 hnever (List.mem_map_of_mem hx)
    rw [hinto, if_neg hne, List.append_nil]
    exact h.executed x hx
  · intro i
    rw [hexecuted, hwaiting, hnext, ← h.once i]
    by_cases hi : i = id
    · rw [if_pos hi, hi, hops]
      rfl
    · rw [if_neg hi]
  · intro e he
    rw [hnext]
    rcases hpushed e he with hold | hid
    · exact h.range e hold
    · rw [hid]
      exact hrange
  · rw [hnext]
    exact h.positive

theorem filled_of_execute {ops : List PendingOp} (h : s.Filled)
    (hops : s.pipeline.waiting? id = some ops)
    (hwaiting : ∀ i, s'.pipeline.waiting? i = if i = id then none else s.pipeline.waiting? i)
    (hnext : s'.pipeline.nextId = s.pipeline.nextId) (hpushed : s'.pushed = s.pushed)
    (hexecuted : s'.executed = s.executed ++ [(id, ops)]) : s'.Filled := by
  constructor
  · intro i ops' hops'
    rw [hwaiting] at hops'
    rw [pushedInto_eq hpushed]
    split at hops'
    · cases hops'
    · exact h.waiting i ops' hops'
  · intro x hx
    rw [hexecuted] at hx
    rw [pushedInto_eq hpushed]
    rcases List.mem_append.1 hx with hx | hx
    · exact h.executed x hx
    · rw [List.mem_singleton.1 hx]
      exact h.waiting id ops hops
  · intro i
    rw [hexecuted, hwaiting, hnext, ← h.once i, List.map_append, List.count_append,
      List.map_singleton, List.count_singleton]
    by_cases hi : i = id
    · rw [if_pos hi, hi, hops, if_pos (beq_self_eq_true id)]
      rfl
    · rw [if_neg hi, if_neg (by simpa using Ne.symm hi)]
      rfl
  · rw [hpushed, hnext]
    exact h.range
  · rw [hnext]
    exact h.positive

variable [Store σ]

theorem filled_move (howned : s.Owned) (h : s.Filled) (hmove : s.Move s') : s'.Filled := by
  have hwell := howned.wellFormed
  cases hmove with
  | begin caller op attempts hold htoken => exact filled_of_same h (fun i => rfl) rfl rfl rfl
  | quiet caller old new stats inFlight hold hquiet => exact filled_of_same h (fun i => rfl) rfl rfl rfl
  | push caller op attempts id ops hold hops =>
    refine filled_of_push op h hops (fun i => ?_) rfl (fun i => ?_) ?_ rfl
    · exact Pipeline.waiting?_replace (b := ⟨id, .accumulating (ops ++ [op])⟩) (by rw [hops]; rfl)
    · exact pushedInto_accept caller op s.pipeline
    · intro e he
      rcases List.mem_append.1 he with he | he
      · exact .inl he
      · rw [List.mem_singleton.1 he]
        exact .inr rfl
  | rotateFull caller id hold hslot =>
    obtain ⟨inFlight, hrotated⟩ := Pipeline.rotateFull_of_slot hslot
    rw [hrotated]
    exact filled_of_install h hwell (fun i => rfl) rfl rfl rfl
  | rotate caller id hold hslot => exact filled_of_install h hwell (fun i => rfl) rfl rfl rfl
  | takeLast caller id hold hslot => exact filled_of_same h (fun i => rfl) rfl rfl rfl
  | execute caller id hold =>
    have hpipeline := pipeline_execute id { s with pipeline := s.pipeline.countFlushed }
    obtain ⟨hsome, -⟩ := howned.waiting?_of_executors (executors_pos_of_phase hold)
    obtain ⟨ops, hops⟩ := Option.isSome_iff_exists.1 hsome
    refine filled_of_execute h hops (fun i => ?_) ?_ rfl ?_
    · rw [pipeline_setPhase, hpipeline]
      exact Pipeline.waiting?_without
    · rw [pipeline_setPhase, hpipeline]
      rfl
    · show s.executed ++ [(id, (s.pipeline.waiting? id).getD [])] = _
      rw [hops]
      rfl
  | background id hmem =>
    have hpipeline := pipeline_execute id (s.fetch id)
    obtain ⟨hsome, -⟩ := howned.waiting?_of_executors (executors_pos_of_background hmem)
    obtain ⟨ops, hops⟩ := Option.isSome_iff_exists.1 hsome
    refine filled_of_execute h hops (fun i => ?_) ?_ rfl ?_
    · rw [hpipeline]
      exact Pipeline.waiting?_without
    · rw [hpipeline]
      rfl
    · show s.executed ++ [(id, (s.pipeline.waiting? id).getD [])] = _
      rw [hops]
      rfl

/-! ## Handing over -/

/-- The store has been sent what was executed, and just this has been settled. -/
structure Delivered (s : System σ) : Prop where
  calls : s.store.calls =
    ((s.executed.map Prod.snd).filter fun ops => !ops.isEmpty).map Batch.sent
  tokens : s.settled.map Settlement.token =
    (s.executed.flatMap Prod.snd).map PendingOp.token

theorem delivered_execute (h : s.Delivered) (id : Nat) : (s.execute id).Delivered := by
  constructor
  · show (s.pipeline.executeBatch id s.store).2.store.calls =
      ((s.executed ++ [_]).map Prod.snd |>.filter _).map Batch.sent
    rw [Pipeline.executeBatch_eq, Observed.calls_run, h.calls, List.map_append, List.filter_append,
      List.map_append]
    rfl
  · show (s.settled ++ (s.pipeline.executeBatch id s.store).2.settled).map Settlement.token =
      ((s.executed ++ [_]).flatMap Prod.snd).map PendingOp.token
    rw [Pipeline.executeBatch_eq, List.map_append, h.tokens, Batch.map_token_run,
      List.flatMap_append, List.map_append, List.flatMap_singleton]

theorem delivered_move (h : s.Delivered) (hmove : s.Move s') : s'.Delivered := by
  cases hmove with
  | begin caller op attempts hold htoken => exact ⟨h.calls, h.tokens⟩
  | quiet caller old new stats inFlight hold hquiet => exact ⟨h.calls, h.tokens⟩
  | push caller op attempts id ops hold hops => exact ⟨h.calls, h.tokens⟩
  | rotateFull caller id hold hslot => exact ⟨h.calls, h.tokens⟩
  | rotate caller id hold hslot => exact ⟨h.calls, h.tokens⟩
  | takeLast caller id hold hslot => exact ⟨h.calls, h.tokens⟩
  | execute caller id hold =>
    have hcounted : { s with pipeline := s.pipeline.countFlushed }.Delivered :=
      ⟨h.calls, h.tokens⟩
    have hexecuted := delivered_execute hcounted id
    exact ⟨hexecuted.calls, hexecuted.tokens⟩
  | background id hmem =>
    have hfetched : (s.fetch id).Delivered := ⟨h.calls, h.tokens⟩
    exact delivered_execute hfetched id

end BatchingCache.System
