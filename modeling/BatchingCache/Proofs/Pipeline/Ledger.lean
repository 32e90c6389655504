import BatchingCache.Proofs.Pipeline.Postings
/-!
# The ledger of a pipeline

Mutations are queued and batches executed, the pipeline is flushed and shut down, and the store fails
now and then.  After every step the statistics, the metrics, what the store was sent and what waits in
the pipeline agree with each other.
-/

namespace BatchingCache

variable {σ : Type}

/-- A pipeline on a store that is watched, with what has come of its mutations, what was recorded, and
how many mutations were given up. -/
structure Ledger (σ : Type) where
  pipeline : Pipeline
  store : Observed σ
  rejected : Nat := 0
  settled : List Settlement := []
  journal : List Metric := []

namespace Ledger

inductive Event (σ : Type) where
  | enqueue (op : PendingOp)
  | background (id : Nat)
  | flush
  | shutdown
  /-- The store changes by itself, as when it begins to fail or no longer fails. -/
  | outside (change : σ → σ)

def absorb (l : Ledger σ) (r : Pipeline × Execution (Observed σ)) : Ledger σ :=
  { l with
    pipeline := r.1
    store := r.2.store
    settled := l.settled ++ r.2.settled
    journal := l.journal ++ r.2.metrics }

variable [Store σ]

def step (l : Ledger σ) : Event σ → Ledger σ
  | .enqueue op =>
    let (result, pipeline, ms) := l.pipeline.enqueue op
    { l.absorb (pipeline, ⟨{}, l.store, [], ms⟩) with
      rejected := l.rejected + if result.isOk then 0 else 1 }
  | .background id =>
    let p := l.pipeline
    if id ∈ p.background then
      l.absorb ({ p with background := p.background.erase id }.executeBatch id l.store)
    else l
  | .flush => l.absorb (l.pipeline.flush l.store)
  | .shutdown => l.absorb (l.pipeline.shutdown l.store)
  | .outside change => { l with store := { l.store with store := change l.store.store } }

def run (l : Ledger σ) (events : List (Event σ)) : Ledger σ := events.foldl step l

/-- The statistics, the metrics, what the store was sent and what waits agree with each other. -/
structure Balanced (attempts : Nat) (l : Ledger σ) : Prop where
  created : l.pipeline.stats.batchesCreated =
    l.pipeline.stats.batchesFlushed + if l.pipeline.isRunning then 1 else 0
  enqueued : l.pipeline.stats.opsEnqueued =
    l.pipeline.pending +
      (l.pipeline.background.map fun id => ((l.pipeline.waiting? id).getD []).length).sum +
      l.store.batchSizes.sum
  retries : l.pipeline.stats.retries = max 1 attempts * l.rejected
  enqueuedTotal : (enqueuedSeries.map (Snapshot.ofMetrics l.journal).counter).sum =
    l.pipeline.stats.opsEnqueued
  rotationsTotal : (Snapshot.ofMetrics l.journal).counter rotationSeries + 1 =
    l.pipeline.stats.batchesCreated
  retriesTotal : (retrySeries.map (Snapshot.ofMetrics l.journal).counter).sum =
    l.pipeline.stats.retries
  sizes : (Snapshot.ofMetrics l.journal).histogram sizeSeries = l.store.batchSizes
  failedTotal : (Snapshot.ofMetrics l.journal).counter failureSeries =
    l.settled.countP isSettledFailed

structure Kept (attempts : Nat) (l : Ledger σ) : Prop where
  stocked : l.pipeline.Stocked
  maxAttempts : l.pipeline.maxAttempts = attempts
  created : l.pipeline.stats.batchesCreated =
    l.pipeline.stats.batchesFlushed + l.pipeline.installed
  held : l.pipeline.stats.opsEnqueued = l.pipeline.held + l.store.batchSizes.sum
  rejected : l.pipeline.stats.retries = attempts * l.rejected
  metrics : ∀ m ∈ l.journal, m.OfPipeline
  taken : (l.journal.map Metric.taken).sum = l.pipeline.stats.opsEnqueued
  rotations : (l.journal.map Metric.rotations).sum + 1 = l.pipeline.stats.batchesCreated
  retries : (l.journal.map Metric.retries).sum = l.pipeline.stats.retries
  sizes : l.journal.flatMap Metric.sizes = l.store.batchSizes
  failures : (l.journal.map Metric.failures).sum = l.settled.countP isSettledFailed

variable {attempts : Nat} {l : Ledger σ}

omit [Store σ] in
theorem Kept.absorb {x : Posting} {r : Pipeline × Execution (Observed σ)} (h : l.Kept attempts)
    (hr : l.pipeline.Booked l.store x r) {rejected : Nat} (hrejected : x.retries = attempts * rejected) :
    ({ l.absorb r with rejected := l.rejected + rejected } : Ledger σ).Kept attempts := by
  have hposted := hr.posted
  refine ⟨hr.stocked, hr.attempts.trans h.maxAttempts, ?_, ?_, ?_, ?_, ?_, ?_, ?_, ?_, ?_⟩
  · have hcreated := h.created
    have hcreated' := hr.created
    have hflushed' := hr.flushed
    show r.1.stats.batchesCreated = r.1.stats.batchesFlushed + r.1.installed
    omega
  · have hheld := h.held
    have hheld' := hr.held
    have henqueued' := hr.enqueued
    show r.1.stats.opsEnqueued = r.1.held + r.2.store.batchSizes.sum
    omega
  · show r.1.stats.retries = attempts * (l.rejected + rejected)
    rw [hr.retries, h.rejected, hrejected, Nat.mul_add]
  · intro m hm
    exact (List.mem_append.1 hm).elim (h.metrics m) (hposted.metrics m)
  · show ((l.journal ++ r.2.metrics).map Metric.taken).sum = r.1.stats.opsEnqueued
    rw [List.map_append, List.sum_append, h.taken, hposted.taken, hr.enqueued]
  · have hrotations := h.rotations
    show ((l.journal ++ r.2.metrics).map Metric.rotations).sum + 1 = r.1.stats.batchesCreated
    rw [List.map_append, List.sum_append, hposted.rotations, hr.created]
    omega
  · show ((l.journal ++ r.2.metrics).map Metric.retries).sum = r.1.stats.retries
    rw [List.map_append, List.sum_append, h.retries, hposted.retries, hr.retries]
  · show (l.journal ++ r.2.metrics).flatMap Metric.sizes = r.2.store.batchSizes
    rw [List.flatMap_append, h.sizes, hposted.sizes]
  · show ((l.journal ++ r.2.metrics).map Metric.failures).sum = (l.settled ++ r.2.settled).countP _
    rw [List.map_append, List.sum_append, List.countP_append, h.failures, hposted.failures]

theorem Kept.step (h : l.Kept attempts) (e : Event σ) : (l.step e).Kept attempts := by
  have hnone : ({} : Posting).retries = attempts * 0 := (Nat.mul_zero _).symm
  cases e with
  | enqueue op =>
    rcases h.stocked with ⟨size, full, current, hbacklog⟩ | hclosed
    · obtain ⟨rotations, hbooked⟩ := hbacklog.booked_enqueue op l.store
      have hok := (hbacklog.enqueue op).1
      simp only [Ledger.step, hok]
      exact h.absorb hbooked hnone
    · have hbooked := hclosed.booked_enqueue op l.store
      have herror : (l.pipeline.enqueue op).1.isOk = false := by
        rw [Pipeline.enqueue, Pipeline.enqueueWithin_of_no_slot hclosed.slot]
        rfl
      simp only [Ledger.step, herror]
      exact h.absorb hbooked (h.maxAttempts.trans (Nat.mul_one _).symm)
  | background id =>
    by_cases hid : id ∈ l.pipeline.background
    · simp only [Ledger.step, if_pos hid]
      rcases h.stocked with ⟨size, full, current, hbacklog⟩ | hclosed
      · exact h.absorb (hbacklog.booked_executeBatch hid l.store) hnone
      · rw [hclosed.background] at hid
        cases hid
    · simp only [Ledger.step, if_neg hid]
      exact h
  | flush =>
    rcases h.stocked with ⟨size, full, current, hbacklog⟩ | hclosed
    · exact h.absorb (hbacklog.booked_flush l.store) hnone
    · exact h.absorb (hclosed.booked_flush l.store) hnone
  | shutdown =>
    rcases h.stocked with ⟨size, full, current, hbacklog⟩ | hclosed
    · exact h.absorb (hbacklog.booked_shutdown l.store) hnone
    · exact h.absorb (hclosed.booked_shutdown l.store) hnone
  | outside change =>
    exact ⟨h.stocked, h.maxAttempts, h.created, h.held, h.rejected, h.metrics, h.taken,
      h.rotations, h.retries, h.sizes, h.failures⟩

theorem Kept.run (h : l.Kept attempts) (events : List (Event σ)) : (l.run events).Kept attempts := by
  induction events generalizing l with
  | nil => exact h
  | cons e events ih => exact ih (h.step e)

omit [Store σ] in
/-- What waits in a pipeline waits in the slot or in the background. -/
theorem held_eq {p : Pipeline} (h : p.Stocked) :
    p.held =
      p.pending + (p.background.map fun id => ((p.waiting? id).getD []).length).sum := by
  rcases h with ⟨size, full, current, h⟩ | h
  · have hbackground : (p.background.map fun id => ((p.waiting? id).getD []).length) =
        full.map Batch.length := by
      rw [h.background, List.map_map]
      apply List.map_congr_left
      intro b hb
      have hwaiting := Pipeline.waiting?_of_mem h.distinct
        (h.batches ▸ List.mem_append_left _ hb : b ∈ p.batches)
      rw [Function.comp_apply, hwaiting]
      rfl
    rw [h.held_eq, h.pending_eq, hbackground, Nat.add_comm]
    rfl
  · rw [Pipeline.held, Pipeline.pending, h.slot, h.batches, h.background]
    rfl

omit [Store σ] in
theorem Kept.balanced (h : l.Kept (max 1 attempts)) : l.Balanced attempts := by
  refine ⟨h.created, ?_, h.rejected, ?_, ?_, ?_, ?_, ?_⟩
  · rw [← held_eq h.stocked, h.held]
  · rw [Snapshot.sum_enqueued h.metrics, h.taken]
  · rw [Snapshot.counter_rotations h.metrics, h.rotations]
  · rw [Snapshot.sum_retries h.metrics, h.retries]
  · rw [Snapshot.histogram_sizes, h.sizes]
  · rw [Snapshot.counter_failures h.metrics, h.failures]

/-- Whatever is asked of a pipeline and whatever its store does: its statistics and its metrics, what its
store was sent and what waits in it form a consistent ledger. -/
theorem balanced_run {executor : Bool} {size : Nat} {p : Pipeline}
    (hstart : Pipeline.start executor size attempts = .ok p) (s : σ) (events : List (Event σ)) :
    (({ pipeline := p, store := ⟨s, []⟩ } : Ledger σ).run events).Balanced attempts := by
  obtain ⟨-, rfl⟩ := Pipeline.of_start_ok hstart
  have hbacklog := Pipeline.backlog_first size attempts
  apply Kept.balanced
  apply Kept.run
  exact ⟨.inl ⟨_, _, _, hbacklog⟩, Nat.max_comm _ _, rfl, rfl, (Nat.mul_zero _).symm, nofun, rfl, rfl,
    rfl, rfl, rfl⟩

theorem balanced_through_failure :
    let op (token : Token) : PendingOp := ⟨.set "k" [] none, none, token⟩
    let events : List (Event Memory) :=
      [.enqueue (op 0), .enqueue (op 1), .enqueue (op 2), .enqueue (op 3), .background 1,
        .outside fun s => { s with failing := true }, .flush, .enqueue (op 4),
        .outside fun s => { s with failing := false }, .shutdown, .enqueue (op 5), .flush]
    let s : Memory := {}
    ∃ p, Pipeline.start true 2 0 = .ok p ∧
      (({ pipeline := p, store := ⟨s, []⟩ } : Ledger Memory).run events).Balanced 0 := by
  intro op events s
  obtain ⟨p, hstart⟩ : ∃ p, Pipeline.start true 2 0 = .ok p := ⟨_, rfl⟩
  exact ⟨p, hstart, balanced_run hstart s events⟩

end Ledger

end BatchingCache
