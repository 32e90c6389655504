import BatchingCache.Proofs.Pipeline.Backlog
import BatchingCache.Proofs.Pipeline.Series
import BatchingCache.Proofs.Store.Observed
/-!
# What a pipeline enters into its books

The statistics, the metrics and what the store is sent are three books.  Every step of a pipeline is
entered into all of them alike.
-/

namespace BatchingCache

variable {σ : Type}

/-! ## The sizes of batches -/

def Call.batchSize? : Call → Option Nat
  | .batch ms => some ms.length
  | _ => none

def Observed.batchSizes (s : Observed σ) : List Nat := s.calls.filterMap Call.batchSize?

def Pipeline.held (p : Pipeline) : Nat := (p.batches.map Batch.length).sum

def isSettledFailed (x : Settlement) : Bool := !Batch.isSettledOk x

section

variable [Store σ] {s : Observed σ}

theorem Observed.batchSizes_run (id : Nat) (ops : List PendingOp) :
    (Batch.run id ops s).store.batchSizes =
      s.batchSizes ++ (Batch.run id ops s).metrics.flatMap Metric.sizes := by
  cases ops with
  | nil => exact (List.append_nil _).symm
  | cons op ops =>
    have htotal := Batch.total_run id (op :: ops) s
    unfold batchSizes
    rw [calls_run, List.filterMap_append]
    rw [Batch.run_cons] at htotal ⊢
    show _ ++ [((op :: ops).map PendingOp.mutation).length] = _ ++ [(Batch.tally _).total]
    rw [List.length_map, htotal]

theorem Observed.sum_batchSizes_run (id : Nat) (ops : List PendingOp) :
    (Batch.run id ops s).store.batchSizes.sum = s.batchSizes.sum + ops.length := by
  unfold batchSizes
  rw [calls_run, List.filterMap_append, List.sum_append]
  cases ops with
  | nil => rfl
  | cons op ops =>
    show _ + (((op :: ops).map PendingOp.mutation).length + 0) = _
    rw [List.length_map, Nat.add_zero]

theorem Observed.sum_batchSizes_storeAfter (bs : List Batch) :
    (Batch.storeAfter bs s).batchSizes.sum = s.batchSizes.sum + (bs.map Batch.length).sum := by
  induction bs generalizing s with
  | nil => rfl
  | cons b bs ih =>
    rw [Batch.storeAfter, ih, sum_batchSizes_run, List.map_cons, List.sum_cons, Nat.add_assoc]
    rfl

end

/-! ## Postings -/

/-- What a step enters into the statistics: mutations that were taken, batches that left the slot for
a fresh one, and attempts that found no batch. -/
structure Posting where
  taken : Nat := 0
  rotations : Nat := 0
  retries : Nat := 0

/-- An execution enters the same into the metrics, and besides the sizes of the batches that it sends
and the number of mutations that fail. -/
structure Execution.Posted (x : Posting) (s : Observed σ) (e : Execution (Observed σ)) : Prop where
  metrics : ∀ m ∈ e.metrics, m.OfPipeline
  taken : (e.metrics.map Metric.taken).sum = x.taken
  rotations : (e.metrics.map Metric.rotations).sum = x.rotations
  retries : (e.metrics.map Metric.retries).sum = x.retries
  sizes : e.store.batchSizes = s.batchSizes ++ e.metrics.flatMap Metric.sizes
  failures : (e.metrics.map Metric.failures).sum = e.settled.countP isSettledFailed

namespace Execution

variable {x x' : Posting} {s : Observed σ} {e e' : Execution (Observed σ)}

theorem posted_nothing (s : Observed σ) : Posted {} s ⟨{}, s, [], []⟩ :=
  ⟨nofun, rfl, rfl, rfl, (List.append_nil _).symm, rfl⟩

theorem posted_single (m : Metric) (hm : m.OfPipeline) (hsizes : m.sizes = [])
    (hfailures : m.failures = 0) (s : Observed σ) :
    Posted ⟨m.taken, m.rotations, m.retries⟩ s ⟨{}, s, [], [m]⟩ := by
  refine ⟨?_, Nat.add_zero _, Nat.add_zero _, Nat.add_zero _, ?_, ?_⟩
  · intro m' hm'
    rwa [List.mem_singleton.1 hm']
  · rw [List.flatMap_singleton, hsizes, List.append_nil]
  · rw [List.map_singleton, List.sum_singleton, hfailures]
    rfl

theorem Posted.andThen (h : Posted x s e) (h' : Posted x' e.store e') (result : BatchResult) :
    Posted ⟨x.taken + x'.taken, x.rotations + x'.rotations, x.retries + x'.retries⟩ s
      ⟨result, e'.store, e.settled ++ e'.settled, e.metrics ++ e'.metrics⟩ := by
  refine ⟨?_, ?_, ?_, ?_, ?_, ?_⟩
  · intro m hm
    exact (List.mem_append.1 hm).elim (h.metrics m) (h'.metrics m)
  · rw [List.map_append, List.sum_append, h.taken, h'.taken]
  · rw [List.map_append, List.sum_append, h.rotations, h'.rotations]
  · rw [List.map_append, List.sum_append, h.retries, h'.retries]
  · rw [h'.sizes, h.sizes, List.flatMap_append, List.append_assoc]
  · rw [List.map_append, List.sum_append, List.countP_append, h.failures, h'.failures]

theorem posted_inFlight (s : Observed σ) (count : Nat) :
    Posted {} s ⟨{}, s, [], [.batchesInFlight count]⟩ :=
  posted_single (.batchesInFlight count) (.inr trivial) rfl rfl s

theorem posted_rotation (s : Observed σ) : Posted { rotations := 1 } s ⟨{}, s, [], [.rotation]⟩ :=
  posted_single .rotation (.inl (by decide)) rfl rfl s

end Execution

namespace Pipeline

open Execution

variable {p : Pipeline} {id : Nat}

/-! ## What executions enter -/

section

variable [Store σ] {s : Observed σ}

theorem posted_run (id : Nat) (ops : List PendingOp) : Posted {} s (Batch.run id ops s) := by
  cases ops with
  | nil => exact posted_nothing s
  | cons op ops =>
    refine ⟨?_, rfl, rfl, rfl, Observed.batchSizes_run id _, ?_⟩
    · intro m hm
      rw [Batch.run_cons, List.mem_singleton] at hm
      rw [hm]
      exact .inr trivial
    · rw [Batch.run_cons]
      exact Nat.add_zero _

theorem posted_executeBatch (id : Nat) : Posted {} s (p.executeBatch id s).2 := by
  rw [executeBatch_eq]
  exact posted_run id _

theorem posted_executeAll (ids : List Nat) : Posted {} s (executeAll ids p s).2 := by
  induction ids generalizing p s with
  | nil => exact posted_nothing s
  | cons id ids ih => exact (posted_executeBatch id).andThen ih _

theorem posted_finish (taken : Option Nat) : Posted {} s (p.finish taken s).2 := by
  have hdrain : Posted {} s (p.drain s).2 := by
    have hall := posted_executeAll (s := s) (p := { p with inFlight := [], background := [] })
      p.background
    have hdrain := hall.andThen (posted_inFlight _ 0) (p.drain s).2.result
    rw [List.append_nil] at hdrain
    exact hdrain
  cases taken with
  | none => exact hdrain.andThen (posted_nothing _) _
  | some id => exact hdrain.andThen (posted_executeBatch id) _

theorem posted_flush (hslot : p.slot = some id) : Posted { rotations := 1 } s (p.flush s).2 := by
  rw [flush, rotate, hslot]
  exact (posted_rotation s).andThen (posted_finish (some id)) _

end

/-! ## What queueing enters -/

theorem posted_enqueued (op : PendingOp) (s : Observed σ) :
    Posted { taken := 1 } s ⟨{}, s, [], [.enqueued op.mutation.kind]⟩ :=
  posted_single (.enqueued _) (.inl (by simp [Metric.ofQueueing, op.mutation.kind_mem])) rfl rfl s

theorem posted_rejected (op : PendingOp) (attempts : Nat) (s : Observed σ) :
    Posted { retries := attempts } s ⟨{}, s, [],
      List.replicate attempts (.batchRetry (retryReason .notInstalled)) ++
        [.enqueueRejected op.mutation.kind]⟩ := by
  induction attempts with
  | zero =>
    have hm : .enqueueRejected op.mutation.kind ∈ Metric.ofQueueing := by
      simp [Metric.ofQueueing, op.mutation.kind_mem]
    exact posted_single _ (.inl hm) rfl rfl s
  | succ attempts ih =>
    have hretry : Posted { retries := 1 } s ⟨{}, s, [], [.batchRetry (retryReason .notInstalled)]⟩ :=
      posted_single (.batchRetry _) (.inl (by decide)) rfl rfl s
    have hall := hretry.andThen ih {}
    rw [Nat.add_comm 1] at hall
    exact hall

/-! ## What a step enters -/

structure Closed (p : Pipeline) : Prop where
  slot : p.slot = none
  batches : p.batches = []
  background : p.background = []

def Stocked (p : Pipeline) : Prop :=
  (∃ size full current, p.Backlog size full current) ∨ p.Closed

def installed (p : Pipeline) : Nat := if p.isRunning then 1 else 0

structure Booked (p : Pipeline) (s : Observed σ) (x : Posting)
    (r : Pipeline × Execution (Observed σ)) : Prop where
  stocked : r.1.Stocked
  attempts : r.1.maxAttempts = p.maxAttempts
  created : r.1.stats.batchesCreated = p.stats.batchesCreated + x.rotations
  flushed : r.1.stats.batchesFlushed + r.1.installed =
    p.stats.batchesFlushed + p.installed + x.rotations
  enqueued : r.1.stats.opsEnqueued = p.stats.opsEnqueued + x.taken
  retries : r.1.stats.retries = p.stats.retries + x.retries
  held : r.1.held + r.2.store.batchSizes.sum = p.held + s.batchSizes.sum + x.taken
  posted : r.2.Posted x s

variable {size : Nat} {full : List Batch} {current : Batch} {op : PendingOp} {s : Observed σ}

theorem Backlog.held_eq (h : p.Backlog size full current) :
    p.held = (full.map Batch.length).sum + current.length := by
  rw [held, h.batches, List.map_append, List.sum_append, List.map_singleton, List.sum_singleton]

theorem Backlog.installed_eq (h : p.Backlog size full current) : p.installed = 1 := by
  rw [installed, isRunning, h.slot]
  rfl

theorem Closed.installed_eq (h : p.Closed) : p.installed = 0 := by
  rw [installed, isRunning, h.slot]
  rfl

theorem Booked.andThen {x x' : Posting} {r r' : Pipeline × Execution (Observed σ)}
    (h : Booked p s x r) (h' : Booked r.1 r.2.store x' r') (result : BatchResult) :
    Booked p s ⟨x.taken + x'.taken, x.rotations + x'.rotations, x.retries + x'.retries⟩
      (r'.1, ⟨result, r'.2.store, r.2.settled ++ r'.2.settled, r.2.metrics ++ r'.2.metrics⟩) := by
  have hflushed := h.flushed
  have hflushed' := h'.flushed
  have hheld := h.held
  have hheld' := h'.held
  refine ⟨h'.stocked, h'.attempts.trans h.attempts, ?_, ?_, ?_, ?_, ?_,
    h.posted.andThen h'.posted result⟩
  · rw [h'.created, h.created, Nat.add_assoc]
  · simp only
    omega
  · rw [h'.enqueued, h.enqueued, Nat.add_assoc]
  · rw [h'.retries, h.retries, Nat.add_assoc]
  · simp only
    omega

theorem booked_of_stats {x : Posting} {r : Pipeline × Execution (Observed σ)} (n : Nat)
    (hstocked : r.1.Stocked) (hattempts : r.1.maxAttempts = p.maxAttempts)
    (hstats : r.1.stats =
      { batchesCreated := p.stats.batchesCreated + x.rotations
        batchesFlushed := p.stats.batchesFlushed + n
        opsEnqueued := p.stats.opsEnqueued + x.taken
        retries := p.stats.retries + x.retries })
    (hinstalled : n + r.1.installed = p.installed + x.rotations)
    (hheld : r.1.held + r.2.store.batchSizes.sum = p.held + s.batchSizes.sum + x.taken)
    (hposted : r.2.Posted x s) : Booked p s x r := by
  refine ⟨hstocked, hattempts, ?_, ?_, ?_, ?_, hheld, hposted⟩
  · rw [hstats]
  · rw [hstats]
    show p.stats.batchesFlushed + n + r.1.installed = _
    omega
  · rw [hstats]
  · rw [hstats]

theorem Backlog.booked_taken (h : p.Backlog size full current) (op : PendingOp) (s : Observed σ) :
    Booked p s { taken := 1 } ((p.replace (current.extend op)).countEnqueued,
      ⟨{}, s, [], [.enqueued op.mutation.kind]⟩) := by
  have hbacklog := h.countEnqueued op
  refine booked_of_stats 0 (.inl ⟨_, _, _, hbacklog⟩) rfl rfl ?_ ?_ (posted_enqueued op s)
  · rw [hbacklog.installed_eq, h.installed_eq]
    rfl
  · have hlength : (current.extend op).length = current.length + 1 := List.length_append
    show Pipeline.held _ + s.batchSizes.sum = p.held + s.batchSizes.sum + 1
    rw [hbacklog.held_eq, h.held_eq, hlength]
    omega

theorem Backlog.booked_rotateFull (h : p.Backlog size full current) (s : Observed σ) :
    Booked p s { rotations := 1 } ((p.rotateFull current.id).1,
      ⟨{}, s, [], (p.rotateFull current.id).2⟩) := by
  have hbacklog := h.rotateFull
  have hheld : (p.rotateFull current.id).1.held = p.held := by
    rw [hbacklog.held_eq, h.held_eq, List.map_append, List.sum_append]
    rfl
  have hinstalled := hbacklog.installed_eq
  obtain ⟨inFlight, hrotated⟩ := rotateFull_of_slot h.slot
  obtain ⟨count, hmetrics⟩ := metrics_rotateFull_of_slot h.slot
  have hposted := (posted_rotation s).andThen (posted_inFlight s count) {}
  rw [hmetrics]
  refine booked_of_stats 1 (.inl ⟨_, _, _, hbacklog⟩) ?_ ?_ ?_ ?_ hposted
  · rw [hrotated]
    rfl
  · rw [hrotated]
    rfl
  · rw [hinstalled, h.installed_eq]
  · show (p.rotateFull current.id).1.held + _ = _
    rw [hheld]
    rfl

theorem Backlog.booked_enqueue (h : p.Backlog size full current) (op : PendingOp) (s : Observed σ) :
    ∃ rotations, Booked p s { taken := 1, rotations }
      ((p.enqueue op).2.1, ⟨{}, s, [], (p.enqueue op).2.2⟩) := by
  have hpipeline := (enqueue_of_waiting? op h.wellFormed h.attempts h.slot h.waiting?_current).2
  have hmetrics :=
    metrics_enqueue_of_waiting? op h.wellFormed h.attempts h.slot h.waiting?_current
  rw [hpipeline, hmetrics]
  have htaken := h.booked_taken op s
  split
  · exact ⟨_, htaken.andThen ((h.countEnqueued op).booked_rotateFull s) {}⟩
  · exact ⟨_, htaken⟩

theorem Closed.booked_enqueue (h : p.Closed) (op : PendingOp) (s : Observed σ) :
    Booked p s { retries := p.maxAttempts } ((p.enqueue op).2.1, ⟨{}, s, [], (p.enqueue op).2.2⟩) := by
  rw [enqueue, enqueueWithin_of_no_slot h.slot]
  refine ⟨.inr ⟨h.slot, h.batches, h.background⟩, rfl, rfl, rfl, rfl, rfl, rfl, ?_⟩
  exact posted_rejected op p.maxAttempts s

variable [Store σ]

theorem Backlog.booked_executeBatch (h : p.Backlog size full current) (hid : id ∈ p.background)
    (s : Observed σ) :
    Booked p s {} ({ p with background := p.background.erase id }.executeBatch id s) := by
  obtain ⟨front, b, back, rfl, hrun, hpipeline, hbacklog⟩ := h.executeBatch (s := s) hid
  have hinstalled := hbacklog.installed_eq
  have hheld := hbacklog.held_eq
  have hsum := Observed.sum_batchSizes_run (s := s) id b.pending
  rw [← hrun] at hsum
  refine booked_of_stats 0 (.inl ⟨_, _, _, hbacklog⟩) ?_ ?_ ?_ ?_ (posted_executeBatch id)
  · rw [hpipeline]
  · rw [hpipeline]
    rfl
  · rw [hinstalled, h.installed_eq]
    rfl
  · have hlength : b.pending.length = b.length := rfl
    rw [hheld, hsum, h.held_eq, hlength]
    simp only [List.map_append, List.map_cons, List.sum_append, List.sum_cons]
    omega

theorem Backlog.booked_flush (h : p.Backlog size full current) (s : Observed σ) :
    Booked p s { rotations := 1 } (p.flush s) := by
  obtain ⟨hbacklog, -⟩ := h.flush (s := s)
  obtain ⟨hpipeline, hstore, -⟩ := h.flush_eq (s := s)
  have hinstalled := hbacklog.installed_eq
  have hsum := Observed.sum_batchSizes_storeAfter (s := s) (full ++ [current])
  rw [← hstore, ← h.batches] at hsum
  refine booked_of_stats 1 (.inl ⟨_, _, _, hbacklog⟩) ?_ ?_ ?_ ?_ (posted_flush h.slot)
  · rw [hpipeline]
    rfl
  · rw [hpipeline]
    rfl
  · rw [hinstalled, h.installed_eq]
  · rw [hbacklog.held_eq, hsum, held]
    show 0 + 0 + _ = _ + 0
    omega

theorem Backlog.closed_shutdown {σ : Type} [Store σ] (h : p.Backlog size full current) (s : σ) :
    (p.shutdown s).1.Closed := by
  obtain ⟨hpipeline, -⟩ := h.shutdown_eq (s := s)
  rw [hpipeline]
  exact ⟨rfl, rfl, rfl⟩

theorem Backlog.booked_shutdown (h : p.Backlog size full current) (s : Observed σ) :
    Booked p s {} (p.shutdown s) := by
  obtain ⟨hpipeline, hstore, -⟩ := h.shutdown_eq (s := s)
  have hclosed := h.closed_shutdown s
  have hinstalled := hclosed.installed_eq
  have hsum := Observed.sum_batchSizes_storeAfter (s := s) (full ++ [current])
  rw [← hstore, ← h.batches] at hsum
  refine booked_of_stats 1 (.inr hclosed) ?_ ?_ ?_ ?_ (posted_finish _)
  · rw [hpipeline]
    rfl
  · rw [hpipeline]
    rfl
  · rw [hinstalled, h.installed_eq]
  · rw [held, hclosed.batches, hsum, held]
    show 0 + _ = _ + 0
    omega

theorem Closed.finish_eq {σ : Type} [Store σ] (h : p.Closed) (s : σ) :
    p.finish none s =
      ({ p with background := [], inFlight := [] }, ⟨{}, s, [], [.batchesInFlight 0]⟩) := by
  unfold finish drain runBackground
  rw [h.background]
  rfl

theorem Closed.flush_eq {σ : Type} [Store σ] (h : p.Closed) (s : σ) :
    p.flush s = p.finish none s := by
  rw [flush, rotate, h.slot]
  rfl

theorem Closed.shutdown_eq {σ : Type} [Store σ] (h : p.Closed) (s : σ) :
    p.shutdown s = p.finish none s := by
  have hslot := h.slot
  obtain ⟨batchSize, maxAttempts, slot, batches, background, inFlight, nextId, stats⟩ := p
  cases hslot
  rfl

theorem Closed.booked_finish (h : p.Closed) (s : Observed σ) : Booked p s {} (p.finish none s) := by
  rw [h.finish_eq]
  exact ⟨.inr ⟨h.slot, h.batches, rfl⟩, rfl, rfl, rfl, rfl, rfl, rfl, posted_inFlight s 0⟩

theorem Closed.booked_flush (h : p.Closed) (s : Observed σ) : Booked p s {} (p.flush s) := by
  rw [h.flush_eq]
  exact h.booked_finish s

theorem Closed.booked_shutdown (h : p.Closed) (s : Observed σ) : Booked p s {} (p.shutdown s) := by
  rw [h.shutdown_eq]
  exact h.booked_finish s

end Pipeline

end BatchingCache
