import BatchingCache.Pipeline
import Mathlib.Algebra.BigOperators.Group.List.Basic
import Mathlib.Algebra.GroupWithZero.Nat
/-!
# The series of a pipeline

A snapshot adds up what is recorded, metric by metric.  For what a pipeline records, every series of
its counters comes to the sum of one number per metric.
-/

namespace BatchingCache

/-! ## Snapshots -/

def Sample.amount (series : String) : Sample → Nat
  | count series' n => if series' = series then n else 0
  | _ => 0

def Sample.values (series : String) : Sample → List Nat
  | value series' n => if series' = series then [n] else []
  | _ => []

def Metric.amount (series : String) (m : Metric) : Nat :=
  (m.samples.map (Sample.amount series)).sum

def Metric.values (series : String) (m : Metric) : List Nat :=
  m.samples.flatMap (Sample.values series)

namespace Snapshot

def counter (s : Snapshot) (series : String) : Nat := (s.counters.get? series).getD 0

def histogram (s : Snapshot) (series : String) : List Nat := (s.histograms.get? series).getD []

theorem counter_add (s : Snapshot) (x : Sample) (series : String) :
    (s.add x).counter series = s.counter series + x.amount series := by
  cases x with
  | count series' n =>
    simp only [Sample.amount, counter, add]
    by_cases h : series' = series
    · rw [if_pos h, h, KeyMap.get?_insert_self, Option.getD_some]
    · rw [if_neg h, KeyMap.get?_insert_of_ne _ _ h, Nat.add_zero]
  | gauge series' n => rfl
  | value series' n => rfl
  | time series' => rfl

theorem histogram_add (s : Snapshot) (x : Sample) (series : String) :
    (s.add x).histogram series = s.histogram series ++ x.values series := by
  cases x with
  | value series' n =>
    simp only [Sample.values, histogram, add]
    by_cases h : series' = series
    · rw [if_pos h, h, KeyMap.get?_insert_self, Option.getD_some]
    · rw [if_neg h, KeyMap.get?_insert_of_ne _ _ h, List.append_nil]
  | gauge series' n => exact (List.append_nil _).symm
  | count series' n => exact (List.append_nil _).symm
  | time series' => exact (List.append_nil _).symm

theorem counter_ofMetrics (ms : List Metric) (series : String) :
    (ofMetrics ms).counter series = (ms.map (Metric.amount series)).sum := by
  have hfold : ∀ (xs : List Sample) (s : Snapshot),
      (xs.foldl add s).counter series = s.counter series + (xs.map (Sample.amount series)).sum := by
    intro xs
    induction xs with
    | nil => exact fun s => rfl
    | cons x xs ih =>
      intro s
      rw [List.foldl_cons, ih, counter_add, List.map_cons, List.sum_cons, Nat.add_assoc]
  rw [ofMetrics, hfold, List.map_flatMap, List.flatMap, List.sum_flatten, List.map_map]
  exact Nat.zero_add _

theorem histogram_ofMetrics (ms : List Metric) (series : String) :
    (ofMetrics ms).histogram series = ms.flatMap (Metric.values series) := by
  have hfold : ∀ (xs : List Sample) (s : Snapshot),
      (xs.foldl add s).histogram series = s.histogram series ++ xs.flatMap (Sample.values series) := by
    intro xs
    induction xs with
    | nil => exact fun s => (List.append_nil _).symm
    | cons x xs ih =>
      intro s
      rw [List.foldl_cons, ih, histogram_add, List.flatMap_cons, List.append_assoc]
  rw [ofMetrics, hfold, List.flatMap_assoc]
  rfl

end Snapshot

/-! ## What a pipeline records -/

def mutationKinds : List String := ["set", "compare_and_set", "delete", "scored_add"]

def retryReasons : List String := ["retired", "not_initialized"]

theorem Mutation.kind_mem (m : Mutation) : m.kind ∈ mutationKinds := by
  cases m <;> simp [kind, mutationKinds]

def enqueuedSeries : List String :=
  mutationKinds.map fun kind => seriesName "enqueued_total" [("kind", kind)]

def retrySeries : List String :=
  retryReasons.map fun reason => seriesName "batch_retries_total" [("reason", reason)]

def rotationSeries : String := seriesName "batch_rotations_total" []

def failureSeries : String := seriesName "batch_ops_failed_total" []

def executedSeries : List String :=
  ["success", "partial"].map fun status => seriesName "batches_executed_total" [("status", status)]

def sizeSeries : String := seriesName "batch_size" []

namespace Metric

/-- What a pipeline records when it takes no time to execute anything. -/
def ofQueueing : List Metric :=
  mutationKinds.map enqueued ++ retryReasons.map batchRetry ++ mutationKinds.map enqueueRejected ++
    [rotation]

def OfExecution : Metric → Prop
  | batchExecuted _ _ => True
  | batchesInFlight _ => True
  | _ => False

def OfPipeline (m : Metric) : Prop := m ∈ ofQueueing ∨ m.OfExecution

def taken : Metric → Nat
  | enqueued _ => 1
  | _ => 0

def rotations : Metric → Nat
  | rotation => 1
  | _ => 0

def retries : Metric → Nat
  | batchRetry _ => 1
  | _ => 0

def failures : Metric → Nat
  | batchExecuted _ failed => failed
  | _ => 0

def sizes : Metric → List Nat
  | batchExecuted total _ => [total]
  | _ => []

variable {m : Metric} {ms : List Metric} {series : List String} {f : Metric → Nat}

theorem amount_batchExecuted {x : String} (hx : x ∉ executedSeries) (total failed : Nat) :
    (batchExecuted total failed).amount x = if failureSeries = x then failed else 0 := by
  have hsuccess : seriesName "batches_executed_total" [("status", "success")] ≠ x := by
    rintro rfl
    exact hx List.mem_cons_self
  have hpartial : seriesName "batches_executed_total" [("status", "partial")] ≠ x := by
    rintro rfl
    exact hx (List.mem_cons_of_mem _ List.mem_cons_self)
  unfold amount samples failureSeries
  cases failed with
  | zero => simp [Sample.amount, hsuccess]
  | succ failed => simp [Sample.amount, hpartial]

theorem sum_amount_batchExecuted (hseries : ∀ x ∈ series, x ∉ executedSeries) (total failed : Nat) :
    (series.map fun x => (batchExecuted total failed).amount x).sum =
      series.count failureSeries * failed := by
  induction series with
  | nil => simp
  | cons x series ih =>
    obtain ⟨hx, hseries⟩ := List.forall_mem_cons.1 hseries
    rw [List.map_cons, List.sum_cons, ih hseries, amount_batchExecuted hx, List.count_cons]
    by_cases h : failureSeries = x
    · rw [if_pos h, if_pos (beq_iff_eq.2 h.symm), Nat.add_mul, Nat.one_mul, Nat.add_comm]
    · rw [if_neg h, if_neg (mt beq_iff_eq.1 (Ne.symm h)), Nat.zero_add, Nat.add_zero]

/-- What a metric of a pipeline adds to some counters, by the cases that can be computed. -/
theorem sum_amount (hqueueing : ∀ m ∈ ofQueueing, (series.map fun x => m.amount x).sum = f m)
    (hseries : ∀ x ∈ series, x ∉ executedSeries)
    (hexecuted : ∀ total failed, f (batchExecuted total failed) = series.count failureSeries * failed)
    (hinFlight : ∀ count, f (batchesInFlight count) = 0) (hm : m.OfPipeline) :
    (series.map fun x => m.amount x).sum = f m := by
  rcases hm with hm | hm
  · exact hqueueing m hm
  · cases m with
    | batchExecuted total failed =>
      rw [sum_amount_batchExecuted hseries, hexecuted]
    | batchesInFlight count =>
      rw [hinFlight]
      apply List.sum_eq_zero
      intro n hn
      obtain ⟨x, -, rfl⟩ := List.mem_map.1 hn
      rfl
    | _ => exact hm.elim

/-- If each metric adds `f` of it to some counters, these come to the sum of that. -/
theorem sum_counters (hqueueing : ∀ m ∈ ofQueueing, (series.map fun x => m.amount x).sum = f m)
    (hseries : ∀ x ∈ series, x ∉ executedSeries)
    (hexecuted : ∀ total failed, f (batchExecuted total failed) = series.count failureSeries * failed)
    (hinFlight : ∀ count, f (batchesInFlight count) = 0) (hms : ∀ m ∈ ms, m.OfPipeline) :
    (series.map (Snapshot.ofMetrics ms).counter).sum = (ms.map f).sum := by
  have hcounter : (Snapshot.ofMetrics ms).counter = fun x => (ms.map (amount x)).sum :=
    funext (Snapshot.counter_ofMetrics ms)
  rw [hcounter]
  induction ms with
  | nil => simp
  | cons m ms ih =>
    obtain ⟨hm, hms⟩ := List.forall_mem_cons.1 hms
    have hhead := sum_amount hqueueing hseries hexecuted hinFlight hm
    simp only [List.map_cons, List.sum_cons, List.sum_map_add]
    rw [hhead, ih hms (funext (Snapshot.counter_ofMetrics ms))]

theorem values_sizeSeries (m : Metric) : m.values sizeSeries = m.sizes := by
  have hpages : seriesName "scan_pages" [] ≠ sizeSeries := by decide
  have hentries : seriesName "scan_entries" [] ≠ sizeSeries := by decide
  cases m with
  | batchExecuted total failed =>
    unfold values samples
    cases failed with
    | zero => simp [Sample.values, sizes, sizeSeries]
    | succ failed => simp [Sample.values, sizes, sizeSeries]
  | scan pages entries => simp [values, samples, Sample.values, sizes, hpages, hentries]
  | _ => rfl

end Metric

namespace Snapshot

variable {ms : List Metric}

theorem sum_enqueued (hms : ∀ m ∈ ms, m.OfPipeline) :
    (enqueuedSeries.map (ofMetrics ms).counter).sum = (ms.map Metric.taken).sum := by
  have hcount : enqueuedSeries.count failureSeries = 0 := by decide
  refine Metric.sum_counters (by decide) (by decide) ?_ (fun _ => rfl) hms
  intro total failed
  rw [hcount, Nat.zero_mul]
  rfl

theorem sum_retries (hms : ∀ m ∈ ms, m.OfPipeline) :
    (retrySeries.map (ofMetrics ms).counter).sum = (ms.map Metric.retries).sum := by
  have hcount : retrySeries.count failureSeries = 0 := by decide
  refine Metric.sum_counters (by decide) (by decide) ?_ (fun _ => rfl) hms
  intro total failed
  rw [hcount, Nat.zero_mul]
  rfl

theorem counter_rotations (hms : ∀ m ∈ ms, m.OfPipeline) :
    (ofMetrics ms).counter rotationSeries = (ms.map Metric.rotations).sum := by
  have hcount : [rotationSeries].count failureSeries = 0 := by decide
  have hsum : ([rotationSeries].map (ofMetrics ms).counter).sum = (ms.map Metric.rotations).sum := by
    refine Metric.sum_counters (by decide) (by decide) ?_ (fun _ => rfl) hms
    intro total failed
    rw [hcount, Nat.zero_mul]
    rfl
  rwa [List.map_singleton, List.sum_singleton] at hsum

theorem counter_failures (hms : ∀ m ∈ ms, m.OfPipeline) :
    (ofMetrics ms).counter failureSeries = (ms.map Metric.failures).sum := by
  have hcount : [failureSeries].count failureSeries = 1 := by decide
  have hsum : ([failureSeries].map (ofMetrics ms).counter).sum = (ms.map Metric.failures).sum := by
    refine Metric.sum_counters (by decide) (by decide) ?_ (fun _ => rfl) hms
    intro total failed
    rw [hcount, Nat.one_mul]
    rfl
  rwa [List.map_singleton, List.sum_singleton] at hsum

theorem histogram_sizes (ms : List Metric) :
    (ofMetrics ms).histogram sizeSeries = ms.flatMap Metric.sizes := by
  rw [histogram_ofMetrics]
  exact congrArg (fun f => ms.flatMap f) (funext Metric.values_sizeSeries)

end Snapshot

end BatchingCache
