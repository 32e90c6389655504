import BatchingCache.KeyMap
import BatchingCache.Number.Decimal
/-!
# Metrics

What is recorded while a cache works.  Operations give lists of metrics; a snapshot adds up the
counters, keeps the last value of every gauge and all values of every histogram.
-/

namespace BatchingCache

inductive Metric where
  | operation (name status : String)
  | latency (name : String)
  | validationError (name : String)
  | enqueued (kind : String)
  | batchRetry (reason : String)
  | enqueueRejected (kind : String)
  | rotation
  | batchExecuted (total failed : Nat)
  | batchesInFlight (count : Nat)
  | scan (pages entries : Nat)
  | backendHealthy (healthy : Bool)
  deriving DecidableEq, Repr

/-- How a metric bears on a series. -/
inductive Sample where
  | count (series : String) (n : Nat)
  | gauge (series : String) (n : Nat)
  | value (series : String) (n : Nat)
  | time (series : String)
  deriving DecidableEq, Repr

def seriesName (name : String) (labels : List (String × String)) : String :=
  let name := "pipelined_cache_" ++ name
  if labels.isEmpty then name
  else
    let label := fun (l : String × String) => l.1 ++ "=" ++ l.2
    name ++ "\x7b" ++ String.intercalate "," (labels.map label) ++ "\x7d"

def Metric.samples : Metric → List Sample
  | operation name status =>
    [.count (seriesName "operations_total" [("operation", name), ("status", status)]) 1]
  | latency name => [.time (seriesName "operation_seconds" [("operation", name)])]
  | validationError name =>
    [.count (seriesName "validation_errors_total" [("operation", name)]) 1]
  | enqueued kind => [.count (seriesName "enqueued_total" [("kind", kind)]) 1]
  | batchRetry reason => [.count (seriesName "batch_retries_total" [("reason", reason)]) 1]
  | enqueueRejected kind => [.count (seriesName "enqueue_rejected_total" [("kind", kind)]) 1]
  | rotation => [.count (seriesName "batch_rotations_total" []) 1]
  | batchExecuted total failed =>
    let status := if failed = 0 then "success" else "partial"
    [.value (seriesName "batch_size" []) total,
      .count (seriesName "batches_executed_total" [("status", status)]) 1] ++
      (if 0 < failed then [.count (seriesName "batch_ops_failed_total" []) failed] else [])
  | batchesInFlight count => [.gauge (seriesName "batches_in_flight" []) count]
  | scan pages entries =>
    [.value (seriesName "scan_pages" []) pages, .value (seriesName "scan_entries" []) entries]
  | backendHealthy healthy =>
    [.gauge (seriesName "backend_healthy" []) (if healthy then 1 else 0)]

structure Snapshot where
  counters : KeyMap Nat := ∅
  gauges : KeyMap Nat := ∅
  histograms : KeyMap (List Nat) := ∅
  /-- The numbers of times in the histograms of times. -/
  timings : KeyMap Nat := ∅

namespace Snapshot

def add (s : Snapshot) : Sample → Snapshot
  | .count series n =>
    { s with counters := s.counters.insert series ((s.counters.get? series).getD 0 + n) }
  | .gauge series n => { s with gauges := s.gauges.insert series n }
  | .value series n =>
    { s with histograms := s.histograms.insert series ((s.histograms.get? series).getD [] ++ [n]) }
  | .time series =>
    { s with timings := s.timings.insert series ((s.timings.get? series).getD 0 + 1) }

def ofMetrics (ms : List Metric) : Snapshot :=
  (ms.flatMap Metric.samples).foldl add {}

end Snapshot

end BatchingCache
