import BatchingCache.Config
import BatchingCache.Pipeline
import BatchingCache.Request
/-!
# Caches

A cache puts keys into its namespace and values through codecs.  Direct operations wait for the
store; queued ones go through the pipeline.  An operation gives its result together with
what it changed: the type of each tells whether that can be the store or the pipeline.
-/

namespace BatchingCache

structure Cache where
  tenant : Namespace
  scanLimit : UInt64
  /-- The last known health of the store. -/
  healthy : Bool := true
  healthMonitorEnabled : Bool
  needsRestartOnFailure : Bool
  pipeline : Pipeline
  deriving DecidableEq, Repr

namespace Cache

def build (hasExecutor : Bool) (c : Config) : Except CacheError Cache := do
  let pipeline ← Pipeline.start hasExecutor c.pipelineSize c.batchRetries
  pure
    { tenant := Namespace.ofName c.namespaceName
      scanLimit := UInt64.ofNat c.effectiveScanLimit
      healthMonitorEnabled := c.healthMonitorEnabled
      needsRestartOnFailure := c.needsRestartOnFailure
      pipeline }

def healthMonitorName : String := "REDIS_HEALTH_MONITOR"
def healthMetricName : String := "REDIS_HEALTH_GUAGE"

/-- The key that a health check writes and deletes, and what it writes there. -/
def healthProbeKey : String := "hello"
def healthProbeValue : String := "world"

end Cache

/-! ## Entities -/

def Codec.write {α : Type} (codec : Codec α) (x : α) : Except CacheError Bytes :=
  (codec.encode x).mapError .codec

def Codec.read {α : Type} (codec : Codec α) (bs : Bytes) : Except CacheError α :=
  (codec.decode bs).mapError .codec

/-! ## Results with metrics -/

/-- A computation that calls a store and can fail. -/
abbrev Query (σ α : Type) := ExceptT CacheError (StateM σ) α

structure Outcome (σ α : Type) where
  result : Except CacheError α
  store : σ
  metrics : List Metric

def resultStatus {α : Type} : Except CacheError α → String
  | .ok _ => "success"
  | .error e => if e.isValidation then "rejected" else "error"

def resultMetrics {α : Type} (name : String) (result : Except CacheError α) : List Metric :=
  (match result with
    | .error e => if e.isValidation then [.validationError name] else []
    | .ok _ => []) ++ [.operation name (resultStatus result)]

variable {σ : Type} [Store σ]

def perform (c : Call) : Query σ c.Answer :=
  ExceptT.mk fun s =>
    let (r, s) := Store.call c s
    (r.mapError .store, s)

def direct {α : Type} (name : String) (body : Query σ α) (s : σ) : Outcome σ α :=
  let (result, s) := body.run.run s
  ⟨result, s, resultMetrics name result ++ [.latency name]⟩

end BatchingCache
