import BatchingCache.Codec
import BatchingCache.Namespace
/-!
# Configuration

The settings of a cache.  All of them have defaults, so any of them may be left out.
-/

namespace BatchingCache

structure Config where
  redisUrl : Option String := none
  keyNamespace : Option String := none
  /-- Mutations that a batch holds before it is executed. -/
  pipelineSize : Nat := 1000
  /-- Keys that a scan asks for at a time. -/
  scanLimit : Nat := 100
  /-- Attempts to queue a mutation. -/
  batchRetries : Nat := 5
  healthMonitorEnabled : Bool := false
  needsRestartOnFailure : Bool := false
  deriving DecidableEq, Repr

namespace Config

def minScanLimit : Nat := 10

/-- The name of the namespace without blanks at its ends, if anything is left of it. -/
def namespaceName (c : Config) : Option String :=
  (c.keyNamespace.map Text.trim).filter (· ≠ "")

/-- The number of keys that a scan really asks for at a time. -/
def effectiveScanLimit (c : Config) : Nat := max c.scanLimit minScanLimit

/-! ## Reading a configuration -/

structure Draft where
  redisUrl : Option (Option String) := none
  keyNamespace : Option (Option String) := none
  pipelineSize : Option Nat := none
  scanLimit : Option Nat := none
  batchRetries : Option Nat := none
  healthMonitorEnabled : Option Bool := none
  needsRestartOnFailure : Option Bool := none

def Draft.complete (d : Draft) : Config :=
  let c : Config := {}
  { redisUrl := d.redisUrl.getD c.redisUrl
    keyNamespace := d.keyNamespace.getD c.keyNamespace
    pipelineSize := d.pipelineSize.getD c.pipelineSize
    scanLimit := d.scanLimit.getD c.scanLimit
    batchRetries := d.batchRetries.getD c.batchRetries
    healthMonitorEnabled := d.healthMonitorEnabled.getD c.healthMonitorEnabled
    needsRestartOnFailure := d.needsRestartOnFailure.getD c.needsRestartOnFailure }

def countField : Json.Reader Nat := Json.natField "usize" UInt64.size

def record : Json.Record Draft Config where
  title := "struct CacheConfig"
  sizedTitle := "struct CacheConfig with 7 elements"
  fields :=
    [.of "redis_url" (·.redisUrl) (fun d x => { d with redisUrl := some x })
       Json.optionalTextField,
     .of "key_namespace" (·.keyNamespace) (fun d x => { d with keyNamespace := some x })
       Json.optionalTextField,
     .of "pipeline_size" (·.pipelineSize) (fun d x => { d with pipelineSize := some x })
       countField,
     .of "scan_limit" (·.scanLimit) (fun d x => { d with scanLimit := some x }) countField,
     .of "batch_retries" (·.batchRetries) (fun d x => { d with batchRetries := some x })
       countField,
     .of "health_monitor_enabled" (·.healthMonitorEnabled)
       (fun d x => { d with healthMonitorEnabled := some x }) Json.boolField,
     .of "needs_restart_on_failure" (·.needsRestartOnFailure)
       (fun d x => { d with needsRestartOnFailure := some x }) Json.boolField]
  blank := {}
  build d := .ok d.complete

def parse (bs : Bytes) : Except Json.Fault Config := record.parse bs

end Config

end BatchingCache
