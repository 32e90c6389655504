import BatchingCache.Number.Decimal
/-!
# Failures

What can go wrong between a caller and the store, by cause, and how each failure is told.
-/

namespace BatchingCache

inductive StoreError where
  | backend (text : String)
  /-- The store answered with something that is no answer to the call. -/
  | unexpectedReply (text : String)
  /-- The end of a scan page does not fit into 64 bits.  Such a call is abandoned. -/
  | pageOverflow
  deriving DecidableEq, Repr

namespace StoreError

def wrongType : StoreError :=
  .backend "WRONGTYPE Operation against a key holding the wrong kind of value"

def injected : StoreError := .backend "injected failure"

def connectionReset : StoreError := .backend "connection reset by peer"

def message : StoreError → String
  | .backend text => "Storage backend error: " ++ text
  | .unexpectedReply text => "Unexpected store reply: " ++ text
  | .pageOverflow => "Scan page out of range"

end StoreError

inductive CodecError where
  | encode (text : String)
  | decode (text : String)
  deriving DecidableEq, Repr

def CodecError.message : CodecError → String
  | .encode text => "encode failed: " ++ text
  | .decode text => "decode failed: " ++ text

inductive Missing where
  | key
  | value
  | putMapKey
  | putMapValue
  | getMapKey
  | deleteMapKey
  deriving DecidableEq, Repr

def Missing.message : Missing → String
  | .key => "key is mandatory"
  | .value => "value is mandatory"
  | .putMapKey => "Received null/empty key in put map request.Aborting the request."
  | .putMapValue => "Received null/empty value in put map request.Aborting the request."
  | .getMapKey => "Received null/empty key in get map request.Aborting the request."
  | .deleteMapKey => "Received null/empty key in delete map request.Aborting the request."

inductive BatchFailure where
  | attemptsExhausted (attempts : Nat)
  | notApplied
  /-- The batch was given up before it was executed. -/
  | dropped
  | other (text : String)
  deriving DecidableEq, Repr

def BatchFailure.message : BatchFailure → String
  | .attemptsExhausted attempts =>
    "Batch operation failed despite trying " ++ Decimal.natText attempts ++ " times"
  | .notApplied => "Redis batch update failed"
  | .dropped => "batch dropped before the operation completed"
  | .other text => text

inductive ConfigFlaw where
  | emptyBatches
  | noExecutor
  | noAddress
  | other (text : String)
  deriving DecidableEq, Repr

def ConfigFlaw.message : ConfigFlaw → String
  | .emptyBatches => "pipeline size must be at least 1"
  | .noExecutor =>
    "no tokio runtime for batch execution: there is no reactor running, " ++
      "must be called from the context of a Tokio 1.x runtime"
  | .noAddress => "redis_url is required to connect"
  | .other text => text

inductive CacheError where
  /-- The request lacks something and was refused before any call to the store. -/
  | validation (missing : Missing)
  | batchProcessing (failure : BatchFailure)
  | config (flaw : ConfigFlaw)
  | decode (key : String) (source : CodecError)
  | codec (error : CodecError)
  | store (error : StoreError)
  deriving DecidableEq, Repr

namespace CacheError

def message : CacheError → String
  | .validation missing => missing.message
  | .batchProcessing failure => "batch processing failed: " ++ failure.message
  | .config flaw => "configuration error: " ++ flaw.message
  | .decode key source =>
    "unable to decode value from cache for key " ++ key ++ ": " ++ source.message
  | .codec error => error.message
  | .store error => error.message

def isValidation : CacheError → Bool
  | .validation _ => true
  | _ => false

def isBatchProcessing : CacheError → Bool
  | .batchProcessing _ => true
  | _ => false

/-- The failure behind this one.  Failures that are told as they are have none. -/
def source? : CacheError → Option CodecError
  | .decode _ source => some source
  | _ => none

end CacheError

inductive Unavailable where
  | retired
  | notInstalled
  deriving DecidableEq, Repr

def Unavailable.message : Unavailable → String
  | .retired => "batch already has been executed"
  | .notInstalled => "no batch installed"

end BatchingCache
