import BatchingCache.Duration
import BatchingCache.Error
import BatchingCache.Text.Utf8
/-!
# Mutations and replies

What a batch asks of a store, operation by operation, and what the store replies to each.
-/

namespace BatchingCache

inductive Mutation where
  | set (key : String) (value : Bytes) (ttl : Option Duration)
  | compareAndSet (key : String) (expected value : Bytes)
  | delete (key : String)
  | scoredAdd (key : String) (score : Binary64) (member : Bytes)
  deriving DecidableEq, Repr

namespace Mutation

def key : Mutation → String
  | set key _ _ => key
  | compareAndSet key _ _ => key
  | delete key => key
  | scoredAdd key _ _ => key

/-- Whether a mutation succeeds only if the store acknowledges it. -/
def requiresAck : Mutation → Bool
  | compareAndSet .. => true
  | scoredAdd .. => true
  | _ => false

def kind : Mutation → String
  | set .. => "set"
  | compareAndSet .. => "compare_and_set"
  | delete .. => "delete"
  | scoredAdd .. => "scored_add"

/-- Whether two mutations ask for the same.  Scores are compared as numbers. -/
def same : Mutation → Mutation → Bool
  | scoredAdd k x m, scoredAdd k' x' m' => k = k' && x.sameNumber x' && m = m'
  | a, b => a = b

end Mutation

inductive Reply where
  | done
  /-- Whether the mutation took effect. -/
  | applied (effective : Bool)
  deriving DecidableEq, Repr

def Reply.isApplied : Reply → Bool
  | done => true
  | applied effective => effective

/-- A part of a scan: where to go on, or zero at the end, and keys and values by turns. -/
structure Page where
  cursor : UInt64
  entries : List Bytes
  deriving DecidableEq, Repr

def pairUp {α : Type} : List α → List (α × α)
  | a :: b :: rest => (a, b) :: pairUp rest
  | _ => []

def Page.pairs (p : Page) : List (String × Bytes) :=
  (pairUp p.entries).map fun (key, value) => (Utf8.decodeLossy key, value)

end BatchingCache
