import BatchingCache.Metric
import BatchingCache.Store.Call
/-!
# Batches

A batch gathers mutations until it is executed.  Execution retires it and sends its mutations to
the store in one call; then every mutation is settled on its own, by the reply at its place.
-/

namespace BatchingCache

abbrev Token := Nat

/-- What a queued mutation comes to: the mark that its caller gave it, or a failure. -/
abbrev Completion := Except CacheError (Option String)

structure PendingOp where
  mutation : Mutation
  mutationId : Option String
  token : Token
  deriving DecidableEq, Repr

structure Settlement where
  token : Token
  completion : Completion

structure BatchResult where
  total : Nat := 0
  succeeded : Nat := 0
  failed : Nat := 0
  deriving DecidableEq, Repr

def BatchResult.isSuccess (r : BatchResult) : Bool := r.failed = 0

structure Execution (σ : Type) where
  result : BatchResult
  store : σ
  settled : List Settlement
  metrics : List Metric

inductive BatchState where
  | accumulating (pending : List PendingOp)
  | retired
  deriving DecidableEq, Repr

structure Batch where
  id : Nat
  state : BatchState := .accumulating []
  deriving DecidableEq, Repr

namespace Batch

def pending (b : Batch) : List PendingOp :=
  match b.state with
  | .accumulating pending => pending
  | .retired => []

def push (b : Batch) (op : PendingOp) : Except Unavailable (Nat × Batch) :=
  match b.state with
  | .accumulating pending =>
    .ok (pending.length + 1, { b with state := .accumulating (pending ++ [op]) })
  | .retired => .error .retired

def length (b : Batch) : Nat := b.pending.length

def isEmpty (b : Batch) : Bool := b.length = 0

def isRetired (b : Batch) : Bool := b.state = .retired

def retire (b : Batch) : List PendingOp × Batch :=
  (b.pending, { b with state := .retired })

/-! ## Execution -/

def complete (op : PendingOp) (reply : Reply) : Completion :=
  if op.mutation.requiresAck && !reply.isApplied then .error (.batchProcessing .notApplied)
  else .ok op.mutationId

def completeAt (id : Nat) (replies : List Reply) (index : Nat) (op : PendingOp) : Completion :=
  match replies[index]? with
  | some reply => complete op reply
  | none =>
    .error (.store (.unexpectedReply ("no reply for operation " ++ Decimal.natText index ++
      " of batch " ++ Decimal.natText id)))

/-- What all mutations of batch `id` come to.  When the call fails, all fail with its text. -/
def settle (id : Nat) (pending : List PendingOp) (answer : Except StoreError (List Reply)) :
    List Settlement :=
  match answer with
  | .ok replies => pending.mapIdx fun i op => ⟨op.token, completeAt id replies i op⟩
  | .error e => pending.map fun op => ⟨op.token, .error (.store (.backend e.message))⟩

def isSettledOk (s : Settlement) : Bool := s.completion.isOk

def tally (settled : List Settlement) : BatchResult where
  total := settled.length
  succeeded := settled.countP isSettledOk
  failed := settled.countP fun s => !isSettledOk s

/-- Sends mutations of batch `id` to the store.  Without mutations nothing is sent. -/
def run {σ : Type} [Store σ] (id : Nat) (pending : List PendingOp) (s : σ) : Execution σ :=
  if pending.isEmpty then ⟨{}, s, [], []⟩
  else
    let (answer, s) := Store.call (.batch (pending.map PendingOp.mutation)) s
    let settled := settle id pending answer
    let result := tally settled
    ⟨result, s, settled, [.batchExecuted result.total result.failed]⟩

def execute {σ : Type} [Store σ] (b : Batch) (s : σ) : Batch × Execution σ :=
  let (pending, b) := b.retire
  (b, run b.id pending s)

def abandon (b : Batch) : List Settlement :=
  b.pending.map fun op => ⟨op.token, .error (.batchProcessing .dropped)⟩

end Batch

end BatchingCache
