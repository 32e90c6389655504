import BatchingCache.Batch
/-!
# The pipeline

Mutations go into the batch in the slot.  The mutation that fills a batch puts a fresh one into
the slot and hands the full one to the background.  A flush takes the batch out of the slot,
waits for the batches in the background and then executes the one it took; a shutdown does
the same and leaves the slot empty.

Every step that another caller could come between is a function of its own: reading the slot,
pushing into the batch that was read, rotating a full batch, taking a batch out of the slot,
and executing a batch.
-/

namespace BatchingCache

structure PipelineStats where
  batchesCreated : Nat := 0
  batchesFlushed : Nat := 0
  opsEnqueued : Nat := 0
  /-- Attempts to queue a mutation that found no batch to take it. -/
  retries : Nat := 0
  deriving DecidableEq, Repr

structure Pipeline where
  batchSize : Nat
  maxAttempts : Nat
  /-- The number of the batch that mutations go to. -/
  slot : Option Nat := none
  /-- The batches that have not been executed, oldest first. -/
  batches : List Batch := []
  /-- The numbers of the batches that wait in the background, oldest first. -/
  background : List Nat := []
  /-- The numbers of the batches handed to the background since the last wait for them. -/
  inFlight : List Nat := []
  nextId : Nat := 1
  stats : PipelineStats := {}
  deriving DecidableEq, Repr

namespace Pipeline

/-! ## Batches by number -/

def batch? (p : Pipeline) (id : Nat) : Option Batch :=
  p.batches.find? fun b => b.id = id

def install (p : Pipeline) : Pipeline :=
  { p with
    slot := some p.nextId
    batches := p.batches ++ [{ id := p.nextId }]
    nextId := p.nextId + 1
    stats := { p.stats with batchesCreated := p.stats.batchesCreated + 1 } }

def countFlushed (p : Pipeline) : Pipeline :=
  { p with stats := { p.stats with batchesFlushed := p.stats.batchesFlushed + 1 } }

def countEnqueued (p : Pipeline) : Pipeline :=
  { p with stats := { p.stats with opsEnqueued := p.stats.opsEnqueued + 1 } }

def countRetry (p : Pipeline) : Pipeline :=
  { p with stats := { p.stats with retries := p.stats.retries + 1 } }

def start (hasExecutor : Bool) (batchSize maxAttempts : Nat) : Except CacheError Pipeline :=
  if batchSize = 0 then .error (.config .emptyBatches)
  else if !hasExecutor then .error (.config .noExecutor)
  else .ok (install { batchSize, maxAttempts := max maxAttempts 1 })

def isRunning (p : Pipeline) : Bool := p.slot.isSome

def pending (p : Pipeline) : Nat :=
  match p.slot.bind p.batch? with
  | some b => b.length
  | none => 0

/-! ## Queueing -/

/-- Adds a mutation to a batch that was read from the slot, wherever that batch is by now.
Gives the number of mutations in it.  A batch that has been executed takes none. -/
def push (id : Nat) (op : PendingOp) (p : Pipeline) : Except Unavailable (Nat × Pipeline) := do
  match p.batch? id with
  | none => .error .retired
  | some b =>
    let (length, b) ← b.push op
    pure (length, { p with batches := p.batches.map fun b' => if b'.id = id then b else b' })

/-- Puts a fresh batch in place of a full one, which goes to the background.  Does nothing if the
full batch has left the slot already. -/
def rotateFull (id : Nat) (p : Pipeline) : Pipeline × List Metric :=
  if p.slot = some id then
    let p := p.install.countFlushed
    let inFlight := p.inFlight.filter (p.background.contains ·) ++ [id]
    ({ p with background := p.background ++ [id], inFlight },
      [.rotation, .batchesInFlight inFlight.length])
  else (p, [])

/-- One attempt to queue a mutation.  Gives the number of the batch that took it and how many
mutations that holds. -/
def attempt (op : PendingOp) (p : Pipeline) : Except Unavailable (Nat × Nat × Pipeline) :=
  match p.slot with
  | none => .error .notInstalled
  | some id => (p.push id op).map fun (length, p) => (id, length, p)

def retryReason : Unavailable → String
  | .retired => "retired"
  | .notInstalled => "not_initialized"

def enqueueWithin (op : PendingOp) :
    Nat → Pipeline → Except CacheError Unit × Pipeline × List Metric
  | 0, p =>
    (.error (.batchProcessing (.attemptsExhausted p.maxAttempts)), p,
      [.enqueueRejected op.mutation.kind])
  | attempts + 1, p =>
    match p.attempt op with
    | .ok (id, length, p) =>
      let p := p.countEnqueued
      let (p, ms) := if length = p.batchSize then p.rotateFull id else (p, [])
      (.ok (), p, .enqueued op.mutation.kind :: ms)
    | .error reason =>
      let (r, p, ms) := enqueueWithin op attempts p.countRetry
      (r, p, .batchRetry (retryReason reason) :: ms)

def enqueue (op : PendingOp) (p : Pipeline) : Except CacheError Unit × Pipeline × List Metric :=
  enqueueWithin op p.maxAttempts p

/-! ## Executing -/

variable {σ : Type} [Store σ]

def executeBatch (id : Nat) (p : Pipeline) (s : σ) : Pipeline × Execution σ :=
  match p.batch? id with
  | none => (p, ⟨{}, s, [], []⟩)
  | some b => ({ p with batches := p.batches.filter fun b => b.id ≠ id }, (b.execute s).2)

def runOldest (p : Pipeline) (s : σ) : Pipeline × Execution σ :=
  match p.background with
  | [] => (p, ⟨{}, s, [], []⟩)
  | id :: rest => { p with background := rest }.executeBatch id s

def executeAll : List Nat → Pipeline → σ → Pipeline × Execution σ
  | [], p, s => (p, ⟨{}, s, [], []⟩)
  | id :: ids, p, s =>
    let (p, e) := p.executeBatch id s
    let (p, e') := executeAll ids p e.store
    (p, ⟨e'.result, e'.store, e.settled ++ e'.settled, e.metrics ++ e'.metrics⟩)

def runBackground (p : Pipeline) (s : σ) : Pipeline × Execution σ :=
  executeAll p.background { p with background := [] } s

def rotate (p : Pipeline) : Option Nat × Pipeline × List Metric :=
  match p.slot with
  | none => (none, p, [])
  | some id => (some id, p.install, [.rotation])

def takeLast (p : Pipeline) : Option Nat × Pipeline :=
  (p.slot, { p with slot := none })

def drain (p : Pipeline) (s : σ) : Pipeline × Execution σ :=
  let (p, e) := { p with inFlight := [] }.runBackground s
  (p, { e with metrics := e.metrics ++ [.batchesInFlight 0] })

def executeTaken (taken : Option Nat) (p : Pipeline) (s : σ) : Pipeline × Execution σ :=
  match taken with
  | none => (p, ⟨{}, s, [], []⟩)
  | some id => p.countFlushed.executeBatch id s

/-- Waits for the background, then executes the batch that was taken out of the slot. -/
def finish (taken : Option Nat) (p : Pipeline) (s : σ) : Pipeline × Execution σ :=
  let (p, e) := p.drain s
  let (p, e') := p.executeTaken taken e.store
  (p, ⟨e'.result, e'.store, e.settled ++ e'.settled, e.metrics ++ e'.metrics⟩)

/-- Executes what waits in the slot, after all that waits in the background. -/
def flush (p : Pipeline) (s : σ) : Pipeline × Execution σ :=
  let (taken, p, ms) := p.rotate
  let (p, e) := p.finish taken s
  (p, { e with metrics := ms ++ e.metrics })

def shutdown (p : Pipeline) (s : σ) : Pipeline × Execution σ :=
  let (taken, p) := p.takeLast
  p.finish taken s

/-- Gives up the batch in the slot.  Batches in the background go on. -/
def abandon (p : Pipeline) : Pipeline × List Settlement :=
  match p.slot.bind p.batch? with
  | some b =>
    ({ p with slot := none, batches := p.batches.filter fun b' => b'.id ≠ b.id }, b.abandon)
  | none => ({ p with slot := none }, [])

end Pipeline

end BatchingCache
