import BatchingCache.Cache.Health
import BatchingCache.Cache.Queued
import BatchingCache.Cache.Scan
import BatchingCache.Store.Rehearsal
/-!
# Sessions

One caller works with a rehearsed store: through a cache, through a pipeline, or with batches of
its own.  Full batches wait in the background until the session settles, or until a flush has
to wait for them.  Every queued mutation has a token, and the session tells what came of it once.
-/

namespace BatchingCache

/-- A batch that waits in the background: the oldest one of the cache, the oldest one of the
pipeline, or one that nothing else knows any more. -/
inductive Job where
  | ofCache
  | ofPipeline
  | orphan (batch : Batch)
  deriving DecidableEq, Repr

structure Session where
  store : Rehearsal := {}
  cache : Option Cache := none
  pipeline : Option Pipeline := none
  batches : List Batch := []
  jobs : List Job := []
  nextToken : Token := 0
  /-- The tokens that the caller holds, in the order in which they were handed out. -/
  held : List Token := []
  settled : List Settlement := []
  journal : List Metric := []

namespace Session

def start (config : Option Config) (pipeline : Option (Nat × Nat)) :
    Except CacheError Session := do
  let cache ← config.mapM fun c => Cache.build true c
  let pipeline ← pipeline.mapM fun (size, attempts) => Pipeline.start true size attempts
  pure { cache, pipeline }

def record (ms : List Metric) (s : Session) : Session :=
  { s with journal := s.journal ++ ms }

def snapshot (s : Session) : Snapshot := Snapshot.ofMetrics s.journal

/-! ## The store -/

def call (c : Call) (s : Session) : Except StoreError c.Answer × Session :=
  let (r, store) := Store.call c s.store
  (r, { s with store })

def withStore (f : Rehearsal → Rehearsal) (s : Session) : Session :=
  { s with store := f s.store }

def takeLog (s : Session) : List Call × Session :=
  (s.store.log, s.withStore fun r => { r with log := [] })

/-! ## The background -/

def absorb (e : Execution Rehearsal) (s : Session) : Session :=
  { s with store := e.store, settled := s.settled ++ e.settled, journal := s.journal ++ e.metrics }

def runJob (j : Job) (s : Session) : Session :=
  match j with
  | .ofCache =>
    match s.cache with
    | none => s
    | some c =>
      let (pipeline, e) := c.pipeline.runOldest s.store
      { s with cache := some { c with pipeline } }.absorb e
  | .ofPipeline =>
    match s.pipeline with
    | none => s
    | some p =>
      let (p, e) := p.runOldest s.store
      { s with pipeline := some p }.absorb e
  | .orphan b => s.absorb (b.execute s.store).2

def settle (s : Session) : Session :=
  s.jobs.foldl (fun s j => s.runJob j) { s with jobs := [] }

/-- Executes all batches in the background if there is one that `p` has to wait for. -/
def awaitBackground (p : Pipeline) (s : Session) : Session :=
  if p.background.isEmpty then s else s.settle

/-- The jobs with those for batches of `p` made orphans. -/
def orphaned (p : Pipeline) (mine : Job) (jobs : List Job) : List Job :=
  (jobs.foldl (fun (done, ids) j =>
    if j = mine then
      (done ++ ((ids.head?.bind p.batch?).map Job.orphan).toList, ids.tail)
    else (done ++ [j], ids)) (([] : List Job), p.background)).1

/-! ## Tokens -/

def handOut {ε : Type} (taken : Except ε Unit) (s : Session) : Except ε Token × Session :=
  match taken with
  | .ok () =>
    (.ok s.nextToken, { s with nextToken := s.nextToken + 1, held := s.held ++ [s.nextToken] })
  | .error e => (.error e, s)

def dropToken (t : Token) (s : Session) : Bool × Session :=
  (s.held.contains t, { s with held := s.held.filter (· ≠ t) })

/-- What came of the mutations whose tokens are held, in the order of the tokens, which are
held no longer. -/
def report (s : Session) : List Settlement × Session :=
  let told := s.held.filterMap fun t => s.settled.find? fun x => x.token = t
  (told,
    { s with
      held := s.held.filter fun t => !told.any fun x => x.token = t
      settled := [] })

/-! ## The cache -/

def direct {α : Type} (f : Rehearsal → Outcome Rehearsal α) (s : Session) :
    Except CacheError α × Session :=
  let o := f s.store
  (o.result, { s with store := o.store }.record o.metrics)

/-- Scans by a pattern.  The answers laid down and the keys bound the number of pages. -/
def scan {α : Type} (codec : Codec α) (c : Cache) (pattern : String) (namespaced : Bool)
    (s : Session) : Except CacheError (Option (KeyMap α)) × Session :=
  let calls := s.store.scanAnswers.length + s.store.memory.content.size + 1
  s.direct (c.scanByPattern codec calls pattern namespaced)

def queue (f : Token → Queueing) (s : Session) : Except CacheError Token × Session :=
  let q := f s.nextToken
  let before := (s.cache.map fun c => c.pipeline.background.length).getD 0
  let rotated := q.cache.pipeline.background.length - before
  let s := { s with
    cache := some q.cache
    jobs := s.jobs ++ List.replicate rotated Job.ofCache }
  (s.record q.metrics).handOut q.result

def flushCache (last : Bool) (c : Cache) (s : Session) : BatchResult × Session :=
  let s := s.awaitBackground c.pipeline
  let c := s.cache.getD c
  let (c, e) := if last then c.shutdown s.store else c.flush s.store
  (e.result, { s with cache := some c }.absorb e)

def checkHealth (force : Bool) (c : Cache) (s : Session) : Bool × Session :=
  let r := c.healthCheck force s.store
  (r.healthy, { s with cache := some r.cache, store := r.store }.record r.metrics)

def setHealthy (healthy : Bool) (c : Cache) (s : Session) : Session :=
  let (c, ms) := c.setHealthy healthy
  { s with cache := some c }.record ms

/-! ## The pipeline -/

def enqueue (m : Mutation) (mutationId : Option String) (p : Pipeline) (s : Session) :
    Except CacheError Token × Session :=
  let (r, p', ms) := p.enqueue ⟨m, mutationId, s.nextToken⟩
  let rotated := p'.background.length - p.background.length
  let s := { s with
    pipeline := some p'
    jobs := s.jobs ++ List.replicate rotated Job.ofPipeline }
  (s.record ms).handOut r

def flushPipeline (last : Bool) (p : Pipeline) (s : Session) : BatchResult × Session :=
  let s := s.awaitBackground p
  let p := s.pipeline.getD p
  let (p, e) := if last then p.shutdown s.store else p.flush s.store
  (e.result, { s with pipeline := some p }.absorb e)

/-! ## Batches of the caller -/

def batch? (id : Nat) (s : Session) : Option Batch :=
  s.batches.find? fun b => b.id = id

def dropBatch (id : Nat) (s : Session) : Bool × Session :=
  match s.batch? id with
  | none => (false, s)
  | some b =>
    (true,
      { s with
        batches := s.batches.filter fun b => b.id ≠ id
        settled := s.settled ++ b.abandon })

def newBatch (id : Nat) (s : Session) : Batch × Session :=
  let (_, s) := s.dropBatch id
  let b : Batch := { id }
  (b, { s with batches := s.batches ++ [b] })

def setBatch (b : Batch) (s : Session) : Session :=
  { s with batches := s.batches.map fun b' => if b'.id = b.id then b else b' }

def queueInBatch (m : Mutation) (mutationId : Option String) (b : Batch) (s : Session) :
    Except Unavailable Token × Session :=
  match b.push ⟨m, mutationId, s.nextToken⟩ with
  | .ok (_, b) => (s.setBatch b).handOut (.ok ())
  | .error reason => (.error reason, s)

def executeBatch (b : Batch) (s : Session) : BatchResult × Session :=
  let (b, e) := b.execute s.store
  (e.result, (s.setBatch b).absorb e)

/-! ## The end -/

def drop (s : Session) : Session :=
  let jobs := match s.cache with
    | some c => orphaned c.pipeline .ofCache s.jobs
    | none => s.jobs
  let jobs := match s.pipeline with
    | some p => orphaned p .ofPipeline jobs
    | none => jobs
  let abandoned :=
    ((s.cache.map Cache.pipeline).toList ++ s.pipeline.toList).flatMap fun p => p.abandon.2
  { s with
    cache := none
    pipeline := none
    batches := []
    jobs
    settled := s.settled ++ abandoned ++ s.batches.flatMap Batch.abandon }

end Session

end BatchingCache
