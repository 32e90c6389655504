import BatchingCache.Cache.Mutations
/-!
# Queued operations

Operations that only queue a mutation and never call the store.  A request that is refused
reaches neither; every other one goes into the pipeline under the token that its caller
will know it by.
-/

namespace BatchingCache

structure Queueing where
  result : Except CacheError Unit
  cache : Cache
  metrics : List Metric

namespace Cache

variable {α : Type}

def queue (name : String) (request : Except CacheError Mutation) (mutationId : Option String)
    (token : Token) (c : Cache) : Queueing :=
  match request with
  | .error e => ⟨.error e, c, resultMetrics name (.error e : Except CacheError Unit)⟩
  | .ok m =>
    let (result, pipeline, ms) := c.pipeline.enqueue ⟨m, mutationId, token⟩
    ⟨result, { c with pipeline }, ms ++ resultMetrics name result⟩

def queuePutString (c : Cache) (r : PutRequest String) (token : Token) : Queueing :=
  c.queue "queue_put_string" (r.mutation c.tenant .text) r.mutationId token

def queuePutEntity (codec : Codec α) (c : Cache) (r : PutRequest α) (token : Token) : Queueing :=
  c.queue "queue_put_entity" (r.mutation c.tenant codec) r.mutationId token

def queueAddStringToScoredSet (c : Cache) (r : AddScoredRequest String) (token : Token) :
    Queueing :=
  c.queue "queue_add_string_to_scored_set" (r.mutation c.tenant .text) r.mutationId token

def queueAddEntityToScoredSet (codec : Codec α) (c : Cache) (r : AddScoredRequest α)
    (token : Token) : Queueing :=
  c.queue "queue_add_entity_to_scored_set" (r.mutation c.tenant codec) r.mutationId token

def queueDelete (c : Cache) (r : DeleteRequest) (token : Token) : Queueing :=
  c.queue "queue_delete" (r.mutation c.tenant) r.mutationId token

/-! ## Executing what is queued -/

variable {σ : Type} [Store σ]

def flush (c : Cache) (s : σ) : Cache × Execution σ :=
  let (pipeline, e) := c.pipeline.flush s
  ({ c with pipeline }, e)

/-- Executes what is queued and queues nothing any more.  Direct operations go on. -/
def shutdown (c : Cache) (s : σ) : Cache × Execution σ :=
  let (pipeline, e) := c.pipeline.shutdown s
  ({ c with pipeline }, e)

end Cache

end BatchingCache
