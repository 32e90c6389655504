import BatchingCache.Cache.Basic
/-!
# Mutations of requests

A request that is queued becomes one mutation.  It is validated first, then its key is put into the
namespace, then its value is written, and last the value it expects.
-/

namespace BatchingCache

variable {α : Type}

/-- The mutation that a put asks for.  With an expected value its time to live counts for
nothing. -/
def PutRequest.mutation (ns : Namespace) (codec : Codec α) (r : PutRequest α) :
    Except CacheError Mutation := do
  let (key, value) ← r.validate
  let key := ns.wireKey key r.namespaced
  let value ← codec.write value
  match r.expected with
  | none => pure (.set key value r.ttl)
  | some expected =>
    let expected ← codec.write expected
    pure (.compareAndSet key expected value)

def AddScoredRequest.mutation (ns : Namespace) (codec : Codec α) (r : AddScoredRequest α) :
    Except CacheError Mutation := do
  let (key, value) ← r.validate
  let key := ns.wireKey key r.namespaced
  let member ← codec.write value
  pure (.scoredAdd key r.score member)

def DeleteRequest.mutation (ns : Namespace) (r : DeleteRequest) : Except CacheError Mutation := do
  let key ← r.validate
  pure (.delete (ns.wireKey key r.namespaced))

end BatchingCache
