import BatchingCache.Duration
import BatchingCache.Error
import BatchingCache.KeyMap
/-!
# Requests

What callers ask of a cache.  Keys and values may be left out of a request; `validate` then
says what is missing, the key before the value.
-/

namespace BatchingCache

def require {α : Type} (field : Option α) (missing : Missing) : Except CacheError α :=
  match field with
  | some x => .ok x
  | none => .error (.validation missing)

structure GetRequest where
  key : Option String := none
  namespaced : Bool := true

/-- Write a text or an entity.  With an expected value, only if that is what is stored. -/
structure PutRequest (α : Type) where
  key : Option String := none
  value : Option α := none
  ttl : Option Duration := none
  expected : Option α := none
  mutationId : Option String := none
  namespaced : Bool := true

structure AddScoredRequest (α : Type) where
  key : Option String := none
  score : Binary64 := .zero
  value : Option α := none
  mutationId : Option String := none
  namespaced : Bool := true

structure GetScoredRequest where
  key : Option String := none
  start : Int64 := 0
  stop : Int64 := -1
  reversed : Bool := false
  namespaced : Bool := true

structure DeleteRequest where
  key : Option String := none
  mutationId : Option String := none
  namespaced : Bool := true

structure PutMapRequest (α : Type) where
  key : Option String := none
  value : Option (KeyMap α) := none
  namespaced : Bool := true

structure GetMapRequest where
  key : Option String := none
  fields : Option (List String) := none
  namespaced : Bool := true

structure DeleteMapRequest where
  key : Option String := none
  fields : Option (List String) := none
  namespaced : Bool := true

def nameSet (names : List String) : List String :=
  (KeyMap.ofList (names.map fun name => (name, ()))).keys

/-- The fields that are asked for, or `none` where no field is named and the map is meant. -/
def wantedFields (fields : Option (List String)) : Option (List String) :=
  (fields.map nameSet).filter (· ≠ [])

def GetRequest.validate (r : GetRequest) : Except CacheError String :=
  require r.key .key

def PutRequest.validate {α : Type} (r : PutRequest α) : Except CacheError (String × α) := do
  let key ← require r.key .key
  let value ← require r.value .value
  pure (key, value)

def AddScoredRequest.validate {α : Type} (r : AddScoredRequest α) :
    Except CacheError (String × α) := do
  let key ← require r.key .key
  let value ← require r.value .value
  pure (key, value)

def GetScoredRequest.validate (r : GetScoredRequest) : Except CacheError String :=
  require r.key .key

def DeleteRequest.validate (r : DeleteRequest) : Except CacheError String :=
  require r.key .key

def PutMapRequest.validate {α : Type} (r : PutMapRequest α) :
    Except CacheError (String × KeyMap α) := do
  let key ← require r.key .putMapKey
  let value ← require r.value .putMapValue
  pure (key, value)

def GetMapRequest.validate (r : GetMapRequest) : Except CacheError String :=
  require r.key .getMapKey

def DeleteMapRequest.validate (r : DeleteMapRequest) : Except CacheError String :=
  require r.key .deleteMapKey

end BatchingCache
