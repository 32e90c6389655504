import BatchingCache.Cache.Basic
/-!
# Direct operations

Operations that wait for the store.  A compare-and-set that finds another value is no failure;
neither is deleting what is not there, nor adding a member again.
-/

namespace BatchingCache.Cache

variable {σ α : Type} [Store σ]

/-! ## Texts and entities -/

def get (name : String) (codec : Codec α) (c : Cache) (r : GetRequest) (s : σ) :
    Outcome σ (Option α) :=
  direct name (s := s) do
    let key ← r.validate
    match ← perform (.get (c.tenant.wireKey key r.namespaced)) with
    | none => pure none
    | some bs => some <$> codec.read bs

def getString (c : Cache) (r : GetRequest) (s : σ) : Outcome σ (Option String) :=
  c.get "get_string" .text r s

def getEntity (codec : Codec α) (c : Cache) (r : GetRequest) (s : σ) : Outcome σ (Option α) :=
  c.get "get_entity" codec r s

/-- Writes bytes under a key, or puts them in the place of others.  The time to live goes for the
former alone. -/
def writeBytes (key : String) (value : Bytes) (expected : Option Bytes) (ttl : Option Duration) :
    Query σ Unit :=
  match expected with
  | none => perform (.set key value ttl)
  | some expected => discard (perform (.compareAndSet key expected value))

def put (name : String) (codec : Codec α) (c : Cache) (r : PutRequest α) (s : σ) :
    Outcome σ Unit :=
  direct name (s := s) do
    let (key, value) ← r.validate
    let key := c.tenant.wireKey key r.namespaced
    let value ← codec.write value
    let expected : Option Bytes ← match r.expected with
      | none => pure none
      | some expected => some <$> codec.write expected
    writeBytes key value expected r.ttl

def putString (c : Cache) (r : PutRequest String) (s : σ) : Outcome σ Unit :=
  c.put "put_string" .text r s

def putEntity (codec : Codec α) (c : Cache) (r : PutRequest α) (s : σ) : Outcome σ Unit :=
  c.put "put_entity" codec r s

/-! ## Scored sets -/

def addScored (name : String) (codec : Codec α) (c : Cache) (r : AddScoredRequest α) (s : σ) :
    Outcome σ Unit :=
  direct name (s := s) do
    let (key, value) ← r.validate
    let key := c.tenant.wireKey key r.namespaced
    let member ← codec.write value
    discard (perform (.scoredAdd key r.score member))

def addStringToScoredSet (c : Cache) (r : AddScoredRequest String) (s : σ) : Outcome σ Unit :=
  c.addScored "add_string_to_scored_set" .text r s

def addEntityToScoredSet (codec : Codec α) (c : Cache) (r : AddScoredRequest α) (s : σ) :
    Outcome σ Unit :=
  c.addScored "add_entity_to_scored_set" codec r s

def getScored (name : String) (codec : Codec α) (c : Cache) (r : GetScoredRequest) (s : σ) :
    Outcome σ (List α) :=
  direct name (s := s) do
    let key ← r.validate
    let members ←
      perform (.scoredRange (c.tenant.wireKey key r.namespaced) r.start r.stop r.reversed)
    members.mapM fun bs => codec.read bs

def getStringsFromScoredSet (c : Cache) (r : GetScoredRequest) (s : σ) :
    Outcome σ (List String) :=
  c.getScored "get_strings_from_scored_set" .text r s

def getEntitiesFromScoredSet (codec : Codec α) (c : Cache) (r : GetScoredRequest) (s : σ) :
    Outcome σ (List α) :=
  c.getScored "get_entities_from_scored_set" codec r s

/-! ## Deletion -/

def delete (c : Cache) (r : DeleteRequest) (s : σ) : Outcome σ Unit :=
  direct "delete" (s := s) do
    let key ← r.validate
    let key := c.tenant.wireKey key r.namespaced
    discard (perform (.delete key))

/-! ## Maps -/

def writeFields (codec : Codec α) (fields : List (String × α)) :
    Except CacheError (List (String × Bytes)) :=
  fields.mapM fun (name, x) => do
    let bs ← codec.write x
    pure (name, bs)

def readFields (codec : Codec α) (fields : KeyMap Bytes) : Except CacheError (KeyMap α) := do
  let fields ← fields.toList.mapM fun (name, bs) => do
    let x ← codec.read bs
    pure (name, x)
  pure (KeyMap.ofList fields)

def putMap (codec : Codec α) (c : Cache) (r : PutMapRequest α) (s : σ) : Outcome σ Unit :=
  direct "put_map_of_entities" (s := s) do
    let (key, value) ← r.validate
    let fields ← writeFields codec value.toList
    perform (.mapPut (c.tenant.wireKey key r.namespaced) fields)

def getMap (codec : Codec α) (c : Cache) (r : GetMapRequest) (s : σ) : Outcome σ (KeyMap α) :=
  direct "get_map_of_entities" (s := s) do
    let key ← r.validate
    let key := c.tenant.wireKey key r.namespaced
    let fields : KeyMap Bytes ← match wantedFields r.fields with
      | some names => perform (.mapGetFields key names)
      | none => perform (.mapGet key)
    readFields codec fields

/-- Deletes the wanted fields of a map, or the map. -/
def deleteMap (c : Cache) (r : DeleteMapRequest) (s : σ) : Outcome σ Unit :=
  direct "delete_map_of_entities" (s := s) do
    let key ← r.validate
    let key := c.tenant.wireKey key r.namespaced
    match wantedFields r.fields with
    | some names => discard (perform (.mapDeleteFields key names))
    | none => discard (perform (.delete key))

end BatchingCache.Cache
