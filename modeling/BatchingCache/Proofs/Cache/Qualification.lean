import BatchingCache.Cache.Health
import BatchingCache.Cache.Scan
import BatchingCache.Proofs.Cache.Operations
/-!
# Keys in full

A cache with a namespace does what a cache without one does that is given its keys in full: the name of
the namespace, the delimiter and the key.  So no operation forgets the namespace, and none applies
it twice.
-/

namespace BatchingCache

variable {α : Type} {ns : Namespace} {c : Cache}

/-! ## Requests in full -/

def Namespace.inFull (ns : Namespace) (namespaced : Bool) (key : String) : String :=
  if namespaced then ns.name ++ delimiter ++ key else key

def GetRequest.inFull (ns : Namespace) (r : GetRequest) : GetRequest :=
  { r with key := r.key.map (ns.inFull r.namespaced) }

def PutRequest.inFull (ns : Namespace) (r : PutRequest α) : PutRequest α :=
  { r with key := r.key.map (ns.inFull r.namespaced) }

def AddScoredRequest.inFull (ns : Namespace) (r : AddScoredRequest α) : AddScoredRequest α :=
  { r with key := r.key.map (ns.inFull r.namespaced) }

def GetScoredRequest.inFull (ns : Namespace) (r : GetScoredRequest) : GetScoredRequest :=
  { r with key := r.key.map (ns.inFull r.namespaced) }

def DeleteRequest.inFull (ns : Namespace) (r : DeleteRequest) : DeleteRequest :=
  { r with key := r.key.map (ns.inFull r.namespaced) }

def PutMapRequest.inFull (ns : Namespace) (r : PutMapRequest α) : PutMapRequest α :=
  { r with key := r.key.map (ns.inFull r.namespaced) }

def GetMapRequest.inFull (ns : Namespace) (r : GetMapRequest) : GetMapRequest :=
  { r with key := r.key.map (ns.inFull r.namespaced) }

def DeleteMapRequest.inFull (ns : Namespace) (r : DeleteMapRequest) : DeleteMapRequest :=
  { r with key := r.key.map (ns.inFull r.namespaced) }

def Write.inFull (ns : Namespace) : Write → Write
  | putString r => putString (r.inFull ns)
  | putEntity codec r => putEntity codec (r.inFull ns)
  | addString r => addString (r.inFull ns)
  | addEntity codec r => addEntity codec (r.inFull ns)
  | delete r => delete (r.inFull ns)

def Operation.inFull (ns : Namespace) : Operation → Operation
  | write w => write (w.inFull ns)
  | getString r => getString (r.inFull ns)
  | getEntity codec r => getEntity codec (r.inFull ns)
  | getStrings r => getStrings (r.inFull ns)
  | getEntities codec r => getEntities codec (r.inFull ns)
  | putMap codec r => putMap codec (r.inFull ns)
  | getMap codec r => getMap codec (r.inFull ns)
  | deleteMap r => deleteMap (r.inFull ns)

def Cache.bare (c : Cache) : Cache := { c with tenant := ⟨""⟩ }

theorem Namespace.wireKey_inFull (hns : ns.name ≠ "") (namespaced : Bool) (key : String) :
    (⟨""⟩ : Namespace).wireKey (ns.inFull namespaced key) namespaced = ns.wireKey key namespaced := by
  cases namespaced with
  | true => simp [wireKey, inFull, hns]
  | false => simp [wireKey, inFull]

theorem require_map {β : Type} (f : α → β) (field : Option α) (missing : Missing) :
    require (field.map f) missing = (require field missing).map f := by
  cases field <;> rfl

/-! ## Operations -/

theorem PutRequest.mutation_inFull (hns : ns.name ≠ "") (codec : Codec α) (r : PutRequest α) :
    (r.inFull ns).mutation ⟨""⟩ codec = r.mutation ns codec := by
  unfold mutation validate inFull
  rw [require_map]
  cases require r.key .key with
  | error e => rfl
  | ok key =>
    cases require r.value .value with
    | error e => rfl
    | ok value =>
      show (codec.write value >>= fun value => _) = _
      simp only [Namespace.wireKey_inFull hns]
      rfl

theorem AddScoredRequest.mutation_inFull (hns : ns.name ≠ "") (codec : Codec α)
    (r : AddScoredRequest α) : (r.inFull ns).mutation ⟨""⟩ codec = r.mutation ns codec := by
  unfold mutation validate inFull
  rw [require_map]
  cases require r.key .key with
  | error e => rfl
  | ok key =>
    cases require r.value .value with
    | error e => rfl
    | ok value =>
      show (codec.write value >>= fun member => _) = _
      simp only [Namespace.wireKey_inFull hns]
      rfl

theorem DeleteRequest.mutation_inFull (hns : ns.name ≠ "") (r : DeleteRequest) :
    (r.inFull ns).mutation ⟨""⟩ = r.mutation ns := by
  unfold mutation validate inFull
  rw [require_map]
  cases require r.key .key with
  | error e => rfl
  | ok key =>
    show Except.ok (Mutation.delete ((⟨""⟩ : Namespace).wireKey (ns.inFull _ key) _)) = _
    rw [Namespace.wireKey_inFull hns]
    rfl

theorem Write.mutation_inFull (hns : ns.name ≠ "") (w : Write) :
    (w.inFull ns).mutation ⟨""⟩ = w.mutation ns := by
  cases w with
  | putString r => exact r.mutation_inFull hns .text
  | putEntity codec r => exact r.mutation_inFull hns codec
  | addString r => exact r.mutation_inFull hns .text
  | addEntity codec r => exact r.mutation_inFull hns codec
  | delete r => exact r.mutation_inFull hns

/-! ## Direct operations -/

section

variable {σ : Type} {s : σ}

/-- An operation that begins with the key of its request, under another key of the request. -/
theorem direct_require_map {β : Type} {name : String} {field : Option String} {missing : Missing}
    (f : String → String) {k k' : String → Query σ β}
    (h : ∀ key, direct name (k (f key)) s = direct name (k' key) s) :
    direct name (liftM (require (field.map f) missing) >>= k) s =
      direct name (liftM (require field missing) >>= k') s := by
  rw [require_map]
  cases require field missing with
  | error e => rfl
  | ok key => exact h key

variable [Store σ]

namespace Cache

theorem get_inFull (hns : c.tenant.name ≠ "") (name : String) (codec : Codec α) (r : GetRequest) :
    c.bare.get name codec (r.inFull c.tenant) s = c.get name codec r s := by
  apply direct_require_map
  intro key
  rw [bare, GetRequest.inFull, Namespace.wireKey_inFull hns]
  -- The branches on what was found have the request as a parameter, so they agree only one by one.
  refine congrArg (fun k => direct name (perform _ >>= k) s) (funext fun found => ?_)
  cases found <;> rfl

theorem getScored_inFull (hns : c.tenant.name ≠ "") (name : String) (codec : Codec α)
    (r : GetScoredRequest) :
    c.bare.getScored name codec (r.inFull c.tenant) s = c.getScored name codec r s := by
  apply direct_require_map
  intro key
  rw [bare, GetScoredRequest.inFull, Namespace.wireKey_inFull hns]

theorem putMap_inFull (hns : c.tenant.name ≠ "") (codec : Codec α) (r : PutMapRequest α) :
    c.bare.putMap codec (r.inFull c.tenant) s = c.putMap codec r s := by
  unfold putMap PutMapRequest.validate PutMapRequest.inFull
  rw [require_map]
  cases require r.key .putMapKey with
  | error e => rfl
  | ok key =>
    cases require r.value .putMapValue with
    | error e => rfl
    | ok value =>
      show direct _ (liftM (writeFields codec value.toList) >>= fun fields => perform (.mapPut
        (c.bare.tenant.wireKey (c.tenant.inFull r.namespaced key) r.namespaced) fields)) s = _
      rw [bare, Namespace.wireKey_inFull hns]
      rfl

theorem getMap_inFull (hns : c.tenant.name ≠ "") (codec : Codec α) (r : GetMapRequest) :
    c.bare.getMap codec (r.inFull c.tenant) s = c.getMap codec r s := by
  apply direct_require_map
  intro key
  rw [bare, GetMapRequest.inFull, Namespace.wireKey_inFull hns]

theorem deleteMap_inFull (hns : c.tenant.name ≠ "") (r : DeleteMapRequest) :
    c.bare.deleteMap (r.inFull c.tenant) s = c.deleteMap r s := by
  apply direct_require_map
  intro key
  rw [bare, DeleteMapRequest.inFull, Namespace.wireKey_inFull hns]

theorem scanByPattern_inFull (hns : c.tenant.name ≠ "") (codec : Codec α) (calls : Nat)
    (pattern : String) (namespaced : Bool) :
    c.bare.scanByPattern codec calls (c.tenant.inFull namespaced pattern) namespaced s =
      c.scanByPattern codec calls pattern namespaced s := by
  unfold scanByPattern
  rw [bare, Namespace.wireKey_inFull hns]

end Cache

theorem Write.direct_inFull (hns : c.tenant.name ≠ "") (w : Write) :
    (w.inFull c.tenant).direct c.bare s = w.direct c s := by
  have hname : (w.inFull c.tenant).directName = w.directName := by cases w <;> rfl
  rw [direct_eq_carryOut, direct_eq_carryOut, hname, Cache.bare, w.mutation_inFull hns]

/-! ## Queued operations and health checks -/

omit [Store σ] in
theorem Write.queue_inFull (hns : c.tenant.name ≠ "") (w : Write) (token : Token) :
    (w.inFull c.tenant).queue c.bare token =
      { w.queue c token with cache := (w.queue c token).cache.bare } := by
  have hname : (w.inFull c.tenant).queueName = w.queueName := by cases w <;> rfl
  have hid : (w.inFull c.tenant).mutationId = w.mutationId := by cases w <;> rfl
  rw [queue_eq, queue_eq, hname, hid]
  show c.bare.queue _ ((w.inFull c.tenant).mutation ⟨""⟩) _ _ = _
  rw [w.mutation_inFull hns]
  cases w.mutation c.tenant with
  | error e => rfl
  | ok m => rfl

/-- A health check looks at a key outside of all namespaces. -/
theorem Cache.healthCheck_bare (hns : c.tenant.name ≠ "") (force : Bool) :
    c.bare.healthCheck force s =
      { c.healthCheck force s with cache := (c.healthCheck force s).cache.bare } := by
  have hprobe : c.bare.probe s = c.probe s := by
    have hput := Write.direct_inFull (s := s) hns (.putString
      { key := some healthProbeKey, value := some healthProbeValue, namespaced := false })
    have hdelete := fun s : σ => Write.direct_inFull (s := s) hns
      (.delete { key := some healthProbeKey, namespaced := false })
    simp only [Write.direct, Write.inFull, PutRequest.inFull, DeleteRequest.inFull, Option.map_some,
      Namespace.inFull, Bool.false_eq_true, if_false] at hput hdelete
    unfold probe
    simp only [hput, hdelete]
  cases force with
  | false => rfl
  | true =>
    simp only [healthCheck, if_true, hprobe]
    rfl

end

end BatchingCache
