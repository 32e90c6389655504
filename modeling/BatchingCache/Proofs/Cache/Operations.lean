import BatchingCache.Proofs.Cache.Namespaces
import BatchingCache.Proofs.Cache.Queries
import BatchingCache.Proofs.Cache.Writes
import BatchingCache.Proofs.Store.Confinement
/-!
# Operations within a namespace

The direct operations on one key.  A request that stays in the namespace of its cache keeps to the keys
that begin with the name of the namespace and the delimiter.
-/

namespace BatchingCache

variable {α β σ : Type} {ns : Namespace} {m : Mutation}

/-! ## Writes -/

namespace Write

def namespaced : Write → Bool
  | putString r => r.namespaced
  | putEntity _ r => r.namespaced
  | addString r => r.namespaced
  | addEntity _ r => r.namespaced
  | delete r => r.namespaced

end Write

theorem exists_of_bind_eq_ok {x : Except CacheError α} {k : α → Except CacheError β} {y : β}
    (h : (x >>= k) = .ok y) : ∃ z, x = .ok z ∧ k z = .ok y := by
  cases x with
  | error e => cases h
  | ok z => exact ⟨z, rfl, h⟩

theorem names_of_writeFields {codec : Codec α} {l : List (String × α)} {written : List (String × Bytes)}
    (h : Cache.writeFields codec l = .ok written) : written.map Prod.fst = l.map Prod.fst := by
  unfold Cache.writeFields at h
  induction l generalizing written with
  | nil =>
    cases h
    rfl
  | cons e l ih =>
    rw [List.mapM_cons] at h
    obtain ⟨field, hfield, h⟩ := exists_of_bind_eq_ok h
    obtain ⟨fields, hfields, h⟩ := exists_of_bind_eq_ok h
    obtain ⟨bs, -, hfield⟩ := exists_of_bind_eq_ok hfield
    cases h
    cases hfield
    rw [List.map_cons, List.map_cons, ih hfields]

theorem PutRequest.key_of_mutation {codec : Codec α} {r : PutRequest α}
    (h : r.mutation ns codec = .ok m) : ∃ key, m.key = ns.wireKey key r.namespaced := by
  obtain ⟨⟨key, value⟩, -, h⟩ := exists_of_bind_eq_ok h
  obtain ⟨bs, -, h⟩ := exists_of_bind_eq_ok h
  refine ⟨key, ?_⟩
  cases hexpected : r.expected with
  | none =>
    rw [hexpected] at h
    cases h
    rfl
  | some expected =>
    rw [hexpected] at h
    obtain ⟨bs', -, h⟩ := exists_of_bind_eq_ok h
    cases h
    rfl

theorem AddScoredRequest.key_of_mutation {codec : Codec α} {r : AddScoredRequest α}
    (h : r.mutation ns codec = .ok m) : ∃ key, m.key = ns.wireKey key r.namespaced := by
  obtain ⟨⟨key, value⟩, -, h⟩ := exists_of_bind_eq_ok h
  obtain ⟨bs, -, h⟩ := exists_of_bind_eq_ok h
  cases h
  exact ⟨key, rfl⟩

theorem DeleteRequest.key_of_mutation {r : DeleteRequest} (h : r.mutation ns = .ok m) :
    ∃ key, m.key = ns.wireKey key r.namespaced := by
  obtain ⟨key, -, h⟩ := exists_of_bind_eq_ok h
  cases h
  exact ⟨key, rfl⟩

/-- The mutation of a request that stays in the namespace is about a key of the namespace. -/
theorem Write.owns_of_mutation (hns : ns.name ≠ "") {w : Write} (hw : w.namespaced)
    (h : w.mutation ns = .ok m) : ns.Owns m.key := by
  have hkey : ∃ key, m.key = ns.wireKey key w.namespaced := by
    cases w with
    | putString r => exact r.key_of_mutation h
    | putEntity codec r => exact r.key_of_mutation h
    | addString r => exact r.key_of_mutation h
    | addEntity codec r => exact r.key_of_mutation h
    | delete r => exact r.key_of_mutation h
  obtain ⟨key, hkey⟩ := hkey
  rw [hkey, hw]
  exact Namespace.owns_wireKey hns key

/-! ## Direct operations -/

inductive Operation : Type 1 where
  | write (w : Write)
  | getString (r : GetRequest)
  | getEntity {α : Type} (codec : Codec α) (r : GetRequest)
  | getStrings (r : GetScoredRequest)
  | getEntities {α : Type} (codec : Codec α) (r : GetScoredRequest)
  | putMap {α : Type} (codec : Codec α) (r : PutMapRequest α)
  | getMap {α : Type} (codec : Codec α) (r : GetMapRequest)
  | deleteMap (r : DeleteMapRequest)

namespace Operation

def Result : Operation → Type
  | write _ => Unit
  | getString _ => Option String
  | getEntity (α := α) _ _ => Option α
  | getStrings _ => List String
  | getEntities (α := α) _ _ => List α
  | putMap _ _ => Unit
  | getMap (α := α) _ _ => KeyMap α
  | deleteMap _ => Unit

def namespaced : Operation → Bool
  | write w => w.namespaced
  | getString r => r.namespaced
  | getEntity _ r => r.namespaced
  | getStrings r => r.namespaced
  | getEntities _ r => r.namespaced
  | putMap _ r => r.namespaced
  | getMap _ r => r.namespaced
  | deleteMap r => r.namespaced

def run [Store σ] (c : Cache) (s : σ) : (op : Operation) → Outcome σ op.Result
  | write w => w.direct c s
  | getString r => c.getString r s
  | getEntity codec r => c.getEntity codec r s
  | getStrings r => c.getStringsFromScoredSet r s
  | getEntities codec r => c.getEntitiesFromScoredSet codec r s
  | putMap codec r => c.putMap codec r s
  | getMap codec r => c.getMap codec r s
  | deleteMap r => c.deleteMap r s

end Operation

/-! ## Confinement -/

namespace Cache

open Memory

variable {c : Cache} {P : String → Prop} {name : String} {codec : Codec α}

theorem confined_discard {call : Call} (h : call.Within P) :
    Confined P (discard (perform call) : Query Memory Unit).run.run := by
  have heq : (discard (perform call) : Query Memory Unit).run.run = fun s =>
      (((s.call call).1.mapError CacheError.store).map fun _ => (), (s.call call).2) := by
    funext s
    exact run_discard_perform call
  rw [heq]
  exact (confined_call h).map fun r => (r.mapError CacheError.store).map fun _ => ()

theorem confined_mapM {f : β → Query Memory α} (hf : ∀ x, Confined P (f x).run.run) (xs : List β) :
    Confined P (xs.mapM f).run.run := by
  have hpure : ∀ {δ : Type} (x : δ), Confined P (pure x : Query Memory δ).run.run :=
    fun _ => confined_return P _
  exact of_mapM (P := fun {δ : Type} (q : Query Memory δ) => Confined P q.run.run) hpure
    Confined.queryBind hf xs

theorem confined_write {w : Write} (hw : ∀ m, w.mutation c.tenant = .ok m → P m.key) :
    Confined P fun s => ((w.direct c s).result, (w.direct c s).store) := by
  simp only [w.direct_eq_carryOut]
  apply confined_direct
  apply confined_liftM_bind
  intro m hm
  have hwithin : m.call.Within P := by
    cases m <;> exact hw _ hm
  exact confined_discard hwithin

theorem confined_get {r : GetRequest} (h : ∀ key, P (c.tenant.wireKey key r.namespaced)) :
    Confined P fun s => ((c.get name codec r s).result, (c.get name codec r s).store) := by
  apply confined_direct
  apply confined_liftM_bind
  intro key _
  refine Confined.queryBind (confined_perform (h key)) fun found => ?_
  cases found with
  | none => exact confined_return P _
  | some bs =>
    show Confined P (some <$> (liftM (codec.read bs) : Query Memory α)).run.run
    cases codec.read bs with
    | error e => exact confined_return P _
    | ok x => exact confined_return P _

theorem confined_getScored {r : GetScoredRequest}
    (h : ∀ key, P (c.tenant.wireKey key r.namespaced)) :
    Confined P fun s => ((c.getScored name codec r s).result, (c.getScored name codec r s).store) := by
  apply confined_direct
  apply confined_liftM_bind
  intro key _
  refine Confined.queryBind (confined_perform (h key)) fun members => ?_
  apply confined_mapM
  intro bs
  exact confined_return P _

theorem confined_putMap {r : PutMapRequest α} (h : ∀ key, P (c.tenant.wireKey key r.namespaced)) :
    Confined P fun s => ((c.putMap codec r s).result, (c.putMap codec r s).store) := by
  apply confined_direct
  apply confined_liftM_bind
  intro kv _
  apply confined_liftM_bind
  intro fields _
  exact confined_perform (h kv.1)

theorem confined_getMap {r : GetMapRequest} (h : ∀ key, P (c.tenant.wireKey key r.namespaced)) :
    Confined P fun s => ((c.getMap codec r s).result, (c.getMap codec r s).store) := by
  apply confined_direct
  apply confined_liftM_bind
  intro key _
  cases wantedFields r.fields with
  | some names =>
    refine Confined.queryBind (confined_perform (h key)) fun fields => ?_
    exact confined_return P _
  | none =>
    refine Confined.queryBind (confined_perform (h key)) fun fields => ?_
    exact confined_return P _

theorem confined_deleteMap {r : DeleteMapRequest}
    (h : ∀ key, P (c.tenant.wireKey key r.namespaced)) :
    Confined P fun s => ((c.deleteMap r s).result, (c.deleteMap r s).store) := by
  apply confined_direct
  apply confined_liftM_bind
  intro key _
  cases wantedFields r.fields with
  | some names => exact confined_discard (h key)
  | none => exact confined_discard (h key)

end Cache

/-- A direct operation that stays in the namespace of its cache keeps to the keys of that. -/
theorem Operation.confined {c : Cache} (hns : c.tenant.name ≠ "") {op : Operation}
    (hop : op.namespaced) :
    Memory.Confined c.tenant.Owns fun s => ((op.run c s).result, (op.run c s).store) := by
  have howns : ∀ {b : Bool}, b = true → ∀ key, c.tenant.Owns (c.tenant.wireKey key b) := by
    rintro b rfl key
    exact Namespace.owns_wireKey hns key
  cases op with
  | write w => exact Cache.confined_write fun m hm => w.owns_of_mutation hns hop hm
  | getString r => exact Cache.confined_get (howns hop)
  | getEntity codec r => exact Cache.confined_get (howns hop)
  | getStrings r => exact Cache.confined_getScored (howns hop)
  | getEntities codec r => exact Cache.confined_getScored (howns hop)
  | putMap codec r => exact Cache.confined_putMap (howns hop)
  | getMap codec r => exact Cache.confined_getMap (howns hop)
  | deleteMap r => exact Cache.confined_deleteMap (howns hop)

end BatchingCache
