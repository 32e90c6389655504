import BatchingCache.Cache.Direct
import BatchingCache.Cache.Queued
import BatchingCache.Proofs.Store.Batches
import Mathlib.Control.Basic
/-!
# Writes

The requests that can be carried out directly and queued as well.  Either way a request is refused
for the same reasons, and one that is not refused stands for one mutation: carried out directly, it
makes the call of that mutation.
-/

namespace BatchingCache

variable {α β σ : Type} {c : Cache} {e : CacheError} {m : Mutation} {name : String}
  {codec : Codec α}

/-! ## Refusals -/

def CacheError.IsRefusal (e : CacheError) : Prop :=
  (∃ missing, e = .validation missing) ∨ ∃ failure, e = .codec failure

theorem not_isRefusal_store (failure : StoreError) : ¬ (CacheError.store failure).IsRefusal := by
  rintro (⟨missing, h⟩ | ⟨failure', h⟩)
  · cases h
  · cases h

theorem isRefusal_of_require {field : Option α} {missing : Missing}
    (h : require field missing = .error e) : e.IsRefusal := by
  cases field with
  | some x => cases h
  | none =>
    cases h
    exact .inl ⟨missing, rfl⟩

theorem isRefusal_of_write {x : α} (h : codec.write x = .error e) : e.IsRefusal := by
  unfold Codec.write at h
  cases hencode : codec.encode x with
  | ok bs =>
    rw [hencode] at h
    cases h
  | error failure =>
    rw [hencode] at h
    cases h
    exact .inr ⟨failure, rfl⟩

theorem isRefusal_of_bind {x : Except CacheError α} {k : α → Except CacheError β}
    (h : (x >>= k) = .error e) (hx : ∀ e, x = .error e → e.IsRefusal)
    (hk : ∀ y e, k y = .error e → e.IsRefusal) : e.IsRefusal := by
  cases x with
  | error e' =>
    cases h
    exact hx _ rfl
  | ok y => exact hk y e h

theorem isRefusal_of_fields {key : Option String} {value : Option α}
    (h : (do
      let key ← require key .key
      let value ← require value .value
      pure (key, value)) = Except.error e) : e.IsRefusal := by
  refine isRefusal_of_bind h (fun _ => isRefusal_of_require) fun key e h => ?_
  refine isRefusal_of_bind h (fun _ => isRefusal_of_require) fun value e h => ?_
  cases h

theorem isRefusal_of_put {ns : Namespace} {r : PutRequest α}
    (h : r.mutation ns codec = .error e) : e.IsRefusal := by
  refine isRefusal_of_bind h (fun _ => isRefusal_of_fields) fun kv e h => ?_
  refine isRefusal_of_bind h (fun _ => isRefusal_of_write) fun bs e h => ?_
  cases hexpected : r.expected with
  | none =>
    rw [hexpected] at h
    cases h
  | some expected =>
    rw [hexpected] at h
    refine isRefusal_of_bind h (fun _ => isRefusal_of_write) fun bs e h => ?_
    cases h

theorem isRefusal_of_addScored {ns : Namespace} {r : AddScoredRequest α}
    (h : r.mutation ns codec = .error e) : e.IsRefusal := by
  refine isRefusal_of_bind h (fun _ => isRefusal_of_fields) fun kv e h => ?_
  refine isRefusal_of_bind h (fun _ => isRefusal_of_write) fun bs e h => ?_
  cases h

theorem isRefusal_of_delete {ns : Namespace} {r : DeleteRequest}
    (h : r.mutation ns = .error e) : e.IsRefusal := by
  refine isRefusal_of_bind h (fun _ => isRefusal_of_require) fun key e h => ?_
  cases h

/-! ## Carrying out directly -/

theorem direct_lift_ok {s : σ} (x : β) (k : β → Query σ α) :
    direct name (liftM (Except.ok x : Except CacheError β) >>= k) s = direct name (k x) s := rfl

theorem discard_unit (x : Query σ Unit) : discard x = x := by
  show Functor.mapConst PUnit.unit x = x
  rw [map_const]
  exact id_map x

variable [Store σ] {s : σ}

theorem run_discard_perform (call : Call) :
    (discard (perform call) : Query σ Unit).run.run s =
      (((Store.call call s).1.mapError CacheError.store).map fun _ => (),
        (Store.call call s).2) := by
  show (ExceptT.run (Functor.mapConst PUnit.unit (perform call : Query σ _))).run s = _
  rw [map_const, Function.comp_apply, ExceptT.run_map]
  rfl

/-- Carries out the mutation that a request stands for by its call, unless the request is refused. -/
def carryOut (name : String) (request : Except CacheError Mutation) (s : σ) : Outcome σ Unit :=
  direct name (liftM request >>= fun m => discard (perform m.call)) s

theorem carryOut_error :
    (carryOut name (.error e) s).result = .error e ∧ (carryOut name (.error e) s).store = s :=
  ⟨rfl, rfl⟩

/-- A request that is not refused fails only if its call fails. -/
theorem carryOut_ok :
    (carryOut name (.ok m) s).store = (Store.call m.call s).2 ∧
      ∀ e, (carryOut name (.ok m) s).result = .error e → ∃ failure, e = .store failure := by
  have hdirect : carryOut name (.ok m) s = direct name (discard (perform m.call)) s := rfl
  rw [hdirect, direct, run_discard_perform]
  refine ⟨rfl, ?_⟩
  intro e he
  cases hcall : (Store.call m.call s).1 with
  | ok x =>
    rw [hcall] at he
    cases he
  | error failure =>
    rw [hcall] at he
    cases he
    exact ⟨failure, rfl⟩

theorem put_eq_carryOut (r : PutRequest α) :
    c.put name codec r s = carryOut name (r.mutation c.tenant codec) s := by
  unfold Cache.put PutRequest.mutation carryOut
  rcases r.validate with e | ⟨key, value⟩
  · rfl
  · rw [direct_lift_ok]
    show direct name (liftM (codec.write value) >>= _) s =
      direct name (liftM (codec.write value >>= _) >>= _) s
    rcases codec.write value with e | bs
    · rfl
    · rw [direct_lift_ok]
      rcases r.expected with _ | expected
      · show direct name (perform (.set _ bs r.ttl)) s =
          direct name (discard (perform (.set _ bs r.ttl))) s
        rw [discard_unit]
      · show direct name (some <$> liftM (codec.write expected) >>= _) s =
          direct name (liftM (codec.write expected >>= _) >>= _) s
        rcases codec.write expected with e | bs'
        · rfl
        · rfl

theorem addScored_eq_carryOut (r : AddScoredRequest α) :
    c.addScored name codec r s = carryOut name (r.mutation c.tenant codec) s := by
  unfold Cache.addScored AddScoredRequest.mutation carryOut
  rcases r.validate with e | ⟨key, value⟩
  · rfl
  · rw [direct_lift_ok]
    show direct name (liftM (codec.write value) >>= _) s =
      direct name (liftM (codec.write value >>= _) >>= _) s
    rcases codec.write value with e | bs
    · rfl
    · rfl

theorem delete_eq_carryOut (r : DeleteRequest) :
    c.delete r s = carryOut "delete" (r.mutation c.tenant) s := by
  unfold Cache.delete DeleteRequest.mutation carryOut
  rcases r.validate with e | key
  · rfl
  · rfl

/-! ## Requests of all kinds -/

inductive Write : Type 1 where
  | putString (r : PutRequest String)
  | putEntity {α : Type} (codec : Codec α) (r : PutRequest α)
  | addString (r : AddScoredRequest String)
  | addEntity {α : Type} (codec : Codec α) (r : AddScoredRequest α)
  | delete (r : DeleteRequest)

namespace Write

def direct (c : Cache) (s : σ) : Write → Outcome σ Unit
  | putString r => c.putString r s
  | putEntity codec r => c.putEntity codec r s
  | addString r => c.addStringToScoredSet r s
  | addEntity codec r => c.addEntityToScoredSet codec r s
  | delete r => c.delete r s

def queue (c : Cache) (token : Token) : Write → Queueing
  | putString r => c.queuePutString r token
  | putEntity codec r => c.queuePutEntity codec r token
  | addString r => c.queueAddStringToScoredSet r token
  | addEntity codec r => c.queueAddEntityToScoredSet codec r token
  | delete r => c.queueDelete r token

def mutationId : Write → Option String
  | putString r => r.mutationId
  | putEntity _ r => r.mutationId
  | addString r => r.mutationId
  | addEntity _ r => r.mutationId
  | delete r => r.mutationId

def mutation (ns : Namespace) : Write → Except CacheError Mutation
  | putString r => r.mutation ns .text
  | putEntity codec r => r.mutation ns codec
  | addString r => r.mutation ns .text
  | addEntity codec r => r.mutation ns codec
  | delete r => r.mutation ns

def directName : Write → String
  | putString _ => "put_string"
  | putEntity _ _ => "put_entity"
  | addString _ => "add_string_to_scored_set"
  | addEntity _ _ => "add_entity_to_scored_set"
  | delete _ => "delete"

def queueName : Write → String
  | putString _ => "queue_put_string"
  | putEntity _ _ => "queue_put_entity"
  | addString _ => "queue_add_string_to_scored_set"
  | addEntity _ _ => "queue_add_entity_to_scored_set"
  | delete _ => "queue_delete"

theorem isRefusal_of_mutation {ns : Namespace} {w : Write} (h : w.mutation ns = .error e) :
    e.IsRefusal := by
  cases w with
  | putString r => exact isRefusal_of_put h
  | putEntity codec r => exact isRefusal_of_put h
  | addString r => exact isRefusal_of_addScored h
  | addEntity codec r => exact isRefusal_of_addScored h
  | delete r => exact isRefusal_of_delete h

theorem direct_eq_carryOut (w : Write) (c : Cache) :
    w.direct c s = carryOut w.directName (w.mutation c.tenant) s := by
  cases w with
  | putString r => exact put_eq_carryOut r
  | putEntity codec r => exact put_eq_carryOut r
  | addString r => exact addScored_eq_carryOut r
  | addEntity codec r => exact addScored_eq_carryOut r
  | delete r => exact delete_eq_carryOut r

theorem direct_of_refused {w : Write} (h : w.mutation c.tenant = .error e) (s : σ) :
    (w.direct c s).result = .error e ∧ (w.direct c s).store = s := by
  rw [w.direct_eq_carryOut, h]
  exact carryOut_error

theorem direct_of_mutation {w : Write} (h : w.mutation c.tenant = .ok m) (s : σ) :
    (w.direct c s).store = (Store.call m.call s).2 ∧
      ∀ e, (w.direct c s).result = .error e → ∃ failure, e = .store failure := by
  rw [w.direct_eq_carryOut, h]
  exact carryOut_ok

omit [Store σ] in
theorem queue_eq (w : Write) (c : Cache) (token : Token) :
    w.queue c token = c.queue w.queueName (w.mutation c.tenant) w.mutationId token := by
  cases w <;> rfl

end Write

end BatchingCache
