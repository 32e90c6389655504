import BatchingCache.Proofs.Cache.Queries
import BatchingCache.Proofs.Cache.Screening
import BatchingCache.Proofs.Pipeline.Steps
/-!
# Requests that are refused

A request that lacks a field or cannot be written changes nothing, and what fails after the look at a
request fails for another reason.
-/

namespace BatchingCache

variable {α β σ : Type}

/-! ## What can fail later -/

def CacheError.IsUpfront (e : CacheError) : Prop :=
  (∃ field, e = .validation field) ∨ ∃ text, e = .codec (.encode text)

theorem CacheError.not_isUpfront_store (failure : StoreError) : ¬ (store failure).IsUpfront := by
  rintro (⟨field, h⟩ | ⟨text, h⟩)
  · cases h
  · cases h

theorem CacheError.not_isUpfront_batchProcessing (failure : BatchFailure) :
    ¬ (batchProcessing failure).IsUpfront := by
  rintro (⟨field, h⟩ | ⟨text, h⟩)
  · cases h
  · cases h

theorem CacheError.not_isUpfront_decode (text : String) : ¬ (codec (.decode text)).IsUpfront := by
  rintro (⟨field, h⟩ | ⟨text, h⟩)
  · cases h
  · cases h

/-- If this fails, it is not for what its request lacks or cannot be written. -/
def Late (x : Except CacheError α) : Prop := ∀ e, x = .error e → ¬ e.IsUpfront

theorem late_ok (x : α) : Late (.ok x) := nofun

theorem Late.bind {x : Except CacheError α} {k : α → Except CacheError β} (hx : Late x)
    (hk : ∀ y, Late (k y)) : Late (x >>= k) := by
  cases x with
  | error e =>
    intro e' he
    cases he
    exact hx e rfl
  | ok y => exact hk y

theorem late_read {codec : Codec α} (hcodec : codec.Labelled) (bs : Bytes) :
    Late (codec.read bs) := by
  intro e he
  obtain ⟨e', he', rfl⟩ := exists_of_mapError he
  obtain ⟨text, rfl⟩ := hcodec.decode he'
  exact CacheError.not_isUpfront_decode text

theorem late_readFields {codec : Codec α} (hcodec : codec.Labelled) (fields : KeyMap Bytes) :
    Late (Cache.readFields codec fields) := by
  refine Late.bind (of_mapM (P := Late) late_ok Late.bind (fun field => ?_) _) fun _ => late_ok _
  exact (late_read hcodec field.2).bind fun x => late_ok _

theorem late_enqueueWithin (op : PendingOp) (attempts : Nat) (p : Pipeline) :
    Late (p.enqueueWithin op attempts).1 := by
  induction attempts generalizing p with
  | zero =>
    intro e he
    cases he
    exact CacheError.not_isUpfront_batchProcessing _
  | succ attempts ih =>
    cases hattempt : p.attempt op with
    | ok x =>
      obtain ⟨id, length, q⟩ := x
      rw [(Pipeline.enqueueWithin_of_ok attempts hattempt).1]
      exact late_ok ()
    | error reason =>
      rw [(Pipeline.enqueueWithin_of_error attempts hattempt).1]
      exact ih p.countRetry

def FailsLate (q : Query σ α) : Prop := ∀ s, Late (q.run.run s).1

theorem failsLate_pure (x : α) : FailsLate (pure x : Query σ α) := fun _ => late_ok x

theorem failsLate_lift {x : Except CacheError α} (h : Late x) :
    FailsLate (liftM x : Query σ α) := by
  intro s
  cases x with
  | ok x => exact h
  | error e => exact h

theorem FailsLate.bind {q : Query σ α} {k : α → Query σ β} (hq : FailsLate q)
    (hk : ∀ x, FailsLate (k x)) : FailsLate (q >>= k) := by
  intro s
  rw [run_bind]
  cases hx : (q.run.run s).1 with
  | ok x => exact hk x _
  | error e =>
    intro e' he
    cases he
    exact hq s e hx

section

variable [Store σ]

theorem failsLate_perform (call : Call) : FailsLate (perform call : Query σ _) := by
  intro s e he
  obtain ⟨failure, -, rfl⟩ := exists_of_mapError he
  exact CacheError.not_isUpfront_store failure

theorem failsLate_discard (call : Call) : FailsLate (discard (perform call) : Query σ Unit) := by
  intro s e he
  rw [run_discard_perform] at he
  cases hcall : (Store.call call s).1 with
  | ok x =>
    rw [hcall] at he
    cases he
  | error failure =>
    rw [hcall] at he
    cases he
    exact CacheError.not_isUpfront_store failure

end

/-! ## Requests of all kinds -/

inductive Submission : Type 1 where
  | direct (op : Operation)
  | queue (w : Write)

namespace Submission

def mandatory : Submission → List (Bool × String)
  | direct op => op.mandatory
  | queue w => w.mandatory

def encodings : Submission → List (Except CodecError Bytes)
  | direct op => op.encodings
  | queue w => w.encodings

def Labelled : Submission → Prop
  | direct op => op.Labelled
  | queue w => w.Labelled

structure After (σ : Type) where
  result : Except CacheError Unit
  cache : Cache
  store : σ

def run [Store σ] (c : Cache) (token : Token) (s : σ) : Submission → After σ
  | direct op => ⟨(op.run c s).result.map fun _ => (), c, (op.run c s).store⟩
  | queue w => ⟨(w.queue c token).result, (w.queue c token).cache, s⟩

/-- What follows from the look at a request: a failure ends the request, and otherwise a failure is
a late one. -/
structure Follows (request : Except CacheError β) (c : Cache) (s : σ) (x : After σ) : Prop where
  refused : ∀ e, request = .error e → x = ⟨.error e, c, s⟩
  accepted : ∀ y, request = .ok y → Late x.result

variable {c : Cache} {s : σ}

theorem follows_direct {request : Except CacheError β} {k : β → Query σ α}
    (hk : ∀ y, FailsLate (k y)) (name : String) :
    let o := BatchingCache.direct name (liftM request >>= k) s
    Follows request c s ⟨o.result.map fun _ => (), c, o.store⟩ := by
  intro o
  cases request with
  | error e => exact ⟨fun e' he => by cases he; rfl, nofun⟩
  | ok y =>
    refine ⟨nofun, fun _ _ e he => ?_⟩
    have hlate : Late o.result := hk y s
    cases ho : o.result with
    | ok x =>
      rw [ho] at he
      cases he
    | error e' =>
      rw [ho] at he
      cases he
      exact hlate _ ho

variable [Store σ]

theorem follows_write (w : Write) (token : Token) :
    Follows (w.mutation c.tenant) c s ((direct (.write w)).run c token s) := by
  show Follows _ c s ⟨(w.direct c s).result.map fun _ => (), c, (w.direct c s).store⟩
  rw [w.direct_eq_carryOut]
  exact follows_direct (fun m => failsLate_discard (Mutation.call m)) _

theorem follows_queue (w : Write) (token : Token) :
    Follows (w.mutation c.tenant) c s ((queue w).run c token s) := by
  show Follows _ c s ⟨(w.queue c token).result, (w.queue c token).cache, s⟩
  rw [w.queue_eq]
  cases w.mutation c.tenant with
  | error e => exact ⟨fun e' he => by cases he; rfl, nofun⟩
  | ok m => exact ⟨nofun, fun _ _ => late_enqueueWithin _ _ _⟩

theorem follows_get {codec : Codec α} (hcodec : codec.Labelled) (name : String) (r : GetRequest) :
    let o := c.get name codec r s
    Follows r.validate c s ⟨o.result.map fun _ => (), c, o.store⟩ := by
  refine follows_direct (fun key => (failsLate_perform _).bind fun found => ?_) name
  cases found with
  | none => exact failsLate_pure none
  | some bs =>
    show FailsLate (some <$> (liftM (codec.read bs) : Query σ α))
    rw [map_eq_pure_bind]
    exact (failsLate_lift (late_read hcodec bs)).bind fun x => failsLate_pure (some x)

theorem follows_getScored {codec : Codec α} (hcodec : codec.Labelled) (name : String)
    (r : GetScoredRequest) :
    let o := c.getScored name codec r s
    Follows r.validate c s ⟨o.result.map fun _ => (), c, o.store⟩ := by
  refine follows_direct (fun key => (failsLate_perform _).bind fun members => ?_) name
  exact of_mapM (P := FailsLate) failsLate_pure FailsLate.bind
    (fun bs => failsLate_lift (late_read hcodec bs)) members

theorem follows_getMap {codec : Codec α} (hcodec : codec.Labelled) (r : GetMapRequest) :
    let o := c.getMap codec r s
    Follows r.validate c s ⟨o.result.map fun _ => (), c, o.store⟩ := by
  refine follows_direct (fun key => ?_) _
  cases wantedFields r.fields with
  | none =>
    exact (failsLate_perform _).bind fun fields => failsLate_lift (late_readFields hcodec fields)
  | some names =>
    exact (failsLate_perform _).bind fun fields => failsLate_lift (late_readFields hcodec fields)

theorem follows_deleteMap (r : DeleteMapRequest) :
    let o := c.deleteMap r s
    Follows r.validate c s ⟨o.result.map fun _ => (), c, o.store⟩ := by
  refine follows_direct (fun key => ?_) _
  cases wantedFields r.fields with
  | none => exact failsLate_discard _
  | some names => exact failsLate_discard _

theorem follows_putMap (codec : Codec α) (r : PutMapRequest α) :
    let request := r.validate >>= fun (key, value) =>
      Cache.writeFields codec value.toList >>= fun fields => pure (key, fields)
    let o := c.putMap codec r s
    Follows request c s ⟨o.result.map fun _ => (), c, o.store⟩ := by
  intro request o
  have ho : o = BatchingCache.direct "put_map_of_entities" (liftM request >>= fun (key, fields) =>
      perform (.mapPut (c.tenant.wireKey key r.namespaced) fields)) s := by
    show Cache.putMap codec c r s = _
    unfold Cache.putMap
    simp only [request]
    rcases r.validate with e | ⟨key, value⟩
    · rfl
    · rw [direct_lift_ok]
      show BatchingCache.direct _ (liftM (Cache.writeFields codec value.toList) >>= _) s =
        BatchingCache.direct _ (liftM (Cache.writeFields codec value.toList >>= _) >>= _) s
      rcases Cache.writeFields codec value.toList with e | fields
      · rfl
      · rfl
  rw [ho]
  refine follows_direct ?_ _
  rintro ⟨key, fields⟩
  exact failsLate_perform _

theorem exists_screened {x : Submission} (hx : x.Labelled) (c : Cache) (token : Token) (s : σ) :
    ∃ (β : Type) (request : Except CacheError β),
      Screened x.mandatory x.encodings request ∧ Follows request c s (x.run c token s) := by
  cases x with
  | queue w => exact ⟨_, _, w.screened_mutation hx c.tenant, follows_queue w token⟩
  | direct op =>
    cases op with
    | write w => exact ⟨_, _, w.screened_mutation hx c.tenant, follows_write w token⟩
    | getString r =>
      exact ⟨_, _, screened_require r.key .key, follows_get Codec.labelled_text _ r⟩
    | getEntity codec r => exact ⟨_, _, screened_require r.key .key, follows_get hx _ r⟩
    | getStrings r =>
      exact ⟨_, _, screened_require r.key .key, follows_getScored Codec.labelled_text _ r⟩
    | getEntities codec r => exact ⟨_, _, screened_require r.key .key, follows_getScored hx _ r⟩
    | putMap codec r =>
      refine ⟨_, _, ?_, follows_putMap codec r⟩
      simp only [PutMapRequest.validate, bind_assoc, pure_bind]
      refine Screened.require .putMapKey fun key _ => Screened.require .putMapValue fun value h => ?_
      have hfields : r.value.toList.flatMap KeyMap.toList = value.toList := by
        rw [h]
        exact List.append_nil _
      show Screened [] ((r.value.toList.flatMap KeyMap.toList).map _) _
      rw [hfields]
      exact screened_writeFields hx value.toList fun fields => ⟨_, rfl⟩
    | getMap codec r => exact ⟨_, _, screened_require r.key .getMapKey, follows_getMap hx r⟩
    | deleteMap r => exact ⟨_, _, screened_require r.key .deleteMapKey, follows_deleteMap r⟩

/-- A request that lacks a field fails for the first one, and one that lacks none but cannot be written
in full fails for that.  Either way the cache, its pipeline and the store are as before, and no request
fails for such a reason otherwise. -/
theorem refused_or_carried_out {x : Submission} (hx : x.Labelled) (c : Cache) (token : Token)
    (s : σ) :
    let after := x.run c token s
    (∀ text, firstMissing x.mandatory = some text →
      (∃ field, after.result = .error (.validation field) ∧
        (CacheError.validation field).message = text) ∧ after.cache = c ∧ after.store = s) ∧
    (firstMissing x.mandatory = none → (∃ e, .error e ∈ x.encodings) →
      (∃ text, after.result = .error (.codec (.encode text))) ∧ after.cache = c ∧ after.store = s) ∧
    (firstMissing x.mandatory = none → (¬ ∃ e, .error e ∈ x.encodings) →
      ∀ e, after.result = .error e →
        (∀ field, e ≠ .validation field) ∧ ∀ text, e ≠ .codec (.encode text)) := by
  intro after
  obtain ⟨β, request, hscreened, hfollows⟩ := exists_screened hx c token s
  refine ⟨fun text htext => ?_, fun hfields hencodings => ?_, fun hfields hencodings e he => ?_⟩
  · obtain ⟨field, hrequest, hmessage⟩ := hscreened.missing text htext
    have hafter : after = ⟨_, c, s⟩ := hfollows.refused _ hrequest
    rw [hafter]
    exact ⟨⟨field, rfl, hmessage⟩, rfl, rfl⟩
  · obtain ⟨text, hrequest⟩ := hscreened.unwritable hfields hencodings
    have hafter : after = ⟨_, c, s⟩ := hfollows.refused _ hrequest
    rw [hafter]
    exact ⟨⟨text, rfl⟩, rfl, rfl⟩
  · obtain ⟨y, hrequest⟩ := hscreened.accepted hfields hencodings
    have hlate : ¬ e.IsUpfront := hfollows.accepted y hrequest e he
    exact ⟨fun field h => hlate (.inl ⟨field, h⟩), fun text h => hlate (.inr ⟨text, h⟩)⟩

theorem refused_unwritable_expected :
    let config : Config := { pipelineSize := 1 }
    let x : Submission := .queue (.putEntity (Entity.codec .vehicle)
      { key := some "k", value := some (.vehicle ⟨"v", 9⟩), expected := some (.unwritable "no") })
    let s : Memory := {}
    ∃ c, Cache.build true config = .ok c ∧ x.Labelled ∧
      (∃ text, (x.run c 0 s).result = .error (.codec (.encode text))) ∧
        (x.run c 0 s).cache = c ∧ (x.run c 0 s).store = s := by
  intro config x s
  obtain ⟨c, hbuild⟩ : ∃ c, Cache.build true config = .ok c := ⟨_, rfl⟩
  have hx : x.Labelled := Entity.labelled_codec .vehicle
  have hfields : firstMissing x.mandatory = none := rfl
  have hencodings : ∃ e, .error e ∈ x.encodings :=
    ⟨.encode "no", List.mem_cons_of_mem _ List.mem_cons_self⟩
  obtain ⟨-, hunwritable, -⟩ := refused_or_carried_out hx c 0 s
  exact ⟨c, hbuild, hx, hunwritable hfields hencodings⟩

end Submission

end BatchingCache
