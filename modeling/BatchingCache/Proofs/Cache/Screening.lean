import BatchingCache.Entity
import BatchingCache.Proofs.Cache.Operations
/-!
# The look at a request

Before anything is done about a request it is looked at: first that no field is missing, in the order
of the fields, then that all which is to be written can be.
-/

namespace BatchingCache

variable {α β : Type}

/-! ## Codecs -/

structure Codec.Labelled (codec : Codec α) : Prop where
  encode : ∀ {x e}, codec.encode x = .error e → ∃ text, e = .encode text
  decode : ∀ {bs e}, codec.decode bs = .error e → ∃ text, e = .decode text

theorem exists_of_mapError {ε ε' : Type} {x : Except ε α} {f : ε → ε'} {e : ε'}
    (h : x.mapError f = .error e) : ∃ e', x = .error e' ∧ e = f e' := by
  cases x with
  | ok x => cases h
  | error e' =>
    cases h
    exact ⟨e', rfl, rfl⟩

theorem Codec.labelled_text : Codec.text.Labelled := by
  refine ⟨nofun, fun h => ?_⟩
  obtain ⟨fault, -, rfl⟩ := exists_of_mapError h
  exact ⟨_, rfl⟩

theorem Codec.exists_of_ofJson {parse : Bytes → Except Json.Fault α} {bs : Bytes} {e : CodecError}
    (h : ofJson parse bs = .error e) : ∃ text, e = .decode text := by
  obtain ⟨fault, -, rfl⟩ := exists_of_mapError h
  exact ⟨_, rfl⟩

theorem Entity.labelled_codec (kind : EntityKind) : (Entity.codec kind).Labelled := by
  have hmap : ∀ {β : Type} {x : Except CodecError β} {f : β → Entity} {e : CodecError},
      x.map f = .error e → x = .error e := by
    intro β x f e h
    cases x with
    | ok x => cases h
    | error e' =>
      cases h
      rfl
  constructor
  · intro x e h
    cases x with
    | unwritable reason =>
      cases h
      exact ⟨reason, rfl⟩
    | json v => cases h
    | vehicle v => cases h
    | reading r => cases h
  · intro bs e h
    cases kind with
    | json => exact Codec.exists_of_ofJson (hmap h)
    | vehicle => exact Codec.exists_of_ofJson (hmap h)
    | reading => exact Codec.exists_of_ofJson (hmap h)

/-! ## What a request is looked at for -/

def firstMissing (fields : List (Bool × String)) : Option String :=
  (fields.find? fun field => !field.1).map Prod.snd

def Write.mandatory : Write → List (Bool × String)
  | putString r => [(r.key.isSome, "key is mandatory"), (r.value.isSome, "value is mandatory")]
  | putEntity _ r => [(r.key.isSome, "key is mandatory"), (r.value.isSome, "value is mandatory")]
  | addString r => [(r.key.isSome, "key is mandatory"), (r.value.isSome, "value is mandatory")]
  | addEntity _ r => [(r.key.isSome, "key is mandatory"), (r.value.isSome, "value is mandatory")]
  | delete r => [(r.key.isSome, "key is mandatory")]

def Operation.mandatory : Operation → List (Bool × String)
  | write w => w.mandatory
  | getString r => [(r.key.isSome, "key is mandatory")]
  | getEntity _ r => [(r.key.isSome, "key is mandatory")]
  | getStrings r => [(r.key.isSome, "key is mandatory")]
  | getEntities _ r => [(r.key.isSome, "key is mandatory")]
  | putMap _ r =>
    [(r.key.isSome, "Received null/empty key in put map request.Aborting the request."),
      (r.value.isSome, "Received null/empty value in put map request.Aborting the request.")]
  | getMap _ r =>
    [(r.key.isSome, "Received null/empty key in get map request.Aborting the request.")]
  | deleteMap r =>
    [(r.key.isSome, "Received null/empty key in delete map request.Aborting the request.")]

def Write.encodings : Write → List (Except CodecError Bytes)
  | putString r => (r.value.toList ++ r.expected.toList).map Codec.text.encode
  | putEntity codec r => (r.value.toList ++ r.expected.toList).map codec.encode
  | addString r => r.value.toList.map Codec.text.encode
  | addEntity codec r => r.value.toList.map codec.encode
  | delete _ => []

def Operation.encodings : Operation → List (Except CodecError Bytes)
  | write w => w.encodings
  | putMap codec r => (r.value.toList.flatMap KeyMap.toList).map fun field => codec.encode field.2
  | _ => []

def Write.Labelled : Write → Prop
  | putEntity codec _ => codec.Labelled
  | addEntity codec _ => codec.Labelled
  | _ => True

def Operation.Labelled : Operation → Prop
  | write w => w.Labelled
  | getEntity codec _ => codec.Labelled
  | getEntities codec _ => codec.Labelled
  | putMap codec _ => codec.Labelled
  | getMap codec _ => codec.Labelled
  | _ => True

/-! ## Looking at a request -/

/-- A request is refused for the first field that is missing, then for what cannot be written. -/
structure Screened (fields : List (Bool × String)) (encodings : List (Except CodecError Bytes))
    (request : Except CacheError β) : Prop where
  missing : ∀ text, firstMissing fields = some text →
    ∃ field, request = .error (.validation field) ∧ (CacheError.validation field).message = text
  unwritable : firstMissing fields = none → (∃ e, .error e ∈ encodings) →
    ∃ text, request = .error (.codec (.encode text))
  accepted : firstMissing fields = none → (¬ ∃ e, .error e ∈ encodings) → ∃ x, request = .ok x

variable {fields : List (Bool × String)} {encodings : List (Except CodecError Bytes)}

theorem screened_ok (x : β) : Screened [] [] (.ok x) :=
  ⟨nofun, fun _ ⟨_, he⟩ => (List.not_mem_nil he).elim, fun _ _ => ⟨x, rfl⟩⟩

/-- A mandatory field is looked at before all that follows. -/
theorem Screened.require {field : Option α} (missing : Missing) {k : α → Except CacheError β}
    (h : ∀ x, field = some x → Screened fields encodings (k x)) :
    Screened ((field.isSome, missing.message) :: fields) encodings
      (require field missing >>= k) := by
  cases field with
  | none =>
    refine ⟨?_, nofun, nofun⟩
    intro text htext
    exact ⟨missing, rfl, Option.some.inj htext⟩
  | some x =>
    obtain ⟨hmissing, hunwritable, haccepted⟩ := h x rfl
    exact ⟨hmissing, hunwritable, haccepted⟩

theorem screened_require (field : Option α) (missing : Missing) :
    Screened [(field.isSome, missing.message)] [] (BatchingCache.require field missing) := by
  rw [← bind_pure (BatchingCache.require field missing)]
  exact Screened.require missing fun x _ => screened_ok x

/-- What is written first is looked at before all that is written later. -/
theorem Screened.write {codec : Codec α} (hcodec : codec.Labelled) {x : α}
    {k : Bytes → Except CacheError β} (h : ∀ bs, Screened [] encodings (k bs)) :
    Screened [] (codec.encode x :: encodings) (codec.write x >>= k) := by
  unfold Codec.write
  cases hx : codec.encode x with
  | error e =>
    obtain ⟨text, rfl⟩ := hcodec.encode hx
    refine ⟨nofun, fun _ _ => ⟨text, rfl⟩, fun _ hnone => ?_⟩
    exact (hnone ⟨_, List.mem_cons_self⟩).elim
  | ok bs =>
    have hmem : (∃ e, .error e ∈ (.ok bs :: encodings : List (Except CodecError Bytes))) ↔
        ∃ e, .error e ∈ encodings := by
      simp
    obtain ⟨-, hunwritable, haccepted⟩ := h bs
    exact ⟨nofun, fun hfields he => hunwritable hfields (hmem.1 he),
      fun hfields he => haccepted hfields (mt hmem.2 he)⟩

theorem screened_writeFields {codec : Codec α} (hcodec : codec.Labelled) (xs : List (String × α))
    {k : List (String × Bytes) → Except CacheError β} (h : ∀ ys, ∃ y, k ys = .ok y) :
    Screened [] (xs.map fun field => codec.encode field.2) (Cache.writeFields codec xs >>= k) := by
  unfold Cache.writeFields
  induction xs generalizing k with
  | nil =>
    obtain ⟨y, hy⟩ := h []
    rw [List.mapM_nil, pure_bind, hy]
    exact screened_ok y
  | cons x xs ih =>
    simp only [List.mapM_cons, bind_assoc, pure_bind]
    refine Screened.write hcodec fun bs => ih fun ys => h _

theorem Write.screened_mutation {w : Write} (hw : w.Labelled) (ns : Namespace) :
    Screened w.mandatory w.encodings (w.mutation ns) := by
  have hput : ∀ {α : Type} {codec : Codec α} (r : PutRequest α), codec.Labelled →
      Screened [(r.key.isSome, "key is mandatory"), (r.value.isSome, "value is mandatory")]
        ((r.value.toList ++ r.expected.toList).map codec.encode) (r.mutation ns codec) := by
    intro α codec r hcodec
    simp only [PutRequest.mutation, PutRequest.validate, bind_assoc, pure_bind]
    refine Screened.require .key fun key _ => Screened.require .value fun value hvalue => ?_
    rw [hvalue]
    refine Screened.write hcodec fun bs => ?_
    cases r.expected with
    | none => exact screened_ok _
    | some expected => exact Screened.write hcodec fun bs => screened_ok _
  have hadd : ∀ {α : Type} {codec : Codec α} (r : AddScoredRequest α), codec.Labelled →
      Screened [(r.key.isSome, "key is mandatory"), (r.value.isSome, "value is mandatory")]
        (r.value.toList.map codec.encode) (r.mutation ns codec) := by
    intro α codec r hcodec
    simp only [AddScoredRequest.mutation, AddScoredRequest.validate, bind_assoc, pure_bind]
    refine Screened.require .key fun key _ => Screened.require .value fun value hvalue => ?_
    rw [hvalue]
    exact Screened.write hcodec fun bs => screened_ok _
  cases w with
  | putString r => exact hput r Codec.labelled_text
  | putEntity codec r => exact hput r hw
  | addString r => exact hadd r Codec.labelled_text
  | addEntity codec r => exact hadd r hw
  | delete r => exact Screened.require .key fun key _ => screened_ok _

end BatchingCache
