import BatchingCache.Proofs.Cache.Queries
import BatchingCache.Proofs.Cache.Writes
import BatchingCache.Proofs.Json.Records
import BatchingCache.Proofs.Store.Live
/-!
# Entities that come back

An entity that its codec reads back from what it wrote comes back from the store as well: what is put
under a key is what is got from there.
-/

namespace BatchingCache

/-! ## Putting and getting -/

namespace Cache

variable {α : Type} {codec : Codec α} {c : Cache} {s : Memory} {key : String} {namespaced : Bool}
  {bs : Bytes}

theorem result_get (hs : s.failing = false) {expiresAt : Option Nat}
    (hlive : s.content.live s.now (c.tenant.wireKey key namespaced) =
      some (.string bs expiresAt)) (name : String) :
    (c.get name codec { key := some key, namespaced } s).result = (codec.read bs).map some := by
  have hcall : Store.call (.get (c.tenant.wireKey key namespaced)) s =
      (.ok (some bs), (s.call (.get (c.tenant.wireKey key namespaced))).2) :=
    Memory.call_of_answer hs (Content.fst_read_eq_some_iff.2 ⟨expiresAt, hlive⟩)
  unfold get direct GetRequest.validate require
  rw [run_liftM_bind, resume, run_perform_bind, hcall]
  show ((some <$> (liftM (codec.read bs) : Query Memory α)).run.run _).1 = _
  cases codec.read bs with
  | ok x => rfl
  | error e => rfl

/-- An entity that can be written is stored as its bytes. -/
theorem put_of_encode (hs : s.failing = false) {x : α} (hencode : codec.encode x = .ok bs)
    (name key : String) (mutationId : Option String) (namespaced : Bool) :
    let o := c.put name codec { key := some key, value := some x, mutationId, namespaced } s
    o.result = .ok () ∧ o.store.failing = false ∧ o.store.now = s.now ∧
      o.store.content =
        s.content.insert (c.tenant.wireKey key namespaced) (.string bs none) := by
  have hmutation : ({ key := some key, value := some x, mutationId, namespaced } :
      PutRequest α).mutation c.tenant codec =
        .ok (.set (c.tenant.wireKey key namespaced) bs none) := by
    show (codec.write x >>= fun bs => _) = _
    rw [Codec.write, hencode]
    rfl
  intro o
  have ho : o = carryOut name (.ok (.set (c.tenant.wireKey key namespaced) bs none)) s :=
    (put_eq_carryOut _).trans (congrArg (carryOut name · s) hmutation)
  have hstore : o.store = (s.call (.set (c.tenant.wireKey key namespaced) bs none)).2 := by
    rw [ho]
    exact carryOut_ok.1
  have hcall : (s.call (Mutation.set (c.tenant.wireKey key namespaced) bs none).call).1 = .ok () :=
    Memory.fst_call hs _
  rw [hstore]
  refine ⟨?_, (Memory.failing_call _).trans hs, Memory.now_call _, Memory.content_call hs _⟩
  rw [ho, carryOut, direct_lift_ok, direct, run_discard_perform]
  show Except.map _ (Except.mapError CacheError.store (s.call _).1) = _
  rw [hcall]
  rfl

end Cache

/-! ## Coming back -/

/-- An entity is written by its codec, and what was written is read as `y`: by the codec itself, and by
way of a store, whatever the cache and the key. -/
structure ComesBack {α : Type} (codec : Codec α) (x y : α) : Prop where
  decoded : ∃ bs, codec.encode x = .ok bs ∧ codec.decode bs = .ok y
  stored : ∀ (c : Cache) (s : Memory) (key : String) (mutationId : Option String)
    (namespaced : Bool), s.failing = false →
      let o := c.putEntity codec { key := some key, value := some x, mutationId, namespaced } s
      o.result = .ok () ∧
        (c.getEntity codec { key := some key, namespaced } o.store).result = .ok (some y)

theorem comesBack {α : Type} {codec : Codec α} {x y : α} {bs : Bytes}
    (hencode : codec.encode x = .ok bs) (hdecode : codec.decode bs = .ok y) :
    ComesBack codec x y := by
  refine ⟨⟨bs, hencode, hdecode⟩, ?_⟩
  intro c s key mutationId namespaced hs o
  obtain ⟨hresult, hfailing, -, hcontent⟩ :=
    Cache.put_of_encode (c := c) hs hencode "put_entity" key mutationId namespaced
  have hlive : o.store.content.live o.store.now (c.tenant.wireKey key namespaced) =
      some (.string bs none) := by
    have hget : o.store.content.get? (c.tenant.wireKey key namespaced) = some (.string bs none) := by
      rw [show o.store.content = _ from hcontent, KeyMap.get?_insert_self]
    rw [Content.live, hget]
    rfl
  refine ⟨hresult, (Cache.result_get hfailing hlive "get_entity").trans ?_⟩
  rw [Codec.read, hdecode]
  rfl

/-- A JSON value without doubles and with less than 128 levels comes back with the fields of its objects
in ascending order, which is how values are kept; and every vehicle comes back. -/
theorem entities_come_back :
    (∀ v : Json, v.Plain 127 → ComesBack Codec.json v v.arranged) ∧
      (∀ v : Json, v.Plain 127 → v.InOrder → ComesBack Codec.json v v) ∧
        ∀ v : Vehicle, ComesBack Vehicle.codec v v := by
  have hjson : ∀ v : Json, v.Plain 127 → ComesBack Codec.json v v.arranged := by
    intro v hv
    apply comesBack (show Codec.json.encode v = .ok v.print from rfl)
    show (Json.parse v.print).mapError _ = .ok v.arranged
    rw [hv.parse_print]
    rfl
  refine ⟨hjson, ?_, ?_⟩
  · intro v hv horder
    have harranged := hjson v hv
    rwa [horder.arranged_eq] at harranged
  · intro v
    apply comesBack (show Vehicle.codec.encode v = .ok v.toJson.print from rfl)
    show (Vehicle.record.parse v.toJson.print).mapError _ = .ok v
    rw [v.parse_print]
    rfl

theorem nested_entities_come_back :
    let v : Json := .object
      [("", .list [.int (-2 ^ 63), .text "\"\\\x00\n😀"]), ("é", .object [("a", .bool true)])]
    let car : Vehicle := ⟨"\t", 4294967295⟩
    v.Plain 127 ∧ v.InOrder ∧ ComesBack Codec.json v v ∧ ComesBack Vehicle.codec car car := by
  intro v car
  have hplain : v.Plain 127 := by
    apply Json.Plain.object
    simp only [List.forall_mem_cons, List.not_mem_nil, false_implies, implies_true, and_true]
    constructor
    · apply Json.Plain.list
      simp only [List.forall_mem_cons, List.not_mem_nil, false_implies, implies_true, and_true]
      exact ⟨.int (by decide) (by decide), .text _⟩
    · apply Json.Plain.object
      simp only [List.forall_mem_cons, List.not_mem_nil, false_implies, implies_true, and_true]
      exact .bool true
  have horder : v.InOrder := by
    apply Json.InOrder.object (by decide)
    simp only [List.forall_mem_cons, List.not_mem_nil, false_implies, implies_true, and_true]
    constructor
    · apply Json.InOrder.list
      simp only [List.forall_mem_cons, List.not_mem_nil, false_implies, implies_true, and_true]
      exact ⟨.number _, .text _⟩
    · apply Json.InOrder.object (by decide)
      simp only [List.forall_mem_cons, List.not_mem_nil, false_implies, implies_true, and_true]
      exact .bool true
  obtain ⟨-, hjson, hvehicle⟩ := entities_come_back
  exact ⟨hplain, horder, hjson v hplain horder, hvehicle car⟩

end BatchingCache
