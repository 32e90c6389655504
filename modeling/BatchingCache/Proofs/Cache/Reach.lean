import BatchingCache.Proofs.Cache.Facade
import BatchingCache.Proofs.Pipeline.Steps
import Mathlib.Logic.Relation
/-!
# What a cache does to its store

Whatever is asked of a cache, it changes the store by calls alone.  So what every call keeps is kept by
every operation.  Of the calls that could put nothing into a map, only a request to put an empty map
makes one.
-/

namespace BatchingCache

variable {σ α β : Type} {A : Call → Prop} {c : Cache}

def Call.putsNothing : Call → Bool
  | .mapPut _ [] => true
  | _ => false

def Operation.PutsNothing : Operation → Prop
  | putMap _ r => r.value = some ∅
  | _ => False

section Reaches

variable [Store σ] {s s' s'' : σ}

/-- A store can become another one in calls that satisfy `A`. -/
def Reaches (A : Call → Prop) : σ → σ → Prop :=
  Relation.ReflTransGen fun s s' => ∃ c, A c ∧ s' = (Store.call c s).2

theorem Reaches.refl (A : Call → Prop) (s : σ) : Reaches A s s := Relation.ReflTransGen.refl

theorem Reaches.trans (h : Reaches A s s') (h' : Reaches A s' s'') : Reaches A s s'' :=
  Relation.ReflTransGen.trans h h'

theorem reaches_call {c : Call} (h : A c) (s : σ) : Reaches A s (Store.call c s).2 :=
  Relation.ReflTransGen.single ⟨c, h, rfl⟩

/-- What the calls keep is kept. -/
theorem Reaches.kept {I : σ → Prop} (h : Reaches A s s')
    (hcall : ∀ c, A c → ∀ s, I s → I (Store.call c s).2) (hs : I s) : I s' := by
  induction h with
  | refl => exact hs
  | tail _ hstep ih =>
    obtain ⟨c, hc, rfl⟩ := hstep
    exact hcall c hc _ ih

/-! ## Queries -/

/-- A query changes the store by calls that satisfy `A` alone. -/
def Makes (A : Call → Prop) (q : Query σ α) : Prop := ∀ s, Reaches A s (q.run.run s).2

theorem makes_pure (x : α) : Makes A (pure x : Query σ α) := fun s => Reaches.refl A s

theorem makes_lift (x : Except CacheError α) : Makes A (liftM x : Query σ α) := by
  intro s
  cases x with
  | ok x => exact Reaches.refl A s
  | error e => exact Reaches.refl A s

theorem Makes.bind {q : Query σ α} {k : α → Query σ β} (hq : Makes A q)
    (hk : ∀ x, Makes A (k x)) : Makes A (q >>= k) := by
  intro s
  rw [run_bind]
  cases hx : (q.run.run s).1 with
  | ok x => exact (hq s).trans (hk x _)
  | error e => exact hq s

/-- After a check, a query only has to make its calls as it should if the check goes well. -/
theorem makes_lift_bind {x : Except CacheError α} {k : α → Query σ β}
    (hk : ∀ y, x = .ok y → Makes A (k y)) : Makes A ((liftM x : Query σ α) >>= k) := by
  intro s
  rw [run_liftM_bind]
  cases x with
  | ok y => exact hk y rfl s
  | error e => exact Reaches.refl A s

theorem makes_perform {c : Call} (h : A c) : Makes A (perform c : Query σ c.Answer) :=
  fun s => reaches_call h s

theorem makes_discard {c : Call} (h : A c) : Makes A (discard (perform c) : Query σ Unit) := by
  intro s
  rw [run_discard_perform]
  exact reaches_call h s

theorem makes_mapM {f : α → Query σ β} (hf : ∀ x, Makes A (f x)) (xs : List α) :
    Makes A (xs.mapM f) :=
  of_mapM (P := Makes A) makes_pure Makes.bind hf xs

/-! ## Operations -/

variable (hA : ∀ c, c.putsNothing = false → A c)

include hA in
theorem reaches_write (w : Write) (s : σ) : Reaches A s (w.direct c s).store := by
  rw [w.direct_eq_carryOut]
  have hmakes : Makes A ((liftM (w.mutation c.tenant) : Query σ Mutation) >>= fun m =>
      discard (perform m.call)) := by
    refine (makes_lift _).bind fun m => makes_discard (hA _ ?_)
    cases m <;> rfl
  exact hmakes s

theorem writeFields_eq_nil_iff {codec : Codec α} {xs : List (String × α)}
    {fields : List (String × Bytes)} (h : Cache.writeFields codec xs = .ok fields) :
    fields = [] ↔ xs = [] := by
  rw [← List.map_eq_nil_iff (f := Prod.fst), names_of_writeFields h, List.map_eq_nil_iff]

include hA in
theorem reaches_putMap {codec : Codec α} {r : PutMapRequest α}
    (hputs : r.value = some ∅ → ∀ c, A c) (s : σ) : Reaches A s (c.putMap codec r s).store := by
  have hmakes : Makes A ((liftM r.validate : Query σ (String × KeyMap α)) >>= fun kv =>
      (liftM (Cache.writeFields codec kv.2.toList) : Query σ _) >>= fun fields =>
        perform (.mapPut (c.tenant.wireKey kv.1 r.namespaced) fields)) := by
    refine makes_lift_bind fun kv hkv => makes_lift_bind fun fields hfields => makes_perform ?_
    cases fields with
    | cons field fields => exact hA _ rfl
    | nil =>
      -- No fields are written, so the map of the request has none.
      obtain ⟨key, -, hkv⟩ := exists_of_bind_eq_ok hkv
      obtain ⟨value, hvalue, hkv⟩ := exists_of_bind_eq_ok hkv
      cases hkv
      have hempty : value = ∅ := KeyMap.ext_get? fun k => by
        rw [KeyMap.get?, show value.entries = [] from (writeFields_eq_nil_iff hfields).1 rfl]
        rfl
      refine hputs ?_ _
      cases hr : r.value with
      | none =>
        rw [hr] at hvalue
        cases hvalue
      | some value' =>
        rw [hr] at hvalue
        cases hvalue
        rw [hempty]
  exact hmakes s

include hA in
/-- A direct operation makes calls alone, and puts nothing into a map only if its request says so. -/
theorem Operation.reaches {op : Operation} (hop : op.PutsNothing → ∀ c, A c) (s : σ) :
    Reaches A s (op.run c s).store := by
  have hread : ∀ {α : Type} (name : String) (codec : Codec α) (r : GetRequest) (s : σ),
      Reaches A s (c.get name codec r s).store := by
    intro α name codec r
    refine (makes_lift _).bind fun key => (makes_perform (hA _ rfl)).bind fun found => ?_
    cases found with
    | none => exact makes_pure none
    | some bs =>
      show Makes A (some <$> (liftM (codec.read bs) : Query σ α))
      rw [map_eq_pure_bind]
      exact (makes_lift _).bind fun x => makes_pure (some x)
  have hrange : ∀ {α : Type} (name : String) (codec : Codec α) (r : GetScoredRequest) (s : σ),
      Reaches A s (c.getScored name codec r s).store := by
    intro α name codec r
    refine (makes_lift _).bind fun key => (makes_perform (hA _ rfl)).bind fun members => ?_
    exact makes_mapM (fun bs => makes_lift _) members
  cases op with
  | write w => exact reaches_write hA w s
  | getString r => exact hread _ _ r s
  | getEntity codec r => exact hread _ codec r s
  | getStrings r => exact hrange _ _ r s
  | getEntities codec r => exact hrange _ codec r s
  | putMap codec r => exact reaches_putMap hA hop s
  | getMap codec r =>
    have hmakes : ∀ s : σ, Reaches A s (c.getMap codec r s).store := by
      refine (makes_lift _).bind fun key => ?_
      cases wantedFields r.fields with
      | some names => exact (makes_perform (hA _ rfl)).bind fun fields => makes_lift _
      | none => exact (makes_perform (hA _ rfl)).bind fun fields => makes_lift _
    exact hmakes s
  | deleteMap r =>
    have hmakes : ∀ s : σ, Reaches A s (c.deleteMap r s).store := by
      refine (makes_lift _).bind fun key => ?_
      cases wantedFields r.fields with
      | some names => exact makes_discard (hA _ rfl)
      | none => exact makes_discard (hA _ rfl)
    exact hmakes s

include hA in
theorem makes_followCursor (codec : Codec α) (limit : UInt64) (pattern : String) (calls : Nat)
    (cursor : UInt64) (seen : Cache.Scanned α) :
    Makes A (Cache.followCursor codec limit pattern calls cursor seen : Query σ _) := by
  induction calls generalizing cursor seen with
  | zero => exact makes_pure none
  | succ calls ih =>
    refine (makes_perform (hA _ rfl)).bind fun found => ?_
    cases found with
    | none => exact makes_pure (some seen)
    | some page =>
      refine (makes_lift (Cache.readPairs codec page.pairs seen.found)).bind fun found => ?_
      split
      · exact makes_pure _
      · exact ih _ _

include hA in
theorem reaches_probe (s : σ) : Reaches A s (c.probe s).store := by
  let put : PutRequest String :=
    { key := some Cache.healthProbeKey, value := some Cache.healthProbeValue, namespaced := false }
  let delete : DeleteRequest := { key := some Cache.healthProbeKey, namespaced := false }
  have hput : Reaches A s (c.putString put s).store := reaches_write hA (.putString put) s
  have hdelete : Reaches A (c.putString put s).store (c.delete delete (c.putString put s).store).store :=
    reaches_write hA (.delete delete) _
  unfold Cache.probe
  dsimp only
  split
  · exact hput
  · exact hput.trans hdelete

include hA in
theorem reaches_healthCheck (force : Bool) (s : σ) :
    Reaches A s (c.healthCheck force s).store := by
  cases force with
  | false => exact Reaches.refl A s
  | true => exact reaches_probe hA s

/-! ## Batches -/

include hA in
theorem reaches_run (id : Nat) (ops : List PendingOp) (s : σ) :
    Reaches A s (Batch.run id ops s).store := by
  cases ops with
  | nil => exact Reaches.refl A s
  | cons op ops => exact reaches_call (hA _ rfl) s

include hA in
theorem reaches_executeBatch (p : Pipeline) (id : Nat) (s : σ) :
    Reaches A s (p.executeBatch id s).2.store := by
  rw [Pipeline.executeBatch_eq]
  exact reaches_run hA id _ s

include hA in
theorem reaches_finish (p : Pipeline) (taken : Option Nat) (s : σ) :
    Reaches A s (p.finish taken s).2.store := by
  have hall : ∀ (ids : List Nat) (p : Pipeline) (s : σ),
      Reaches A s (Pipeline.executeAll ids p s).2.store := by
    intro ids
    induction ids with
    | nil => exact fun p s => Reaches.refl A s
    | cons id ids ih => exact fun p s => (reaches_executeBatch hA p id s).trans (ih _ _)
  have htaken : ∀ (p : Pipeline) (s : σ), Reaches A s (p.executeTaken taken s).2.store := by
    intro p s
    cases taken with
    | none => exact Reaches.refl A s
    | some id => exact reaches_executeBatch hA p.countFlushed id s
  exact (hall _ _ s).trans (htaken _ _)

end Reaches

/-! ## Runs of a cache -/

namespace Facade

variable [Store σ]

/-- What is asked of a cache changes the store by calls alone. -/
theorem reaches_step (hA : ∀ c, c.putsNothing = false → A c) (x : Facade σ) {act : Act σ}
    (hact : ∀ change, act ≠ .outside change)
    (hputs : ∀ op : Operation, act = .direct op → op.PutsNothing → ∀ c, A c) :
    Reaches A x.store (x.step act).store := by
  cases act with
  | direct op => exact Operation.reaches hA (hputs op rfl) x.store
  | queue w => exact Reaches.refl A x.store
  | scan codec calls pattern namespaced => exact makes_followCursor hA codec _ _ _ _ _ x.store
  | flush => exact reaches_finish hA _ _ x.store
  | shutdown => exact reaches_finish hA _ _ x.store
  | healthCheck force => exact reaches_healthCheck hA force x.store
  | background id =>
    simp only [step]
    split
    · exact reaches_executeBatch hA _ id x.store
    · exact Reaches.refl A x.store
  | outside change => exact absurd rfl (hact change)

end Facade

end BatchingCache
