import BatchingCache.Proofs.Cache.Operations
import BatchingCache.Proofs.Store.Fields
import BatchingCache.Proofs.Text.Utf8
/-!
# Maps of entities as finite maps

What a cache does with the maps under a key is what one does with finite maps from names to entities:
override, restrict, leave out.  A key that holds nothing stands for the empty map.
-/

namespace BatchingCache

variable {α β : Type} {codec : Codec α} {m : String → Option α}

/-! ## Writing and reading fields -/

theorem exists_mapM_values {f : α → Except CacheError β} {l : List (String × α)}
    (h : ∀ e ∈ l, ∃ y, f e.2 = .ok y) :
    ∃ l', (l.mapM fun (name, x) => do
        let y ← f x
        pure (name, y)) = .ok l' ∧
      (l'.map fun e => (e.1, Except.ok e.2)) = l.map fun e => (e.1, f e.2) := by
  induction l with
  | nil => exact ⟨[], rfl, rfl⟩
  | cons e l ih =>
    obtain ⟨name, x⟩ := e
    obtain ⟨⟨y, hy⟩, hl⟩ := List.forall_mem_cons.1 h
    obtain ⟨l', hl', hvalues⟩ := ih hl
    refine ⟨(name, y) :: l', ?_, ?_⟩
    · have hx : f x = .ok y := hy
      simp only [List.mapM_cons, hl', hx]
      rfl
    · rw [List.map_cons, List.map_cons, hvalues, hy]

theorem mapM_values {f : α → Except CacheError β} {new : KeyMap α}
    (h : ∀ name x, new.get? name = some x → ∃ y, f x = .ok y) :
    ∃ l, (new.toList.mapM fun (name, x) => do
        let y ← f x
        pure (name, y)) = .ok l ∧
      ∀ name, (l.reverse.lookup name).map Except.ok = (new.get? name).map f := by
  obtain ⟨l, hl, hvalues⟩ := exists_mapM_values fun e he => h e.1 e.2 (KeyMap.mem_toList_iff.1 he)
  refine ⟨l, hl, fun name => ?_⟩
  rw [← KeyMap.lookup_map_values, List.map_reverse, hvalues, ← List.map_reverse, KeyMap.lookup_map_values,
    KeyMap.lookup_reverse_toList]

def ReadAs (codec : Codec α) (fields : KeyMap Bytes) (m : String → Option α) : Prop :=
  ∀ name, (fields.get? name).map codec.decode = (m name).map Except.ok

/-- A map is got, and what it has under the names is this. -/
def Gives (r : Except CacheError (KeyMap α)) (m : String → Option α) : Prop :=
  ∃ found, r = .ok found ∧ ∀ name, found.get? name = m name

theorem readFields_of_readAs {fields : KeyMap Bytes} (h : ReadAs codec fields m) :
    Gives (Cache.readFields codec fields) m := by
  have hread : ∀ name, (fields.get? name).map codec.read = (m name).map Except.ok := by
    intro name
    have hdecode := congrArg (Option.map (Except.mapError CacheError.codec)) (h name)
    rw [Option.map_map, Option.map_map] at hdecode
    exact hdecode
  have hreadable : ∀ name bs, fields.get? name = some bs → ∃ x, codec.read bs = .ok x := by
    intro name bs hget
    have hname := hread name
    rw [hget] at hname
    obtain ⟨x, -, hx⟩ := Option.map_eq_some_iff.1 hname.symm
    exact ⟨x, hx.symm⟩
  obtain ⟨l, hl, hlookup⟩ := mapM_values hreadable
  refine ⟨KeyMap.ofList l, ?_, fun name => ?_⟩
  · unfold Cache.readFields
    rw [hl]
    rfl
  · have hok : Function.Injective (Except.ok : α → Except CacheError α) := fun _ _ => Except.ok.inj
    apply Option.map_injective hok
    rw [KeyMap.ofList, KeyMap.get?_insertAll, KeyMap.get?_empty, Option.or_none, hlookup, hread]

def Codec.RoundTrips (codec : Codec α) (x : α) : Prop :=
  ∃ bs, codec.encode x = .ok bs ∧ codec.decode bs = .ok x

theorem Codec.roundTrips_text (x : String) : Codec.text.RoundTrips x := by
  refine ⟨Utf8.encode x, rfl, ?_⟩
  show (Utf8.decode (Utf8.encode x)).mapError _ = .ok x
  rw [Utf8.decode_encode]
  rfl

/-- Entities that are written over fields override the entities of these. -/
theorem writeFields_of_roundTrips {fields : KeyMap Bytes} (h : ReadAs codec fields m) {new : KeyMap α}
    (hnew : ∀ name x, new.get? name = some x → codec.RoundTrips x) :
    ∃ written, Cache.writeFields codec new.toList = .ok written ∧
      ReadAs codec (fields.insertAll written) fun name => (new.get? name).or (m name) := by
  have hwritable : ∀ name x, new.get? name = some x → ∃ bs, codec.write x = .ok bs := by
    intro name x hget
    obtain ⟨bs, hbs, -⟩ := hnew name x hget
    exact ⟨bs, congrArg _ hbs⟩
  obtain ⟨written, hwritten, hlookup⟩ := mapM_values hwritable
  refine ⟨written, hwritten, fun name => ?_⟩
  have hname := hlookup name
  show Option.map _ _ = ((new.get? name).or (m name)).map Except.ok
  rw [KeyMap.get?_insertAll]
  cases hget : new.get? name with
  | none =>
    rw [hget] at hname
    rw [Option.map_eq_none_iff.1 hname, Option.none_or, Option.none_or]
    exact h name
  | some x =>
    obtain ⟨bs, hbs, hback⟩ := hnew name x hget
    have hwrite : codec.write x = .ok bs := congrArg _ hbs
    rw [hget, Option.map_some, hwrite] at hname
    obtain ⟨bs', hbs', heq⟩ := Option.map_eq_some_iff.1 hname
    cases heq
    rw [hbs', Option.some_or, Option.some_or, Option.map_some, Option.map_some, hback]

/-! ## Fields that are asked for -/

theorem mem_nameSet {names : List String} {name : String} : name ∈ nameSet names ↔ name ∈ names := by
  rw [nameSet, KeyMap.mem_keys_iff, KeyMap.ofList, KeyMap.contains_insertAll_iff]
  simp [KeyMap.contains]

theorem wantedFields_of_whole {fields : Option (List String)} (h : fields = none ∨ fields = some []) :
    wantedFields fields = none := by
  rcases h with rfl | rfl
  · rfl
  · rfl

theorem wantedFields_of_names {names : List String} (h : names ≠ []) :
    wantedFields (some names) = some (nameSet names) := by
  obtain ⟨name, hname⟩ := List.exists_mem_of_ne_nil names h
  have hne : nameSet names ≠ [] := List.ne_nil_of_mem (mem_nameSet.2 hname)
  exact if_pos (decide_eq_true hne)

/-! ## Maps that a store holds -/

/-- A key holds a map whose values are read as these entities, or nothing if there are none. -/
def Content.HoldsMap (codec : Codec α) (key : String) (m : String → Option α) (d : Content) : Prop :=
  ∃ fields, d.fields key = .ok fields ∧ ReadAs codec fields m

namespace Cache

section Calls

variable {c : Cache} {key : String} {namespaced : Bool} {s : Memory}

theorem putMap_eq (new : KeyMap α) :
    c.putMap codec { key := some key, value := some new, namespaced } s =
      direct "put_map_of_entities" (liftM (writeFields codec new.toList) >>= fun written =>
        perform (.mapPut (c.tenant.wireKey key namespaced) written)) s := rfl

theorem putMap_of_written {new : KeyMap α} {written : List (String × Bytes)}
    (h : writeFields codec new.toList = .ok written) :
    let o := c.putMap codec { key := some key, value := some new, namespaced } s
    let answered := s.call (.mapPut (c.tenant.wireKey key namespaced) written)
    o.result = answered.1.mapError .store ∧ o.store = answered.2 := by
  rw [putMap_eq, h]
  exact ⟨rfl, rfl⟩

theorem putMap_of_unwritable {new : KeyMap α} {e : CacheError}
    (h : writeFields codec new.toList = .error e) :
    (c.putMap codec { key := some key, value := some new, namespaced } s).store = s := by
  rw [putMap_eq, h]
  rfl

/-- A call that only reads is answered, and the content stays. -/
theorem direct_of_read (name : String) {call : Call} {x : call.Answer} (hs : s.failing = false)
    (h : s.content.answer s.now call = (.ok x, s.content)) (k : call.Answer → Except CacheError α) :
    let o := direct name (perform call >>= fun x => (liftM (k x) : Query Memory α)) s
    o.result = k x ∧ o.store.content = s.content := by
  have hcall := Memory.call_of_answer hs (congrArg Prod.fst h)
  intro o
  have ho : (o.result, o.store) = (k x, (s.call call).2) := by
    show (perform call >>= fun x => (liftM (k x) : Query Memory α)).run.run s = _
    rw [run_perform_bind, hcall]
    dsimp only
    cases k x with
    | error e => rfl
    | ok y => rfl
  obtain ⟨hresult, hstore⟩ := Prod.mk_inj.1 ho
  refine ⟨hresult, ?_⟩
  rw [hstore, Memory.content_call hs, h]

def asked (fields : Option (List String)) (held : KeyMap Bytes) : KeyMap Bytes :=
  match wantedFields fields with
  | some names => held.filter fun name _ => names.contains name
  | none => held

theorem getMap_of_held {held : KeyMap Bytes} (hs : s.failing = false)
    (hheld : s.content.fields (c.tenant.wireKey key namespaced) = .ok held)
    (fields : Option (List String)) :
    let o := c.getMap codec { key := some key, fields, namespaced } s
    o.result = readFields codec (asked fields held) ∧ o.store.content = s.content := by
  intro o
  unfold asked
  cases hwanted : wantedFields fields with
  | none =>
    have ho : o = direct "get_map_of_entities"
        (perform (.mapGet (c.tenant.wireKey key namespaced)) >>= fun m =>
          liftM (readFields codec m)) s := by
      show getMap codec c _ s = _
      unfold getMap
      simp only [hwanted]
      rfl
    have hanswer : s.content.answer s.now (.mapGet (c.tenant.wireKey key namespaced)) =
        (.ok held, s.content) := congrArg (·, s.content) hheld
    rw [ho]
    exact direct_of_read _ hs hanswer _
  | some names =>
    have ho : o = direct "get_map_of_entities"
        (perform (.mapGetFields (c.tenant.wireKey key namespaced) names) >>= fun m =>
          liftM (readFields codec m)) s := by
      show getMap codec c _ s = _
      unfold getMap
      simp only [hwanted]
      rfl
    have hanswer : s.content.answer s.now (.mapGetFields (c.tenant.wireKey key namespaced) names) =
        (.ok (held.filter fun name _ => names.contains name), s.content) := by
      rw [Content.answer, hheld]
      rfl
    rw [ho]
    exact direct_of_read _ hs hanswer _

def deletion (key : String) (fields : Option (List String)) : Call :=
  match wantedFields fields with
  | some names => .mapDeleteFields key names
  | none => .delete key

theorem deletion_whole {fields : Option (List String)} (h : fields = none ∨ fields = some []) :
    deletion key fields = .delete key := by
  rw [deletion, wantedFields_of_whole h]

theorem deletion_names {names : List String} (h : names ≠ []) :
    deletion key (some names) = .mapDeleteFields key (nameSet names) := by
  rw [deletion, wantedFields_of_names h]

theorem within_deletion (key : String) (fields : Option (List String)) :
    (deletion key fields).Within (· = key) := by
  unfold deletion
  cases wantedFields fields with
  | none => exact rfl
  | some names => exact rfl

theorem deleteMap_eq (fields : Option (List String)) :
    c.deleteMap { key := some key, fields, namespaced } s =
      direct "delete_map_of_entities"
        (discard (perform (deletion (c.tenant.wireKey key namespaced) fields))) s := by
  unfold deleteMap deletion
  cases wantedFields fields with
  | none => rfl
  | some names => rfl

theorem store_deleteMap (fields : Option (List String)) :
    (c.deleteMap { key := some key, fields, namespaced } s).store =
      (s.call (deletion (c.tenant.wireKey key namespaced) fields)).2 := by
  rw [deleteMap_eq, direct, run_discard_perform]
  rfl

theorem result_deleteMap (hs : s.failing = false) {fields : Option (List String)} {call : Call}
    (hcall : deletion (c.tenant.wireKey key namespaced) fields = call)
    (h : ∃ x, (s.content.answer s.now call).1 = .ok x) :
    (c.deleteMap { key := some key, fields, namespaced } s).result = .ok () := by
  subst hcall
  obtain ⟨x, hx⟩ := h
  rw [deleteMap_eq, direct, run_discard_perform]
  show Except.map _ (Except.mapError CacheError.store (s.call _).1) = _
  rw [Memory.fst_call hs, hx]
  rfl

/-! ### Other keys -/

theorem putMap_frame (new : KeyMap α) {k : String} (hk : k ≠ c.tenant.wireKey key namespaced) :
    (c.putMap codec { key := some key, value := some new, namespaced } s).store.content.get? k =
      s.content.get? k := by
  cases hl : writeFields codec new.toList with
  | error e => rw [putMap_of_unwritable hl]
  | ok written =>
    have hwithin : (Call.mapPut (c.tenant.wireKey key namespaced) written).Within
        (· = c.tenant.wireKey key namespaced) := rfl
    rw [(putMap_of_written hl).2]
    exact ((Memory.confined_call hwithin).frame s).content k hk

theorem deleteMap_frame (fields : Option (List String)) {k : String}
    (hk : k ≠ c.tenant.wireKey key namespaced) :
    (c.deleteMap { key := some key, fields, namespaced } s).store.content.get? k =
      s.content.get? k := by
  rw [store_deleteMap]
  exact ((Memory.confined_call (within_deletion _ fields)).frame s).content k hk

end Calls

/-! ## What becomes of a map -/

section Held

variable {c : Cache} {key wire : String} {namespaced : Bool} {s : Memory} {names : List String}
  {fields : Option (List String)} {new : KeyMap α}
  (hwire : c.tenant.wireKey key namespaced = wire) (hs : s.failing = false)
  (hm : s.content.HoldsMap codec wire m)

include hwire hs hm

theorem gives_getMap_whole (h : fields = none ∨ fields = some []) :
    Gives (c.getMap codec { key := some key, fields, namespaced } s).result m := by
  obtain ⟨held, hheld, hread⟩ := hm
  subst hwire
  rw [(getMap_of_held hs hheld fields).1, asked, wantedFields_of_whole h]
  exact readFields_of_readAs hread

theorem gives_getMap_names (h : names ≠ []) :
    Gives (c.getMap codec { key := some key, fields := some names, namespaced } s).result
      fun name => if name ∈ names then m name else none := by
  obtain ⟨held, hheld, hread⟩ := hm
  subst hwire
  rw [(getMap_of_held hs hheld (some names)).1, asked, wantedFields_of_names h]
  refine readFields_of_readAs fun name => ?_
  rw [KeyMap.get?_filter_contains]
  simp only [mem_nameSet]
  split
  · exact hread name
  · rfl

theorem holdsMap_putMap (hnew : ∀ name x, new.get? name = some x → codec.RoundTrips x) :
    let o := c.putMap codec { key := some key, value := some new, namespaced } s
    o.result = .ok () ∧ o.store.failing = false ∧
      o.store.content.HoldsMap codec wire fun name => (new.get? name).or (m name) := by
  obtain ⟨held, hheld, hread⟩ := hm
  obtain ⟨written, hwritten, hnext⟩ := writeFields_of_roundTrips hread hnew
  subst hwire
  intro o
  obtain ⟨hresult, hstore⟩ : _ ∧ _ := putMap_of_written hwritten
  have hanswer : s.content.answer s.now (.mapPut (c.tenant.wireKey key namespaced) written) = _ :=
    Content.putFields_of_fields hheld written
  refine ⟨?_, ?_, ?_⟩
  · rw [hresult, Memory.fst_call hs, hanswer]
    rfl
  · rw [hstore, Memory.failing_call, hs]
  · rw [hstore, Memory.content_call hs, hanswer]
    exact ⟨_, Content.fields_insert _ _ _, hnext⟩

theorem deleteMap_whole (h : fields = none ∨ fields = some []) :
    let o := c.deleteMap { key := some key, fields, namespaced } s
    o.result = .ok () ∧ o.store.content.get? wire = none := by
  subst hwire
  intro o
  refine ⟨result_deleteMap hs (deletion_whole h) ⟨_, rfl⟩, ?_⟩
  rw [store_deleteMap, deletion_whole h, Memory.content_call hs]
  exact (KeyMap.get?_erase _ _ _).trans (if_pos rfl)

theorem holdsMap_deleteMap_names (h : names ≠ []) :
    let o := c.deleteMap { key := some key, fields := some names, namespaced } s
    o.result = .ok () ∧ o.store.failing = false ∧
      o.store.content.HoldsMap codec wire fun name => if name ∈ names then none else m name := by
  obtain ⟨held, hheld, hread⟩ := hm
  subst hwire
  intro o
  refine ⟨result_deleteMap hs (deletion_names h) (Content.deleteFields_ok hheld _), ?_, ?_⟩
  · rw [store_deleteMap, Memory.failing_call, hs]
  · rw [store_deleteMap, deletion_names h, Memory.content_call hs]
    refine ⟨_, Content.fields_deleteFields hheld _, fun name => ?_⟩
    rw [Content.get?_eraseFields]
    simp only [mem_nameSet]
    split
    · rfl
    · exact hread name

/-- Deleting all fields of a map leaves the store as deleting the map does. -/
theorem store_deleteMap_of_covers (h : ∀ name, m name ≠ none → name ∈ names) :
    (c.deleteMap { key := some key, fields := some names, namespaced } s).store =
      (c.deleteMap { key := some key, namespaced } s).store := by
  obtain ⟨held, hheld, hread⟩ := hm
  subst hwire
  rw [store_deleteMap, store_deleteMap, deletion_whole (.inl rfl)]
  by_cases hnames : names = []
  · rw [deletion_whole (.inr (congrArg some hnames))]
  · have hcovers : ∀ name, held.contains name → name ∈ nameSet names := by
      intro name hname
      refine mem_nameSet.2 (h name fun hnone => ?_)
      have hvalue := hread name
      rw [hnone, Option.map_none, Option.map_eq_none_iff] at hvalue
      rw [KeyMap.contains, hvalue] at hname
      cases hname
    have hcontent : (s.content.deleteFields (c.tenant.wireKey key namespaced) (nameSet names)).2 =
        (s.content.remove (c.tenant.wireKey key namespaced)).2 :=
      Content.deleteFields_of_covers hheld hcovers
    rw [deletion_names hnames, Memory.snd_call hs (.mapDeleteFields ..) (fun _ h => by cases h) rfl,
      Memory.snd_call hs (.delete _) (fun _ h => by cases h) rfl]
    exact congrArg (fun content => { s with content, calls := s.calls + 1 }) hcontent

theorem store_putMap_comm {new' : KeyMap α} (h : ∀ name, new.contains name → ¬ new'.contains name) :
    let put := fun (new : KeyMap α) (s : Memory) =>
      (c.putMap codec { key := some key, value := some new, namespaced } s).store
    put new' (put new s) = put new (put new' s) := by
  obtain ⟨held, hheld, -⟩ := hm
  subst hwire
  intro put
  have hput : ∀ {new written}, writeFields codec new.toList = .ok written →
      ∀ s : Memory, s.failing = false → put new s = { s with
        content := (s.content.putFields (c.tenant.wireKey key namespaced) written).2,
        calls := s.calls + 1 } := by
    intro new written hwritten s hs
    have hstore : put new s = (s.call (.mapPut _ written)).2 := (putMap_of_written hwritten).2
    rw [hstore, Memory.snd_call hs (.mapPut _ written) (fun _ h => by cases h) rfl]
    rfl
  have hskip : ∀ {new e}, writeFields codec new.toList = .error e → ∀ s : Memory, put new s = s :=
    fun herror _ => putMap_of_unwritable herror
  have hboth : ∀ {new new' l l'}, writeFields codec new.toList = .ok l →
      writeFields codec new'.toList = .ok l' → put new' (put new s) = { s with
        content := ((s.content.putFields (c.tenant.wireKey key namespaced) l).2.putFields
          (c.tenant.wireKey key namespaced) l').2,
        calls := s.calls + 2 } := by
    intro new new' l l' hl hl'
    have hserving : (put new s).failing = false := by rw [hput hl s hs, hs]
    rw [hput hl' (put new s) hserving, hput hl s hs]
  cases hl : writeFields codec new.toList with
  | error e => rw [hskip hl, hskip hl]
  | ok l =>
    cases hl' : writeFields codec new'.toList with
    | error e => rw [hskip hl', hskip hl']
    | ok l' =>
      have hdisjoint : ∀ name, name ∈ l.map Prod.fst → name ∉ l'.map Prod.fst := by
        intro name hname hname'
        rw [names_of_writeFields hl] at hname
        rw [names_of_writeFields hl'] at hname'
        exact h name (KeyMap.mem_keys_iff.1 hname) (KeyMap.mem_keys_iff.1 hname')
      rw [hboth hl hl', hboth hl' hl, Content.putFields_comm hheld hdisjoint]

end Held

/-! ## Finite maps -/

/-- What a cache does with the map under a key of a store that serves: a put overrides, a read restricts
to the names that are asked for, a deletion leaves them out, and if no name is asked for, the whole map is
meant.  Deleting all that a map has is deleting it, puts of different names do the same in either order,
and what other keys hold stays. -/
theorem maps_are_finite_maps (c : Cache) (key : String) (namespaced : Bool) {s : Memory}
    (hs : s.failing = false)
    (hm : s.content.HoldsMap codec (c.tenant.wireKey key namespaced) m) :
    let wire := c.tenant.wireKey key namespaced
    let put := fun (new : KeyMap α) (s : Memory) =>
      c.putMap codec { key := some key, value := some new, namespaced } s
    let get := fun (fields : Option (List String)) (s : Memory) =>
      c.getMap codec { key := some key, fields, namespaced } s
    let delete := fun (fields : Option (List String)) (s : Memory) =>
      c.deleteMap { key := some key, fields, namespaced } s
    (∀ new : KeyMap α, (∀ name x, new.get? name = some x → codec.RoundTrips x) →
      (put new s).result = .ok () ∧
        ∀ whole, whole = none ∨ whole = some [] →
          Gives (get whole (put new s).store).result fun name => (new.get? name).or (m name)) ∧
    (∀ whole, whole = none ∨ whole = some [] →
      Gives (get whole s).result m ∧ (delete whole s).result = .ok () ∧
        (delete whole s).store.content.get? wire = none) ∧
    (∀ names, names ≠ [] →
      Gives (get (some names) s).result (fun name => if name ∈ names then m name else none) ∧
        (delete (some names) s).result = .ok () ∧
        ∀ whole, whole = none ∨ whole = some [] →
          Gives (get whole (delete (some names) s).store).result
            fun name => if name ∈ names then none else m name) ∧
    (∀ names, (∀ name, m name ≠ none → name ∈ names) →
      (delete (some names) s).store = (delete none s).store) ∧
    (∀ new new' : KeyMap α, (∀ name, new.contains name → ¬ new'.contains name) →
      (put new' (put new s).store).store = (put new (put new' s).store).store) ∧
    (∀ k, k ≠ wire → ∀ new fields,
      (put new s).store.content.get? k = s.content.get? k ∧
        (delete fields s).store.content.get? k = s.content.get? k) ∧
    ∀ fields, (get fields s).store.content = s.content := by
  intro wire put get delete
  refine ⟨?_, ?_, ?_, ?_, ?_, ?_, ?_⟩
  · intro new hnew
    obtain ⟨hresult, hserving, hnext⟩ := holdsMap_putMap rfl hs hm hnew
    exact ⟨hresult, fun whole hwhole => gives_getMap_whole rfl hserving hnext hwhole⟩
  · intro whole hwhole
    exact ⟨gives_getMap_whole rfl hs hm hwhole, deleteMap_whole rfl hs hm hwhole⟩
  · intro names hnames
    obtain ⟨hresult, hserving, hnext⟩ := holdsMap_deleteMap_names rfl hs hm hnames
    exact ⟨gives_getMap_names rfl hs hm hnames, hresult,
      fun whole hwhole => gives_getMap_whole rfl hserving hnext hwhole⟩
  · intro names hcovers
    exact store_deleteMap_of_covers rfl hs hm hcovers
  · intro new new' hdisjoint
    exact store_putMap_comm rfl hs hm hdisjoint
  · intro k hk new fields
    exact ⟨putMap_frame new hk, deleteMap_frame fields hk⟩
  · intro fields
    obtain ⟨held, hheld, -⟩ := hm
    exact (getMap_of_held hs hheld fields).2

theorem maps_of_texts :
    let old : KeyMap String := .ofList [("a", "1"), ("b", "2")]
    let new : KeyMap String := .ofList [("b", "3")]
    ∃ c, build true {} = .ok c ∧
      let s := (c.putMap .text { key := some "h", value := some old } ({} : Memory)).store
      s.failing = false ∧ s.content.HoldsMap .text (c.tenant.wireKey "h" true) old.get? ∧
        (∃ found, (c.getMap .text { key := some "h" }
            (c.putMap .text { key := some "h", value := some new } s).store).result = .ok found ∧
          found.get? "a" = some "1" ∧ found.get? "b" = some "3") ∧
        (c.deleteMap { key := some "h", fields := some ["a", "z", "b"] } s).store =
          (c.deleteMap { key := some "h" } s).store := by
  intro old new
  obtain ⟨c, hbuild⟩ : ∃ c, build true {} = .ok c := ⟨_, rfl⟩
  have hempty : ({} : Memory).content.HoldsMap .text (c.tenant.wireKey "h" true) fun _ => none :=
    ⟨∅, rfl, fun _ => rfl⟩
  obtain ⟨-, hs, hm⟩ : _ ∧ _ ∧ _ := holdsMap_putMap rfl rfl hempty
    fun name x (_ : old.get? name = some x) => Codec.roundTrips_text x
  simp only [Option.or_none] at hm
  obtain ⟨hput, -, -, hcovers, -⟩ := maps_are_finite_maps c "h" true hs hm
  obtain ⟨-, hgives⟩ := hput new fun _ x _ => Codec.roundTrips_text x
  obtain ⟨found, hfound, hvalues⟩ := hgives none (.inl rfl)
  refine ⟨c, hbuild, hs, hm, ⟨found, hfound, hvalues "a", hvalues "b"⟩, hcovers _ ?_⟩
  intro name hname
  have hcontains : old.contains name := by
    rwa [KeyMap.contains, Option.isSome_iff_ne_none]
  have hmem : name ∈ old.keys := KeyMap.mem_keys_iff.2 hcontains
  rw [show old.keys = ["a", "b"] from by decide] at hmem
  simp only [List.mem_cons, List.not_mem_nil, or_false] at hmem ⊢
  exact hmem.imp_right .inr

end Cache

end BatchingCache
