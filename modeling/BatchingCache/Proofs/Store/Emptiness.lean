import BatchingCache.Proofs.Store.Cursors
import BatchingCache.Proofs.Store.Locality
import Mathlib.Data.List.Induction
/-!
# Empty collections

A scored set that is stored has members.  A map that is stored has fields, with one exception: a key that
is absent when no fields are put into its map holds an empty map, until something else is done to it.
-/

namespace BatchingCache

/-! ## What does away with an empty map -/

def Mutation.overwrites (key : String) : Mutation → Bool
  | set k _ _ => k = key
  | delete k => k = key
  | _ => false

def Call.Overwrites (key : String) : Call → Prop
  | .set k _ _ => k = key
  | .delete k => k = key
  | .mapPut k fields => k = key ∧ fields ≠ []
  | .mapDeleteFields k _ => k = key
  | .batch ms => ∃ m ∈ ms, m.overwrites key
  | _ => False

namespace Content

variable {now : Nat} {key k : String} {d d' : Content}

def Hollow (key : String) (d : Content) : Prop := d.get? key = some (.map ∅)

theorem hollow_congr (h : d'.get? key = d.get? key) : d'.Hollow key ↔ d.Hollow key := by
  rw [Hollow, Hollow, h]

theorem hollow_insert {e : Entry} : Hollow key (d.insert key e) ↔ e = .map ∅ := by
  rw [Hollow, KeyMap.get?_insert_self, Option.some_inj]

theorem not_hollow_erase : ¬ Hollow key (d.erase key) := by
  rw [Hollow, KeyMap.get?_erase, if_pos rfl]
  nofun

theorem hollow_dropExpired : (d.dropExpired now k).Hollow key ↔ d.Hollow key := by
  by_cases hk : key = k
  · subst hk
    rw [Hollow, Hollow, get?_dropExpired_self]
    constructor
    · exact fun h => (Option.filter_eq_some_iff.1 h).1
    · exact fun h => Option.filter_eq_some_iff.2 ⟨h, rfl⟩
  · exact hollow_congr (get?_dropExpired_of_ne hk)

theorem hollow_compareAndSet (expected value : Bytes) :
    (d.compareAndSet now k expected value).2.Hollow key ↔ d.Hollow key := by
  obtain ⟨⟨expiresAt, hlive⟩, happlied⟩ | ⟨-, hrefused⟩ :=
    compareAndSet_cases now k expected value d
  · rw [happlied]
    by_cases hk : key = k
    · subst hk
      refine iff_of_false (mt hollow_insert.1 nofun) ?_
      intro h
      cases (Option.filter_eq_some_iff.1 hlive).1.symm.trans h
    · exact (hollow_congr (get?_insert_of_other _ hk)).trans hollow_dropExpired
  · rw [hrefused]
    exact hollow_dropExpired

theorem hollow_addScored (score : Binary64) (member : Bytes) :
    (d.addScored k score member).2.Hollow key ↔ d.Hollow key := by
  by_cases hk : key = k
  · subst hk
    unfold addScored Hollow
    cases hget : d.get? key with
    | none => simp [KeyMap.get?_insert_self]
    | some e =>
      cases e with
      | scored set => simp [KeyMap.get?_insert_self]
      | string value expiresAt => simp [hget]
      | map fields => simp [hget]
  · exact hollow_congr ((confined_addScored k score member).frame hk)

/-- Nothing is left of a map when its last field is deleted. -/
theorem not_hollow_deleteFields (names : List String) :
    ¬ (d.deleteFields key names).2.Hollow key := by
  unfold deleteFields
  cases hget : d.get? key with
  | none => exact fun h => nomatch hget.symm.trans h
  | some e =>
    cases e with
    | string value expiresAt => exact fun h => nomatch hget.symm.trans h
    | scored set => exact fun h => nomatch hget.symm.trans h
    | map m =>
      dsimp only
      split
      · exact not_hollow_erase
      · rename_i hleft
        intro h
        have hempty := hollow_insert.1 h
        injection hempty with hempty
        rw [hempty] at hleft
        exact hleft rfl

/-- A key comes to hold an empty map by putting no fields where there was nothing. -/
theorem hollow_putFields (fields : List (String × Bytes)) :
    (d.putFields key fields).2.Hollow key ↔
      fields = [] ∧ (d.get? key = none ∨ d.Hollow key) := by
  unfold putFields Hollow
  cases hget : d.get? key with
  | none => simp [KeyMap.get?_insert_self, KeyMap.ofList, KeyMap.insertAll_eq_empty_iff]
  | some e =>
    cases e with
    | map m => simp [KeyMap.get?_insert_self, KeyMap.insertAll_eq_empty_iff, and_comm]
    | string value expiresAt => simp [hget]
    | scored set => simp [hget]

theorem hollow_mutate (m : Mutation) :
    (d.mutate now m).2.Hollow key ↔ d.Hollow key ∧ ¬ m.overwrites key := by
  cases m with
  | set k value ttl =>
    by_cases hk : k = key
    · subst hk
      simp [mutate, write, hollow_insert, Mutation.overwrites]
    · simp [Mutation.overwrites, hk, hollow_congr (get?_insert_of_other _ (Ne.symm hk)), mutate, write]
  | delete k =>
    by_cases hk : k = key
    · subst hk
      simp [mutate, remove, not_hollow_erase, Mutation.overwrites]
    · simp [Mutation.overwrites, hk, hollow_congr (get?_erase_of_other (Ne.symm hk)), mutate, remove]
  | compareAndSet k expected value =>
    exact (hollow_compareAndSet expected value).trans (by simp [Mutation.overwrites])
  | scoredAdd k score member =>
    exact (hollow_addScored score member).trans (by simp [Mutation.overwrites])

theorem hollow_mutateAll (ms : List Mutation) :
    (d.mutateAll now ms).2.Hollow key ↔ d.Hollow key ∧ ¬ ∃ m ∈ ms, m.overwrites key := by
  induction ms generalizing d with
  | nil => simp [mutateAll]
  | cons m ms ih =>
    rw [mutateAll_cons, ih, hollow_mutate, List.exists_mem_cons_iff, not_or, and_assoc]

/-- A call leaves an empty map under a key if it puts no fields where there was nothing, or if an empty
map was there and it does not put anything else in its place. -/
theorem hollow_answer (c : Call) :
    (d.answer now c).2.Hollow key ↔
      c = .mapPut key [] ∧ d.get? key = none ∨ d.Hollow key ∧ ¬ c.Overwrites key := by
  cases c with
  | get k =>
    show (d.read now k).2.Hollow key ↔ _
    rw [snd_read]
    exact hollow_dropExpired.trans (by simp [Call.Overwrites])
  | set k value ttl =>
    refine (@hollow_mutate now key d (.set k value ttl)).trans ?_
    simp [Call.Overwrites, Mutation.overwrites]
  | compareAndSet k expected value =>
    exact (hollow_compareAndSet expected value).trans (by simp [Call.Overwrites])
  | delete k =>
    refine (@hollow_mutate now key d (.delete k)).trans ?_
    simp [Call.Overwrites, Mutation.overwrites]
  | scoredAdd k score member =>
    exact (hollow_addScored score member).trans (by simp [Call.Overwrites])
  | mapPut k fields =>
    by_cases hk : k = key
    · subst hk
      refine (hollow_putFields fields).trans ?_
      by_cases hfields : fields = []
      · simp [Call.Overwrites, hfields]
      · simp [Call.Overwrites, hfields]
    · refine (hollow_congr ((confined_putFields k fields).frame (Ne.symm hk))).trans ?_
      simp [Call.Overwrites, hk]
  | mapDeleteFields k names =>
    by_cases hk : k = key
    · subst hk
      exact iff_of_false (not_hollow_deleteFields names) (by simp [Call.Overwrites])
    · refine (hollow_congr ((confined_deleteFields k names).frame (Ne.symm hk))).trans ?_
      simp [Call.Overwrites, hk]
  | batch ms => exact (hollow_mutateAll ms).trans (by simp [Call.Overwrites])
  | scoredRange k start stop reversed => simp [answer, Call.Overwrites]
  | mapGet k => simp [answer, Call.Overwrites]
  | mapGetFields k names => simp [answer, Call.Overwrites]
  | scan cursor count pattern => simp [answer, Call.Overwrites]

/-! ## Scored sets -/

def SetsPopulated (d : Content) : Prop := ∀ key, d.get? key ≠ some (.scored ∅)

theorem SetsPopulated.insert (h : d.SetsPopulated) {e : Entry} (he : e ≠ .scored ∅) :
    SetsPopulated (d.insert key e) := by
  intro k hk
  by_cases heq : key = k
  · rw [heq, KeyMap.get?_insert_self, Option.some_inj] at hk
    exact he hk
  · rw [KeyMap.get?_insert_of_ne _ _ heq] at hk
    exact h k hk

theorem SetsPopulated.erase (h : d.SetsPopulated) : SetsPopulated (d.erase key) := by
  intro k hk
  rw [KeyMap.get?_erase] at hk
  split at hk
  · cases hk
  · exact h k hk

theorem SetsPopulated.dropExpired (h : d.SetsPopulated) : (d.dropExpired now key).SetsPopulated := by
  unfold Content.dropExpired
  split
  · split
    · exact h.erase
    · exact h
  · exact h

theorem SetsPopulated.compareAndSet (h : d.SetsPopulated) (expected value : Bytes) :
    (d.compareAndSet now key expected value).2.SetsPopulated := by
  obtain ⟨-, happlied⟩ | ⟨-, hrefused⟩ := compareAndSet_cases now key expected value d
  · rw [happlied]
    exact h.dropExpired.insert nofun
  · rw [hrefused]
    exact h.dropExpired

theorem SetsPopulated.addScored (h : d.SetsPopulated) (score : Binary64) (member : Bytes) :
    (d.addScored key score member).2.SetsPopulated := by
  have hmember : ∀ set : ScoredSet, Entry.scored (set.insert ⟨score, member⟩) ≠ .scored ∅ := by
    intro set heq
    injection heq with heq
    have hmem : ⟨score, member⟩ ∈ (set.insert ⟨score, member⟩).members :=
      ScoredSet.mem_insert.2 (.inl rfl)
    rw [heq] at hmem
    cases hmem
  unfold Content.addScored
  split
  · exact h.insert (hmember _)
  · exact h.insert (hmember _)
  · exact h

theorem SetsPopulated.putFields (h : d.SetsPopulated) (fields : List (String × Bytes)) :
    (d.putFields key fields).2.SetsPopulated := by
  unfold Content.putFields
  split
  · exact h.insert nofun
  · exact h.insert nofun
  · exact h

theorem SetsPopulated.deleteFields (h : d.SetsPopulated) (names : List String) :
    (d.deleteFields key names).2.SetsPopulated := by
  unfold Content.deleteFields
  split
  · exact h
  · dsimp only
    split
    · exact h.erase
    · exact h.insert nofun
  · exact h

theorem SetsPopulated.mutateAll (h : d.SetsPopulated) (ms : List Mutation) :
    (d.mutateAll now ms).2.SetsPopulated := by
  induction ms generalizing d with
  | nil => exact h
  | cons m ms ih =>
    apply ih
    cases m with
    | set key value ttl => exact h.insert nofun
    | compareAndSet key expected value => exact h.compareAndSet expected value
    | delete key => exact h.erase
    | scoredAdd key score member => exact h.addScored score member

/-- No call leaves a scored set without members. -/
theorem SetsPopulated.answer (h : d.SetsPopulated) (c : Call) :
    (d.answer now c).2.SetsPopulated := by
  cases c with
  | get key =>
    show (d.read now key).2.SetsPopulated
    rw [snd_read]
    exact h.dropExpired
  | set key value ttl => exact h.insert nofun
  | compareAndSet key expected value => exact h.compareAndSet expected value
  | delete key => exact h.erase
  | scoredAdd key score member => exact h.addScored score member
  | mapPut key fields => exact h.putFields fields
  | mapDeleteFields key names => exact h.deleteFields names
  | batch ms => exact h.mutateAll ms
  | scoredRange key start stop reversed => exact h
  | mapGet key => exact h
  | mapGetFields key names => exact h
  | scan cursor count pattern => exact h

end Content

/-! ## Whole histories -/

namespace Memory

variable {key : String} {events : List Event}

def Event.Overwrites (key : String) : Event → Prop
  | .call c => c.Overwrites key
  | .wait _ => False

/-- No fields were put into the map of a key that held nothing, and the outcome was left alone since. -/
def LeftEmpty (key : String) (events : List Event) : Prop :=
  ∃ before since, events = before ++ .call (.mapPut key []) :: since ∧
    (({} : Memory).afterAll before).content.get? key = none ∧
    ∀ e ∈ since, ¬ e.Overwrites key

theorem leftEmpty_append_singleton (events : List Event) (e : Event) :
    LeftEmpty key (events ++ [e]) ↔
      e = .call (.mapPut key []) ∧ (({} : Memory).afterAll events).content.get? key = none ∨
        LeftEmpty key events ∧ ¬ e.Overwrites key := by
  constructor
  · rintro ⟨before, since, hsplit, habsent, hsince⟩
    rcases List.eq_nil_or_concat' since with rfl | ⟨since', e', rfl⟩
    · obtain ⟨rfl, he⟩ := List.append_inj' hsplit rfl
      injection he with he
      exact .inl ⟨he, habsent⟩
    · rw [← List.cons_append, ← List.append_assoc] at hsplit
      obtain ⟨rfl, he⟩ := List.append_inj' hsplit rfl
      injection he with he
      subst he
      obtain ⟨hsince, he⟩ := List.forall_mem_append.1 hsince
      exact .inr ⟨⟨before, since', rfl, habsent, hsince⟩, he e (List.mem_singleton_self e)⟩
  · rintro (⟨rfl, habsent⟩ | ⟨⟨before, since, rfl, habsent, hsince⟩, he⟩)
    · exact ⟨events, [], rfl, habsent, nofun⟩
    · refine ⟨before, since ++ [e], by simp, habsent, ?_⟩
      exact List.forall_mem_append.2 ⟨hsince, List.forall_mem_singleton.2 he⟩

/-- A key holds an empty map exactly if its map was left empty. -/
theorem hollow_afterAll_iff :
    (({} : Memory).afterAll events).content.Hollow key ↔ LeftEmpty key events := by
  induction events using List.reverseRecOn with
  | nil =>
    refine iff_of_false nofun ?_
    rintro ⟨before, since, hsplit, -⟩
    exact absurd hsplit.symm (List.append_ne_nil_of_right_ne_nil _ (List.cons_ne_nil _ _))
  | append_singleton events e ih =>
    rw [leftEmpty_append_singleton, ← ih, afterAll_append_singleton]
    cases e with
    | wait nanos => simp [after, Event.Overwrites]
    | call c =>
      -- An empty map is made by this call, or it was there and this call leaves it.
      have hserving : (({} : Memory).afterAll events).failing = false := failing_afterAll _ _
      rw [after, content_call hserving, Content.hollow_answer]
      simp [Event.Overwrites]

theorem setsPopulated_afterAll : (({} : Memory).afterAll events).content.SetsPopulated := by
  induction events using List.reverseRecOn with
  | nil => nofun
  | append_singleton events e ih =>
    rw [afterAll_append_singleton]
    cases e with
    | wait nanos => exact ih
    | call c =>
      have hserving : (({} : Memory).afterAll events).failing = false := failing_afterAll _ _
      rw [after, content_call hserving]
      exact ih.answer c

end Memory

end BatchingCache
