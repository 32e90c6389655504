import BatchingCache.Proofs.Store.Cursors
import BatchingCache.Proofs.Store.Locality
/-!
# Strings as registers

What is read of a string, and whether a compare-and-set of it is applied, depends on the last deed that
was done to its key: a deletion, or a write with the instant at which it expires, if there is one.  When
an expired string is dropped makes no difference.
-/

namespace BatchingCache

inductive Deed where
  /-- A write, and the instant from which the value is gone. -/
  | wrote (value : Bytes) (deadline : Option Nat)
  | deleted
  deriving DecidableEq, Repr

def Deed.entry : Deed → Option Entry
  | wrote value deadline => some (.string value deadline)
  | deleted => none

def Mutation.asRegister (key : String) : Mutation → Bool
  | scoredAdd k _ _ => k ≠ key
  | _ => true

def Call.AsRegister (key : String) : Call → Prop
  | .scoredAdd k _ _ => k ≠ key
  | .mapPut k _ => k ≠ key
  | .mapDeleteFields k _ => k ≠ key
  | .batch ms => ∀ m ∈ ms, m.asRegister key
  | _ => True

/-- What a mutation that is replied to has done to a key by the clock reading `now`.  A compare-and-set
does something only if it is applied, and then it writes a value that does not expire. -/
def Mutation.deeds (key : String) (now : Nat) : Mutation → Reply → List Deed
  | set k value ttl, _ => if k = key then [.wrote value (ttl.map fun ttl => now + ttl.nanos)] else []
  | compareAndSet k _ value, r => if k = key ∧ r.isApplied then [.wrote value none] else []
  | delete k, _ => if k = key then [.deleted] else []
  | scoredAdd .., _ => []

def Call.deeds (key : String) (now : Nat) : (c : Call) → Except StoreError c.Answer → List Deed
  | .set k value ttl, _ => (Mutation.set k value ttl).deeds key now .done
  | .compareAndSet k expected value, r =>
    (Mutation.compareAndSet k expected value).deeds key now (.applied (r.toOption.getD false))
  | .delete k, _ => (Mutation.delete k).deeds key now .done
  | .batch ms, .ok replies => (ms.zip replies).flatMap fun (m, r) => m.deeds key now r
  | _, _ => []

theorem Mutation.deeds_of_ne {key : String} {m : Mutation} (h : m.key ≠ key) (now : Nat) (r : Reply) :
    m.deeds key now r = [] := by
  cases m with
  | set k value ttl => exact if_neg h
  | compareAndSet k expected value => exact if_neg fun hand => h hand.1
  | delete k => exact if_neg h
  | scoredAdd k score member => rfl

namespace Content

variable {now t : Nat} {key k : String} {d d' : Content} {deeds : List Deed}

/-- A compare-and-set is applied exactly if its key reads as the expected value. -/
theorem compareAndSet_eq_true_iff {expected value : Bytes} :
    (d.compareAndSet now key expected value).1 = .ok true ↔
      (d.read now key).1 = .ok (some expected) := by
  rw [fst_read_eq_some_iff]
  obtain ⟨hlive, happlied⟩ | ⟨hlive, hrefused⟩ := compareAndSet_cases now key expected value d
  · exact iff_of_true (congrArg Prod.fst happlied) hlive
  · rw [hrefused]
    exact iff_of_false (refusal_ne_true _) hlive

/-! ## What stands of the deeds -/

/-- From the instant `now` on, a key holds what the last of the deeds has made of it. -/
def StandsBy (key : String) (deeds : List Deed) (now : Nat) (d : Content) : Prop :=
  ∀ t, now ≤ t → d.live t key = (deeds.getLast?.bind Deed.entry).filter fun e => !e.isExpired t

theorem StandsBy.later (h : d.StandsBy key deeds now) (hle : now ≤ t) : d.StandsBy key deeds t :=
  fun t' hle' => h t' (hle.trans hle')

theorem StandsBy.congr (h : d.StandsBy key deeds now)
    (hlive : ∀ t, now ≤ t → d'.live t key = d.live t key) : d'.StandsBy key deeds now :=
  fun t hle => (hlive t hle).trans (h t hle)

theorem StandsBy.of_get?_eq (h : d.StandsBy key deeds now) (hget : d'.get? key = d.get? key) :
    d'.StandsBy key (deeds ++ []) now := by
  rw [List.append_nil]
  exact h.congr fun _ _ => live_congr hget

theorem StandsBy.dropExpired (h : d.StandsBy key deeds now) :
    (d.dropExpired now k).StandsBy key (deeds ++ []) now := by
  rw [List.append_nil]
  exact h.congr fun _ hle => live_dropExpired hle

theorem standsBy_append_of_get? {deed : Deed} (h : d.get? key = deed.entry) :
    d.StandsBy key (deeds ++ [deed]) now := by
  intro t _
  rw [List.getLast?_append_of_ne_nil _ (List.cons_ne_nil _ _), live, h]
  rfl

/-- What is live under a key was written by the last of the deeds, and its deadline has not come. -/
theorem StandsBy.live_iff (h : d.StandsBy key deeds now) {entry : Entry} :
    d.live now key = some entry ↔
      ∃ value deadline, entry = .string value deadline ∧
        deeds.getLast? = some (.wrote value deadline) ∧ ∀ instant ∈ deadline, now < instant := by
  rw [h now (Nat.le_refl now), Option.filter_eq_some_iff, Option.bind_eq_some_iff, Bool.not_eq_true']
  constructor
  · rintro ⟨⟨deed, hlast, hentry⟩, hexpired⟩
    cases deed with
    | deleted => cases hentry
    | wrote value deadline =>
      cases hentry
      exact ⟨value, deadline, rfl, hlast, isExpired_string_eq_false_iff.1 hexpired⟩
  · rintro ⟨value, deadline, rfl, hlast, hbefore⟩
    exact ⟨⟨_, hlast, rfl⟩, isExpired_string_eq_false_iff.2 hbefore⟩

theorem StandsBy.read (h : d.StandsBy key deeds now) :
    ∃ found, (d.read now key).1 = .ok found ∧ ∀ value, found = some value ↔
      ∃ deadline, deeds.getLast? = some (.wrote value deadline) ∧
        ∀ instant ∈ deadline, now < instant := by
  have hreads : ∃ found, (d.read now key).1 = .ok found := by
    rw [fst_read]
    cases hlive : d.live now key with
    | none => exact ⟨none, rfl⟩
    | some entry =>
      obtain ⟨value, deadline, rfl, -⟩ := h.live_iff.1 hlive
      exact ⟨some value, rfl⟩
  obtain ⟨found, hfound⟩ := hreads
  refine ⟨found, hfound, fun value => ?_⟩
  have hread : found = some value ↔ (d.read now key).1 = .ok (some value) := by
    rw [hfound, Except.ok.injEq]
  rw [hread, fst_read_eq_some_iff]
  constructor
  · rintro ⟨expiresAt, hlive⟩
    obtain ⟨value', deadline, heq, hlast⟩ := h.live_iff.1 hlive
    cases heq
    exact ⟨expiresAt, hlast⟩
  · rintro ⟨deadline, hlast⟩
    exact ⟨deadline, h.live_iff.2 ⟨value, deadline, rfl, hlast⟩⟩

/-! ## Calls -/

theorem StandsBy.mutate (h : d.StandsBy key deeds now) {m : Mutation} (hm : m.asRegister key) :
    (d.mutate now m).2.StandsBy key (deeds ++ m.deeds key now (d.mutate now m).1) now := by
  by_cases hkey : m.key = key
  · cases m with
    | set k value ttl =>
      obtain rfl : k = key := hkey
      rw [Mutation.deeds, if_pos rfl]
      exact standsBy_append_of_get? (KeyMap.get?_insert_self _ _ _)
    | compareAndSet k expected value =>
      obtain rfl : k = key := hkey
      obtain ⟨-, happlied⟩ | ⟨-, hrefused⟩ := compareAndSet_cases now k expected value d
      · simp only [Content.mutate, happlied]
        rw [Mutation.deeds, if_pos ⟨rfl, rfl⟩]
        exact standsBy_append_of_get? (KeyMap.get?_insert_self _ _ _)
      · have hnot := mt isApplied_toOption_iff.1 (refusal_ne_true (d.get? k))
        simp only [Content.mutate, hrefused]
        rw [Mutation.deeds, if_neg fun hand => hnot hand.2]
        exact h.dropExpired
    | delete k =>
      obtain rfl : k = key := hkey
      rw [Mutation.deeds, if_pos rfl]
      exact standsBy_append_of_get? ((KeyMap.get?_erase _ _ _).trans (if_pos rfl))
    | scoredAdd k score member => exact absurd hkey (of_decide_eq_true hm)
  · rw [Mutation.deeds_of_ne hkey]
    exact h.of_get?_eq ((confined_mutate now m).frame (Ne.symm hkey))

theorem StandsBy.mutateAll (h : d.StandsBy key deeds now) {ms : List Mutation}
    (hms : ∀ m ∈ ms, m.asRegister key) :
    (d.mutateAll now ms).2.StandsBy key
      (deeds ++ (ms.zip (d.mutateAll now ms).1).flatMap fun (m, r) => m.deeds key now r) now := by
  induction ms generalizing d deeds with
  | nil => exact h.of_get?_eq rfl
  | cons m ms ih =>
    obtain ⟨hm, hms⟩ := List.forall_mem_cons.1 hms
    rw [mutateAll_cons, List.zip_cons_cons, List.flatMap_cons, ← List.append_assoc]
    exact ih (h.mutate hm) hms

theorem StandsBy.answer (h : d.StandsBy key deeds now) {c : Call} (hc : c.AsRegister key) :
    (d.answer now c).2.StandsBy key (deeds ++ c.deeds key now (d.answer now c).1) now := by
  cases c with
  | get k =>
    show (d.read now k).2.StandsBy key (deeds ++ []) now
    rw [snd_read]
    exact h.dropExpired
  | set k value ttl => exact h.mutate (m := .set k value ttl) rfl
  | compareAndSet k expected value => exact h.mutate (m := .compareAndSet k expected value) rfl
  | delete k => exact h.mutate (m := .delete k) rfl
  | scoredAdd k score member =>
    exact h.of_get?_eq ((confined_addScored k score member).frame (Ne.symm hc))
  | mapPut k fields => exact h.of_get?_eq ((confined_putFields k fields).frame (Ne.symm hc))
  | mapDeleteFields k names =>
    exact h.of_get?_eq ((confined_deleteFields k names).frame (Ne.symm hc))
  | batch ms => exact h.mutateAll hc
  | scoredRange k start stop reversed => exact h.of_get?_eq rfl
  | mapGet k => exact h.of_get?_eq rfl
  | mapGetFields k names => exact h.of_get?_eq rfl
  | scan cursor count pattern => exact h.of_get?_eq rfl

end Content

/-! ## Whole histories -/

namespace Memory

variable {s : Memory} {key : String} {earlier : List Deed} {events : List Event}

def Event.AsRegister (key : String) : Event → Prop
  | .call c => c.AsRegister key
  | .wait _ => True

def deeds (key : String) : List Event → Memory → List Deed
  | [], _ => []
  | .call c :: events, s => c.deeds key s.now (s.call c).1 ++ deeds key events (s.call c).2
  | .wait nanos :: events, s => deeds key events (s.after (.wait nanos))

theorem deeds_append (events later : List Event) :
    s.deeds key (events ++ later) = s.deeds key events ++ (s.afterAll events).deeds key later := by
  induction events generalizing s with
  | nil => rfl
  | cons e events ih =>
    cases e with
    | call c =>
      rw [List.cons_append, deeds, deeds, ih, List.append_assoc]
      rfl
    | wait nanos => exact ih

theorem standsBy_afterAll (hs : s.failing = false) (h : s.content.StandsBy key earlier s.now)
    (hevents : ∀ e ∈ events, e.AsRegister key) :
    (s.afterAll events).content.StandsBy key (earlier ++ s.deeds key events)
      (s.afterAll events).now := by
  induction events generalizing s earlier with
  | nil =>
    rw [Memory.deeds, List.append_nil]
    exact h
  | cons e events ih =>
    obtain ⟨he, hrest⟩ := List.forall_mem_cons.1 hevents
    have hs' : (s.after e).failing = false := (failing_after s e).trans hs
    cases e with
    | call c =>
      -- What the call has done comes before what is done after it.
      rw [Memory.deeds, ← List.append_assoc]
      refine ih hs' ?_ hrest
      show (s.call c).2.content.StandsBy key _ (s.call c).2.now
      rw [now_call, content_call hs, fst_call hs]
      exact h.answer he
    | wait nanos => exact ih hs' (h.later (Nat.le_add_right _ _)) hrest

/-- A key that was absent reads as the value that was written to it last, unless it was deleted since or
the deadline of that write has come. -/
theorem get_after_deeds (hs : s.failing = false) (habsent : s.content.get? key = none)
    (hevents : ∀ e ∈ events, e.AsRegister key) :
    ∃ found, ((s.afterAll events).call (.get key)).1 = .ok found ∧ ∀ value, found = some value ↔
      ∃ deadline, (s.deeds key events).getLast? = some (.wrote value deadline) ∧
        ∀ instant ∈ deadline, (s.afterAll events).now < instant := by
  have hstart : s.content.StandsBy key [] s.now := by
    intro instant _
    rw [Content.live, habsent]
    rfl
  rw [fst_call ((failing_afterAll s events).trans hs)]
  exact (standsBy_afterAll hs hstart hevents).read

/-- A compare-and-set is applied exactly if its key reads as the expected value. -/
theorem compareAndSet_iff_get (hs : s.failing = false) (expected value : Bytes) :
    (s.call (.compareAndSet key expected value)).1 = .ok true ↔
      (s.call (.get key)).1 = .ok (some expected) := by
  rw [fst_call hs, fst_call hs]
  exact Content.compareAndSet_eq_true_iff

theorem compareAndSet_iff_get_in_batch (hs : s.failing = false) {ms : List Mutation} {i : Nat}
    {expected value : Bytes} (hi : ms[i]? = some (.compareAndSet key expected value)) :
    ∃ replies, (s.call (.batch ms)).1 = .ok replies ∧
      (replies[i]? = some (.applied true) ↔
        ((s.call (.batch (ms.take i))).2.call (.get key)).1 = .ok (some expected)) := by
  refine ⟨_, fst_call_batch hs ms, ?_⟩
  have hbefore : (s.call (.batch (ms.take i))).2.failing = false := (failing_call _).trans hs
  rw [← compareAndSet_iff_get hbefore expected value, fst_call hbefore, now_call, content_call_batch hs,
    Content.getElem?_mutateAll, hi, Option.map_some, Option.some_inj]
  exact (iff_of_eq (Reply.applied.injEq _ true)).trans isApplied_toOption_iff

/-- A key that was absent, used as a string whatever happens to other keys, reads as the value that was
written to it last, unless it was deleted since or the deadline of that write has come.  A
compare-and-set is applied, alone or amid a batch, exactly if the key reads as the expected value at that
moment.  What a write without a time to live or a compare-and-set has written lasts, whatever time passes,
until something else is done to the key.  A batch during which the clock moves is as several batches with
time between them. -/
theorem string_is_register (s : Memory) (key : String) (events : List Event)
    (hs : s.failing = false) (habsent : s.content.get? key = none)
    (hevents : ∀ e ∈ events, e.AsRegister key) :
    let t := s.afterAll events
    let deeds := s.deeds key events
    (∃ found, (t.call (.get key)).1 = .ok found ∧ ∀ value, found = some value ↔
      ∃ deadline, deeds.getLast? = some (.wrote value deadline) ∧
        ∀ instant ∈ deadline, t.now < instant) ∧
    (∀ expected value, (t.call (.compareAndSet key expected value)).1 = .ok true ↔
      (t.call (.get key)).1 = .ok (some expected)) ∧
    (∀ (ms : List Mutation) (i : Nat) (expected value : Bytes),
      ms[i]? = some (.compareAndSet key expected value) →
      ∃ replies, (t.call (.batch ms)).1 = .ok replies ∧
        (replies[i]? = some (.applied true) ↔
          ((t.call (.batch (ms.take i))).2.call (.get key)).1 = .ok (some expected))) ∧
    ∀ (value : Bytes) (later : List Event), deeds.getLast? = some (.wrote value none) →
      (∀ e ∈ later, e.AsRegister key) → t.deeds key later = [] →
      ((t.afterAll later).call (.get key)).1 = .ok (some value) := by
  intro t deeds
  have ht : t.failing = false := (failing_afterAll s events).trans hs
  refine ⟨get_after_deeds hs habsent hevents, fun expected value => compareAndSet_iff_get ht _ _,
    fun ms i expected value => compareAndSet_iff_get_in_batch ht, ?_⟩
  intro value later hlast hlater hquiet
  have happend : s.afterAll (events ++ later) = t.afterAll later := List.foldl_append
  obtain ⟨found, hfound, hvalue⟩ := get_after_deeds hs habsent
    (List.forall_mem_append.2 ⟨hevents, hlater⟩)
  rw [deeds_append, hquiet, List.append_nil] at hvalue
  rw [happend, (hvalue value).2 ⟨none, hlast, nofun⟩] at hfound
  exact hfound

theorem register_at_its_deadline :
    let events : List Event :=
      [.call (.set "a" [1] (some (.ofMillis 0))), .call (.set "b" [2] (some (.ofMillis 1))),
        .call (.set "c" [3] (some (.ofMillis 1))), .wait 999999,
        .call (.batch [.compareAndSet "a" [1] [4], .compareAndSet "b" [2] [5]]), .wait 1]
    let s := ({} : Memory).afterAll events
    (∀ key, ∀ e ∈ events, e.AsRegister key) ∧
      ({} : Memory).deeds "a" events = [.wrote [1] (some 0)] ∧
      ({} : Memory).deeds "b" events = [.wrote [2] (some 1000000), .wrote [5] none] ∧
      (s.call (.get "a")).1 = .ok none ∧
      (∀ nanos, ((s.after (.wait nanos)).call (.get "b")).1 = .ok (some [5])) ∧
      (s.call (.get "c")).1 = .ok none := by
  intro events s
  have hevents : ∀ key, ∀ e ∈ events, e.AsRegister key := by
    intro key
    simp [events, Event.AsRegister, Call.AsRegister, Mutation.asRegister]
  have hregister := fun key => string_is_register {} key events rfl rfl (hevents key)
  have hb : ({} : Memory).deeds "b" events = [.wrote [2] (some 1000000), .wrote [5] none] := by decide
  refine ⟨hevents, by decide, hb, by decide, ?_, by decide⟩
  intro nanos
  exact (hregister "b").2.2.2 [5] [.wait nanos] (by rw [hb]; rfl) (by simp [Event.AsRegister]) rfl

end Memory

end BatchingCache
