import BatchingCache.Proofs.Store.Locality
import BatchingCache.Proofs.Store.Batches
/-!
# Expired strings

An expired string is still stored.  A call that looks at the expiry of its key takes it for absent;
a deletion, and the calls on scored sets and maps, take it for a string that is there.
-/

namespace BatchingCache

def Mutation.heedsExpiry : Mutation → Bool
  | set .. => true
  | compareAndSet .. => true
  | delete _ => false
  | scoredAdd .. => false

/-- A call looks at the expiry of `key`, or overwrites it, before it does anything else with it. -/
def Call.HeedsExpiry (key : String) : Call → Prop
  | .get _ => True
  | .set .. => True
  | .compareAndSet .. => True
  | .batch ms => ∀ m, (ms.find? fun m => m.key = key) = some m → m.heedsExpiry
  | c => c.Within (· ≠ key)

def Call.isScan : Call → Bool
  | .scan .. => true
  | _ => false

namespace Content

variable {now : Nat} {key : String} {d : Content}

def Expired (now : Nat) (key : String) (d : Content) : Prop :=
  ∃ value instant, d.get? key = some (.string value (some instant)) ∧ instant ≤ now

def without (key : String) (d : Content) : Content := d.erase key

theorem get?_without_self : (d.without key).get? key = none := by
  rw [without, KeyMap.get?_erase, if_pos rfl]

theorem get?_without_of_ne {k : String} (hk : k ≠ key) : (d.without key).get? k = d.get? k :=
  get?_erase_of_other hk

theorem agreeOn_without (key : String) (d : Content) : AgreeOn (· ≠ key) d (d.without key) :=
  fun _ hk => (get?_without_of_ne hk).symm

theorem Expired.live_eq_none (h : Expired now key d) : d.live now key = none := by
  obtain ⟨value, instant, hget, hle⟩ := h
  simp [live, hget, Entry.isExpired, hle, Option.filter]

theorem Expired.of_get?_eq {d' : Content} (h : Expired now key d) (heq : d'.get? key = d.get? key) :
    Expired now key d' := by
  obtain ⟨value, instant, hget, hle⟩ := h
  exact ⟨value, instant, heq.trans hget, hle⟩

/-- Removing an expired string is no change to the live content. -/
theorem Expired.sameLive_without (h : Expired now key d) : SameLive now d (d.without key) := by
  intro k
  by_cases hk : k = key
  · subst hk
    rw [h.live_eq_none, live, get?_without_self]
    rfl
  · exact live_congr (agreeOn_without key d k hk)

theorem Expired.dropExpired_eq (h : Expired now key d) : d.dropExpired now key = d.without key := by
  obtain ⟨value, instant, hget, hle⟩ := h
  rw [dropExpired, hget]
  simp [Entry.isExpired, hle, without]

theorem dropExpired_without : (d.without key).dropExpired now key = d.without key := by
  rw [dropExpired, get?_without_self]

theorem insert_without (e : Entry) : (d.without key).insert key e = d.insert key e := by
  apply KeyMap.ext_get?
  intro k
  by_cases hk : k = key
  · rw [hk, KeyMap.get?_insert_self, KeyMap.get?_insert_self]
  · rw [get?_insert_of_other _ hk, get?_insert_of_other _ hk, get?_without_of_ne hk]

/-! ## Other keys -/

/-- An operation on other keys does the same once a key is removed. -/
theorem Confined.apply_without {ρ : Type} {f : Content → ρ × Content} (h : Confined (· ≠ key) f)
    (d : Content) : f (d.without key) = ((f d).1, (f d).2.without key) := by
  obtain ⟨hreply, hafter⟩ := h.congr (agreeOn_without key d)
  refine Prod.ext hreply.symm (KeyMap.ext_get? fun k => ?_)
  by_cases hk : k = key
  · rw [hk, h.frame (fun hne => hne rfl), get?_without_self, get?_without_self]
  · rw [get?_without_of_ne hk]
    exact (hafter k hk).symm

theorem Confined.expired {ρ : Type} {f : Content → ρ × Content} (h : Confined (· ≠ key) f)
    (hd : Expired now key d) : Expired now key (f d).2 :=
  hd.of_get?_eq (h.frame fun hne => hne rfl)

/-! ## The key of an expired string -/

theorem Expired.read_eq (h : Expired now key d) : d.read now key = (d.without key).read now key := by
  rw [read, read, h.dropExpired_eq, dropExpired_without]

theorem Expired.compareAndSet_eq (h : Expired now key d) (expected value : Bytes) :
    d.compareAndSet now key expected value = (d.without key).compareAndSet now key expected value := by
  rw [compareAndSet, compareAndSet, h.dropExpired_eq, dropExpired_without]

/-- A mutation that heeds the expiry of its key takes an expired string for absent. -/
theorem Expired.mutate_eq {m : Mutation} (h : Expired now m.key d) (hm : m.heedsExpiry) :
    d.mutate now m = (d.without m.key).mutate now m := by
  cases m with
  | set key value ttl =>
    simp only [mutate, write, Mutation.key, insert_without]
  | compareAndSet key expected value =>
    have hsame := h.compareAndSet_eq expected value
    simp only [mutate, Mutation.key] at hsame ⊢
    rw [hsame]
  | delete key => cases hm
  | scoredAdd key score member => cases hm

theorem Expired.mutate_ne {m : Mutation} (h : Expired now m.key d) (hm : m.heedsExpiry = false) :
    (d.mutate now m).1 ≠ ((d.without m.key).mutate now m).1 := by
  obtain ⟨value, instant, hget, -⟩ := h
  cases m with
  | set key value ttl => cases hm
  | compareAndSet key expected value => cases hm
  | delete key =>
    have hget : d.get? key = some (.string value (some instant)) := hget
    simp [mutate, remove, KeyMap.contains, Mutation.key, hget, get?_without_self]
  | scoredAdd key score member =>
    have hget : d.get? key = some (.string value (some instant)) := hget
    simp [mutate, addScored, Mutation.key, hget, get?_without_self, Except.toOption]

theorem Expired.mutateAll_iff {ms : List Mutation} (h : Expired now key d) :
    ((d.mutateAll now ms).1 = ((d.without key).mutateAll now ms).1 ∧
        SameLive now (d.mutateAll now ms).2 ((d.without key).mutateAll now ms).2) ↔
      ∀ m, (ms.find? fun m => m.key = key) = some m → m.heedsExpiry := by
  induction ms generalizing d with
  | nil => exact iff_of_true ⟨rfl, h.sameLive_without⟩ nofun
  | cons m ms ih =>
    by_cases hkey : m.key = key
    · -- The first mutation of this key decides: after it, there is no expired string any more.
      subst hkey
      rw [List.find?_cons_of_pos (by simp)]
      cases hm : m.heedsExpiry with
      | true =>
        refine iff_of_true ?_ fun m' hm' => Option.some.inj hm' ▸ hm
        rw [mutateAll_cons, mutateAll_cons, h.mutate_eq hm]
        exact ⟨rfl, SameLive.refl now _⟩
      | false =>
        refine iff_of_false ?_ fun hall => ?_
        · rw [mutateAll_cons, mutateAll_cons]
          exact fun heq => h.mutate_ne hm (List.cons.inj heq.1).1
        · exact absurd (hall m rfl) (by simp [hm])
    · have hlocal : Confined (· ≠ key) (mutate now m) :=
        (confined_mutate now m).mono fun k hk => hk ▸ hkey
      rw [List.find?_cons_of_neg (by simpa using hkey), ← ih (hlocal.expired h), mutateAll_cons,
        mutateAll_cons, hlocal.apply_without]
      simp

/-- A call of other keys does the same whether an expired string is there or not. -/
theorem Expired.answer_of_within {c : Call} (h : Expired now key d) (hc : c.Within (· ≠ key)) :
    (d.answer now c).1 = ((d.without key).answer now c).1 ∧
      SameLive now (d.answer now c).2 ((d.without key).answer now c).2 := by
  have hlocal := confined_answer now hc
  rw [hlocal.apply_without]
  exact ⟨rfl, (hlocal.expired h).sameLive_without⟩

/-- A call takes an expired string for absent exactly if it heeds the expiry. -/
theorem Expired.answer_iff {c : Call} (h : Expired now key d) (hc : c.isScan = false) :
    ((d.answer now c).1 = ((d.without key).answer now c).1 ∧
        SameLive now (d.answer now c).2 ((d.without key).answer now c).2) ↔ c.HeedsExpiry key := by
  have hother := h.answer_of_within (c := c)
  obtain ⟨value, instant, hget, -⟩ := id h
  cases c with
  | get k =>
    refine iff_of_true ?_ trivial
    by_cases hk : k = key
    · subst hk
      simp only [answer, h.read_eq]
      exact ⟨trivial, SameLive.refl now _⟩
    · exact hother hk
  | set k new ttl =>
    refine iff_of_true ?_ trivial
    by_cases hk : k = key
    · subst hk
      simp only [answer, write, insert_without]
      exact ⟨trivial, SameLive.refl now _⟩
    · exact hother hk
  | compareAndSet k expected new =>
    refine iff_of_true ?_ trivial
    by_cases hk : k = key
    · subst hk
      simp only [answer, h.compareAndSet_eq]
      exact ⟨trivial, SameLive.refl now _⟩
    · exact hother hk
  | delete k =>
    refine ⟨?_, hother⟩
    rintro ⟨hreply, -⟩ rfl
    simp [answer, remove, KeyMap.contains, hget, get?_without_self] at hreply
  | scoredAdd k score member =>
    refine ⟨?_, hother⟩
    rintro ⟨hreply, -⟩ rfl
    simp [answer, addScored, hget, get?_without_self] at hreply
  | scoredRange k start stop reversed =>
    refine ⟨?_, hother⟩
    rintro ⟨hreply, -⟩ rfl
    simp [answer, range, hget, get?_without_self] at hreply
  | mapPut k new =>
    refine ⟨?_, hother⟩
    rintro ⟨hreply, -⟩ rfl
    simp [answer, putFields, hget, get?_without_self] at hreply
  | mapGet k =>
    refine ⟨?_, hother⟩
    rintro ⟨hreply, -⟩ rfl
    simp [answer, fields, hget, get?_without_self] at hreply
  | mapGetFields k names =>
    refine ⟨?_, hother⟩
    rintro ⟨hreply, -⟩ rfl
    simp [answer, fields, hget, get?_without_self, Except.map] at hreply
  | mapDeleteFields k names =>
    refine ⟨?_, hother⟩
    rintro ⟨hreply, -⟩ rfl
    simp [answer, deleteFields, hget, get?_without_self] at hreply
  | scan cursor count pattern => cases hc
  | batch ms =>
    have hreplies : ∀ rs rs' : List Reply,
        (Except.ok rs : Except StoreError (List Reply)) = .ok rs' ↔ rs = rs' :=
      fun _ _ => ⟨Except.ok.inj, congrArg _⟩
    exact (and_congr_left fun _ => hreplies _ _).trans h.mutateAll_iff

end Content

/-! ## Stores -/

namespace Memory

variable {s : Memory} {key : String} {value : Bytes} {instant : Nat}

def without (key : String) (s : Memory) : Memory := { s with content := s.content.without key }

/-- A call that asks for no page takes an expired string for absent, in its reply and in the live
content that it leaves, exactly if it heeds the expiry. -/
theorem expired_as_absent_iff (hs : s.failing = false)
    (hget : s.content.get? key = some (.string value (some instant))) (hexpired : instant ≤ s.now)
    {c : Call} (hc : c.isScan = false) :
    ((s.call c).1 = ((s.without key).call c).1 ∧
        Content.SameLive s.now (s.call c).2.content ((s.without key).call c).2.content) ↔
      c.HeedsExpiry key := by
  have hs' : (s.without key).failing = false := hs
  rw [fst_call hs, fst_call hs', content_call hs, content_call hs']
  exact Content.Expired.answer_iff ⟨value, instant, hget, hexpired⟩ hc

def stale : Memory :=
  { content := KeyMap.insert ∅ "k" (.string [118] (some 0)) }

theorem expired_as_absent_in_batch :
    let c : Call := .batch [.compareAndSet "k" [118] [119], .delete "k"]
    stale.failing = false ∧ stale.content.get? "k" = some (.string [118] (some 0)) ∧
      0 ≤ stale.now ∧ c.isScan = false ∧
      (stale.call c).1 = ((stale.without "k").call c).1 ∧
      Content.SameLive stale.now (stale.call c).2.content ((stale.without "k").call c).2.content := by
  intro c
  have hheeds : c.HeedsExpiry "k" := by
    intro m hm
    cases hm
    rfl
  exact ⟨rfl, rfl, Nat.le_refl 0, rfl, (expired_as_absent_iff rfl rfl (Nat.le_refl 0) rfl).2 hheeds⟩

/-- Reading the range of an expired string fails, though there is nothing alive under its key. -/
theorem range_of_expired_string_fails :
    ¬ ∀ (s : Memory) (key : String) (value : Bytes) (instant : Nat) (c : Call),
        s.failing = false → s.content.get? key = some (.string value (some instant)) →
        instant ≤ s.now → c.isScan = false →
        (s.call c).1 = ((s.without key).call c).1 ∧
          Content.SameLive s.now (s.call c).2.content ((s.without key).call c).2.content := by
  intro hsame
  have hreply := (hsame stale "k" [118] 0 (.scoredRange "k" 0 (-1) false) rfl rfl (Nat.le_refl 0)
    rfl).1
  cases hreply

end Memory

end BatchingCache
