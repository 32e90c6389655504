import BatchingCache.Proofs.Store.Live
/-!
# Locality

A call reads what its keys hold, changes what its keys hold, and leaves all other keys alone.  So two
stores that agree on these keys answer it alike and go on agreeing on them.
-/

namespace BatchingCache

/-- All keys that a call names satisfy `P`.  A scan names every key. -/
def Call.Within (P : String → Prop) : Call → Prop
  | .get key => P key
  | .set key _ _ => P key
  | .compareAndSet key _ _ => P key
  | .delete key => P key
  | .scoredAdd key _ _ => P key
  | .scoredRange key _ _ _ => P key
  | .mapPut key _ => P key
  | .mapGet key => P key
  | .mapGetFields key _ => P key
  | .mapDeleteFields key _ => P key
  | .scan .. => ∀ key, P key
  | .batch ms => ∀ m ∈ ms, P m.key

namespace Content

variable {ρ ρ' : Type} {P Q : String → Prop} {now : Nat} {key k : String} {d d' : Content}

/-- Two contents in which the keys that satisfy `P` hold the same. -/
def AgreeOn (P : String → Prop) (d d' : Content) : Prop := ∀ k, P k → d.get? k = d'.get? k

/-- An operation reads and changes nothing but what the keys hold that satisfy `P`. -/
structure Confined (P : String → Prop) (f : Content → ρ × Content) : Prop where
  congr : ∀ {d d'}, AgreeOn P d d' → (f d).1 = (f d').1 ∧ AgreeOn P (f d).2 (f d').2
  frame : ∀ {d k}, ¬ P k → (f d).2.get? k = d.get? k

theorem Confined.mono {f : Content → ρ × Content} (h : Confined P f) (hPQ : ∀ k, P k → Q k) :
    Confined Q f := by
  constructor
  · intro d d' hagree
    obtain ⟨hreply, hafter⟩ := h.congr fun k hk => hagree k (hPQ k hk)
    refine ⟨hreply, fun k hk => ?_⟩
    by_cases hP : P k
    · exact hafter k hP
    · rw [h.frame hP, h.frame hP]
      exact hagree k hk
  · intro d k hk
    exact h.frame fun hP => hk (hPQ k hP)

theorem Confined.map {f : Content → ρ × Content} (h : Confined P f) (g : ρ → ρ') :
    Confined P fun d => (g (f d).1, (f d).2) := by
  constructor
  · intro d d' hagree
    obtain ⟨hreply, hafter⟩ := h.congr hagree
    exact ⟨congrArg g hreply, hafter⟩
  · exact h.frame

theorem confined_read {f : Content → ρ} (h : ∀ {d d' : Content}, d.get? key = d'.get? key → f d = f d') :
    Confined (· = key) fun d => (f d, d) := by
  constructor
  · intro d d' hagree
    exact ⟨h (hagree key rfl), hagree⟩
  · intro d k _
    rfl

/-! ## What becomes of a content at one key -/

theorem AgreeOn.insert (h : AgreeOn P d d') (key : String) (e : Entry) :
    AgreeOn P (d.insert key e) (d'.insert key e) := by
  intro k hk
  by_cases heq : key = k
  · subst heq
    rw [KeyMap.get?_insert_self, KeyMap.get?_insert_self]
  · rw [KeyMap.get?_insert_of_ne _ _ heq, KeyMap.get?_insert_of_ne _ _ heq]
    exact h k hk

theorem AgreeOn.erase (h : AgreeOn P d d') (key : String) :
    AgreeOn P (d.erase key) (d'.erase key) := by
  intro k hk
  rw [KeyMap.get?_erase, KeyMap.get?_erase, h k hk]

theorem AgreeOn.dropExpired (h : AgreeOn P d d') (hkey : P key) :
    AgreeOn P (d.dropExpired now key) (d'.dropExpired now key) := by
  unfold Content.dropExpired
  rw [h key hkey]
  cases d'.get? key with
  | none => exact h
  | some e =>
    by_cases he : e.isExpired now
    · simpa [he] using h.erase key
    · simpa [he] using h

theorem get?_insert_of_other (e : Entry) (hk : k ≠ key) : (d.insert key e).get? k = d.get? k :=
  KeyMap.get?_insert_of_ne _ _ hk.symm

theorem get?_erase_of_other (hk : k ≠ key) : (d.erase key).get? k = d.get? k := by
  rw [KeyMap.get?_erase, if_neg hk]

/-! ## Operations at one key -/

theorem confined_string (now : Nat) (key : String) : Confined (· = key) (read now key) := by
  constructor
  · intro d d' hagree
    have hlive : AgreeOn (· = key) (d.dropExpired now key) (d'.dropExpired now key) :=
      hagree.dropExpired rfl
    simp only [read, hlive key rfl]
    split
    · exact ⟨rfl, hlive⟩
    · exact ⟨rfl, hlive⟩
    · exact ⟨rfl, hlive⟩
  · intro d k hk
    simp only [read]
    split
    · exact get?_dropExpired_of_ne hk
    · exact get?_dropExpired_of_ne hk
    · exact get?_dropExpired_of_ne hk

theorem confined_write (now : Nat) (key : String) (value : Bytes) (ttl : Option Duration) :
    Confined (· = key) fun d => ((), d.write now key value ttl) := by
  constructor
  · intro d d' hagree
    exact ⟨rfl, hagree.insert key _⟩
  · intro d k hk
    exact get?_insert_of_other _ hk

theorem confined_compareAndSet (now : Nat) (key : String) (expected value : Bytes) :
    Confined (· = key) (compareAndSet now key expected value) := by
  constructor
  · intro d d' hagree
    have hlive : AgreeOn (· = key) (d.dropExpired now key) (d'.dropExpired now key) :=
      hagree.dropExpired rfl
    simp only [compareAndSet, hlive key rfl]
    split
    · exact ⟨rfl, hlive⟩
    · split
      · exact ⟨rfl, hlive.insert key _⟩
      · exact ⟨rfl, hlive⟩
    · exact ⟨rfl, hlive⟩
  · intro d k hk
    have hlive : (d.dropExpired now key).get? k = d.get? k := get?_dropExpired_of_ne hk
    simp only [compareAndSet]
    split
    · exact hlive
    · split
      · exact (get?_insert_of_other _ hk).trans hlive
      · exact hlive
    · exact hlive

theorem confined_remove (key : String) : Confined (· = key) (remove key) := by
  constructor
  · intro d d' hagree
    refine ⟨?_, hagree.erase key⟩
    simp only [remove, KeyMap.contains, hagree key rfl]
  · intro d k hk
    exact get?_erase_of_other hk

theorem confined_addScored (key : String) (score : Binary64) (member : Bytes) :
    Confined (· = key) (addScored key score member) := by
  constructor
  · intro d d' hagree
    simp only [addScored, hagree key rfl]
    split
    · exact ⟨rfl, hagree.insert key _⟩
    · exact ⟨rfl, hagree.insert key _⟩
    · exact ⟨rfl, hagree⟩
  · intro d k hk
    simp only [addScored]
    split
    · exact get?_insert_of_other _ hk
    · exact get?_insert_of_other _ hk
    · rfl

theorem confined_putFields (key : String) (fields : List (String × Bytes)) :
    Confined (· = key) (putFields key fields) := by
  constructor
  · intro d d' hagree
    simp only [putFields, hagree key rfl]
    split
    · exact ⟨rfl, hagree.insert key _⟩
    · exact ⟨rfl, hagree.insert key _⟩
    · exact ⟨rfl, hagree⟩
  · intro d k hk
    simp only [putFields]
    split
    · exact get?_insert_of_other _ hk
    · exact get?_insert_of_other _ hk
    · rfl

theorem confined_deleteFields (key : String) (names : List String) :
    Confined (· = key) (deleteFields key names) := by
  constructor
  · intro d d' hagree
    simp only [deleteFields, hagree key rfl]
    split
    · exact ⟨rfl, hagree⟩
    · refine ⟨rfl, ?_⟩
      split
      · exact hagree.erase key
      · exact hagree.insert key _
    · exact ⟨rfl, hagree⟩
  · intro d k hk
    simp only [deleteFields]
    split
    · rfl
    · split
      · exact get?_erase_of_other hk
      · exact get?_insert_of_other _ hk
    · rfl

/-! ## Batches and calls -/

theorem confined_mutate (now : Nat) (m : Mutation) : Confined (· = m.key) (mutate now m) := by
  cases m with
  | set key value ttl => exact (confined_write now key value ttl).map fun _ => Reply.done
  | compareAndSet key expected value =>
    exact (confined_compareAndSet now key expected value).map fun r =>
      Reply.applied (r.toOption.getD false)
  | delete key => exact (confined_remove key).map Reply.applied
  | scoredAdd key score member =>
    exact (confined_addScored key score member).map fun r =>
      Reply.applied (r.toOption.getD false)

theorem confined_mutateAll (now : Nat) {ms : List Mutation} (h : ∀ m ∈ ms, P m.key) :
    Confined P (mutateAll now ms) := by
  induction ms with
  | nil => exact ⟨fun hagree => ⟨rfl, hagree⟩, fun _ => rfl⟩
  | cons m ms ih =>
    obtain ⟨hm, hms⟩ := List.forall_mem_cons.1 h
    have hhead : Confined P (mutate now m) := (confined_mutate now m).mono fun k hk => hk ▸ hm
    have htail := ih hms
    constructor
    · intro d d' hagree
      obtain ⟨hreply, hafter⟩ := hhead.congr hagree
      obtain ⟨hreplies, hend⟩ := htail.congr hafter
      refine ⟨?_, hend⟩
      simp only [mutateAll, hreply, hreplies]
    · intro d k hk
      exact (htail.frame hk).trans (hhead.frame hk)

theorem confined_answer (now : Nat) {c : Call} (h : c.Within P) : Confined P (answer now c) := by
  cases c with
  | get key => exact (confined_string now key).mono fun k hk => hk ▸ h
  | set key value ttl =>
    exact ((confined_write now key value ttl).map fun _ => Except.ok ()).mono fun k hk => hk ▸ h
  | compareAndSet key expected value =>
    exact (confined_compareAndSet now key expected value).mono fun k hk => hk ▸ h
  | delete key => exact ((confined_remove key).map Except.ok).mono fun k hk => hk ▸ h
  | scoredAdd key score member =>
    exact (confined_addScored key score member).mono fun k hk => hk ▸ h
  | scoredRange key start stop reversed =>
    refine Confined.mono (confined_read fun heq => ?_) fun k hk => hk ▸ h
    rw [range, range, heq]
  | mapPut key fields => exact (confined_putFields key fields).mono fun k hk => hk ▸ h
  | mapGet key =>
    refine Confined.mono (confined_read fun heq => ?_) fun k hk => hk ▸ h
    rw [fields, fields, heq]
  | mapGetFields key names =>
    refine Confined.mono (confined_read fun heq => ?_) fun k hk => hk ▸ h
    rw [fields, fields, heq]
  | mapDeleteFields key names =>
    exact (confined_deleteFields key names).mono fun k hk => hk ▸ h
  | scan cursor count pattern =>
    constructor
    · intro d d' hagree
      have heq : d = d' := KeyMap.ext_get? fun k => hagree k (h k)
      exact ⟨by rw [heq], hagree⟩
    · intro d k hk
      rfl
  | batch ms => exact (confined_mutateAll now h).map Except.ok

end Content

end BatchingCache
