/-!
# Maps with text keys

A finite map kept as a list of entries in strictly ascending order of their keys.  The order
is part of the type, so two maps with the same look-ups are equal (`KeyMap.ext_get?`).
-/

namespace BatchingCache

structure KeyMap (α : Type) where
  entries : List (String × α)
  sorted : entries.Pairwise fun a b => a.1 < b.1
  deriving DecidableEq, Repr

namespace KeyMap

variable {α β : Type}

def find? (k : String) : List (String × α) → Option α
  | [] => none
  | (k', v) :: rest => if k' = k then some v else find? k rest

def insertEntry (k : String) (v : α) : List (String × α) → List (String × α)
  | [] => [(k, v)]
  | (k', v') :: rest =>
    if k < k' then (k, v) :: (k', v') :: rest
    else if k = k' then (k, v) :: rest
    else (k', v') :: insertEntry k v rest

theorem mem_insertEntry {k : String} {v : α} {e : String × α} {l : List (String × α)} :
    e ∈ insertEntry k v l → e = (k, v) ∨ e ∈ l := by
  induction l with
  | nil => simp [insertEntry]
  | cons hd tl ih =>
    rw [insertEntry]
    split
    · simp
    · split
      · intro h
        rcases List.mem_cons.1 h with h | h
        · exact .inl h
        · exact .inr (List.mem_cons_of_mem _ h)
      · intro h
        rcases List.mem_cons.1 h with h | h
        · exact .inr (h ▸ List.mem_cons_self)
        · exact (ih h).imp id (List.mem_cons_of_mem _)

theorem lt_of_not_lt_of_ne {a b : String} (h : ¬ a < b) (hne : a ≠ b) : b < a := by
  rcases String.le_total a b with hab | hba
  · exact absurd (String.le_antisymm hab (String.not_lt.1 h)) hne
  · exact String.not_le.1 fun hab => hne (String.le_antisymm hab hba)

theorem pairwise_insertEntry (k : String) (v : α) {l : List (String × α)}
    (h : l.Pairwise fun a b => a.1 < b.1) :
    (insertEntry k v l).Pairwise fun a b => a.1 < b.1 := by
  induction l with
  | nil => simp [insertEntry]
  | cons hd tl ih =>
    obtain ⟨hhd, htl⟩ := List.pairwise_cons.1 h
    rw [insertEntry]
    split
    · rename_i hlt
      refine List.pairwise_cons.2 ⟨fun e he => ?_, h⟩
      rcases List.mem_cons.1 he with rfl | he
      · exact hlt
      · exact String.lt_trans hlt (hhd e he)
    · split
      · rename_i heq
        exact List.pairwise_cons.2 ⟨fun e he => heq ▸ hhd e he, htl⟩
      · rename_i hlt hne
        refine List.pairwise_cons.2 ⟨fun e he => ?_, ih htl⟩
        rcases mem_insertEntry he with rfl | he
        · exact lt_of_not_lt_of_ne hlt hne
        · exact hhd e he

def empty : KeyMap α := ⟨[], .nil⟩

instance : EmptyCollection (KeyMap α) := ⟨empty⟩
instance : Inhabited (KeyMap α) := ⟨empty⟩

def get? (m : KeyMap α) (k : String) : Option α := find? k m.entries

def insert (m : KeyMap α) (k : String) (v : α) : KeyMap α :=
  ⟨insertEntry k v m.entries, pairwise_insertEntry k v m.sorted⟩

def erase (m : KeyMap α) (k : String) : KeyMap α :=
  ⟨m.entries.filter fun e => e.1 ≠ k, m.sorted.filter _⟩

def insertAll (m : KeyMap α) (l : List (String × α)) : KeyMap α :=
  l.foldl (fun m e => m.insert e.1 e.2) m

/-- The map of a list of entries, of which the last under a key counts. -/
def ofList (l : List (String × α)) : KeyMap α := insertAll ∅ l

def filter (p : String → α → Bool) (m : KeyMap α) : KeyMap α :=
  ⟨m.entries.filter fun e => p e.1 e.2, m.sorted.filter _⟩

def toList (m : KeyMap α) : List (String × α) := m.entries

def keys (m : KeyMap α) : List String := m.entries.map Prod.fst

def size (m : KeyMap α) : Nat := m.entries.length

def isEmpty (m : KeyMap α) : Bool := m.entries.isEmpty

def contains (m : KeyMap α) (k : String) : Bool := (m.get? k).isSome

/-! ## Look-ups -/

theorem find?_insertEntry_self (k : String) (v : α) (l : List (String × α)) :
    find? k (insertEntry k v l) = some v := by
  induction l with
  | nil => simp [insertEntry, find?]
  | cons hd tl ih =>
    rw [insertEntry]
    split
    · simp [find?]
    · split
      · simp [find?]
      · rename_i hne
        simp [find?, Ne.symm hne, ih]

theorem find?_insertEntry_of_ne {k k' : String} (v : α) (h : k ≠ k') (l : List (String × α)) :
    find? k' (insertEntry k v l) = find? k' l := by
  induction l with
  | nil => simp [insertEntry, find?, h]
  | cons hd tl ih =>
    rw [insertEntry]
    split
    · simp [find?, h]
    · split
      · rename_i heq
        simp [find?, h, ← heq]
      · simp [find?, ih]

theorem find?_filter_ne (k k' : String) (l : List (String × α)) :
    find? k' (l.filter fun e => e.1 ≠ k) = if k' = k then none else find? k' l := by
  induction l with
  | nil => simp [find?]
  | cons hd tl ih =>
    by_cases hk : hd.1 = k
    · simp only [List.filter_cons, hk, ne_eq, not_true_eq_false, decide_false, Bool.false_eq_true,
        if_false, ih, find?]
      by_cases hkk : k' = k
      · simp [hkk]
      · simp [hkk, Ne.symm hkk]
    · simp only [List.filter_cons, hk, ne_eq, not_false_eq_true, decide_true, if_true, find?, ih]
      by_cases hkk : k' = k
      · simp [hkk, hk]
      · simp [hkk]

theorem find?_eq_none_of_forall_lt {k : String} {l : List (String × α)}
    (h : ∀ e ∈ l, k < e.1) : find? k l = none := by
  induction l with
  | nil => rfl
  | cons hd tl ih =>
    have hne : hd.1 ≠ k := fun he => String.lt_irrefl k (he ▸ h hd List.mem_cons_self)
    simp [find?, hne, ih fun e he => h e (List.mem_cons_of_mem _ he)]

@[simp] theorem get?_empty (k : String) : (∅ : KeyMap α).get? k = none := rfl

@[simp] theorem get?_insert_self (m : KeyMap α) (k : String) (v : α) :
    (m.insert k v).get? k = some v :=
  find?_insertEntry_self k v m.entries

theorem get?_insert_of_ne (m : KeyMap α) {k k' : String} (v : α) (h : k ≠ k') :
    (m.insert k v).get? k' = m.get? k' :=
  find?_insertEntry_of_ne v h m.entries

theorem get?_erase (m : KeyMap α) (k k' : String) :
    (m.erase k).get? k' = if k' = k then none else m.get? k' :=
  find?_filter_ne k k' m.entries

private theorem eq_of_find?_eq {l₁ l₂ : List (String × α)}
    (h₁ : l₁.Pairwise fun a b => a.1 < b.1) (h₂ : l₂.Pairwise fun a b => a.1 < b.1)
    (h : ∀ k, find? k l₁ = find? k l₂) : l₁ = l₂ := by
  induction l₁ generalizing l₂ with
  | nil =>
    cases l₂ with
    | nil => rfl
    | cons b l₂ => have := h b.1; simp [find?] at this
  | cons a l₁ ih =>
    cases l₂ with
    | nil => have := h a.1; simp [find?] at this
    | cons b l₂ =>
      obtain ⟨ha, hl₁⟩ := List.pairwise_cons.1 h₁
      obtain ⟨hb, hl₂⟩ := List.pairwise_cons.1 h₂
      have hkey : a.1 = b.1 := by
        refine Classical.byContradiction fun hne => ?_
        by_cases hlt : a.1 < b.1
        · have hnone := find?_eq_none_of_forall_lt (k := a.1) (l := l₂)
            fun e he => String.lt_trans hlt (hb e he)
          have := h a.1
          simp [find?, Ne.symm hne, hnone] at this
        · have hgt := lt_of_not_lt_of_ne hlt hne
          have hnone := find?_eq_none_of_forall_lt (k := b.1) (l := l₁)
            fun e he => String.lt_trans hgt (ha e he)
          have := h b.1
          simp [find?, hne, hnone] at this
      have hval : a.2 = b.2 := by
        have := h a.1
        simpa [find?, hkey] using this
      have hrest : l₁ = l₂ := by
        refine ih hl₁ hl₂ fun k => ?_
        by_cases hk : a.1 = k
        · rw [find?_eq_none_of_forall_lt fun e he => hk ▸ ha e he,
            find?_eq_none_of_forall_lt fun e he => hk ▸ hkey ▸ hb e he]
        · have := h k
          simpa [find?, hk, ← hkey] using this
      rw [hrest, Prod.ext hkey hval]

theorem mem_toList_iff {m : KeyMap α} {k : String} {v : α} :
    (k, v) ∈ m.toList ↔ m.get? k = some v := by
  obtain ⟨l, hl⟩ := m
  show (k, v) ∈ l ↔ find? k l = some v
  induction l with
  | nil => simp [find?]
  | cons hd tl ih =>
    obtain ⟨hhd, htl⟩ := List.pairwise_cons.1 hl
    by_cases hk : hd.1 = k
    · have htail : (k, v) ∉ tl := fun hmem => String.lt_irrefl k (hk ▸ hhd (k, v) hmem)
      simp [find?, hk, htail, Prod.ext_iff, eq_comm]
    · have hhead : (k, v) ≠ hd := fun h => hk (h ▸ rfl)
      simp [find?, hk, hhead, ih htl]

/-- Two maps with the same look-ups are equal. -/
theorem ext_get? {m₁ m₂ : KeyMap α} (h : ∀ k, m₁.get? k = m₂.get? k) : m₁ = m₂ := by
  cases m₁; cases m₂
  congr
  exact eq_of_find?_eq ‹_› ‹_› h

end KeyMap

end BatchingCache
