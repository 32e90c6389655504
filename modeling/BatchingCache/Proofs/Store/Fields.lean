import BatchingCache.Proofs.KeyMap
import BatchingCache.Proofs.Store.Batches
/-!
# Fields of maps

A key that holds nothing reads as the map without fields.  Putting fields overrides those of the map, and
deleting fields leaves the others; with the last field the key goes as well.
-/

namespace BatchingCache

namespace Content

variable {key : String} {d : Content} {m : KeyMap Bytes}

theorem get?_of_fields (h : d.fields key = .ok m) :
    d.get? key = none ∧ m = ∅ ∨ d.get? key = some (.map m) := by
  unfold fields at h
  split at h
  · cases h
    exact .inl ⟨‹_›, rfl⟩
  · cases h
    exact .inr ‹_›
  · cases h

theorem fields_insert (key : String) (m : KeyMap Bytes) (d : Content) :
    fields key (d.insert key (.map m)) = .ok m := by
  rw [fields, KeyMap.get?_insert_self]

theorem fields_erase (key : String) (d : Content) : fields key (d.erase key) = .ok ∅ := by
  rw [fields, KeyMap.get?_erase, if_pos rfl]

theorem putFields_of_fields (h : d.fields key = .ok m) (l : List (String × Bytes)) :
    d.putFields key l = (.ok (), d.insert key (.map (m.insertAll l))) := by
  rcases get?_of_fields h with ⟨habsent, rfl⟩ | hmap
  · rw [putFields, habsent]
    rfl
  · rw [putFields, hmap]

/-! ## Deletion -/

theorem fst_eraseFields (names : List String) (m : KeyMap Bytes) :
    (eraseFields names m).1 = names.foldl KeyMap.erase m := by
  have hstep : ∀ (x : KeyMap Bytes × Nat) (name : String), x.1.erase name =
      (if x.1.contains name then (x.1.erase name, x.2 + 1) else (x.1, x.2)).1 := by
    intro x name
    split
    · rfl
    · exact KeyMap.erase_of_not_contains ‹_›
  exact (List.foldl_hom Prod.fst hstep).symm

theorem get?_eraseFields (names : List String) (m : KeyMap Bytes) (name : String) :
    (eraseFields names m).1.get? name = if name ∈ names then none else m.get? name := by
  rw [fst_eraseFields]
  induction names generalizing m with
  | nil => rfl
  | cons first names ih =>
    rw [List.foldl_cons, ih, KeyMap.get?_erase]
    by_cases hname : name = first
    · simp [hname]
    · simp [hname]

theorem deleteFields_ok (h : d.fields key = .ok m) (names : List String) :
    ∃ n, (d.deleteFields key names).1 = .ok n := by
  rcases get?_of_fields h with ⟨habsent, -⟩ | hmap
  · rw [deleteFields, habsent]
    exact ⟨_, rfl⟩
  · rw [deleteFields, hmap]
    exact ⟨_, rfl⟩

theorem fields_deleteFields (h : d.fields key = .ok m) (names : List String) :
    (d.deleteFields key names).2.fields key = .ok (eraseFields names m).1 := by
  rcases get?_of_fields h with ⟨habsent, rfl⟩ | hmap
  · have hnothing : (eraseFields names ∅).1 = ∅ := by
      rw [KeyMap.eq_empty_iff]
      intro name
      rw [get?_eraseFields]
      exact ite_self none
    rw [deleteFields, habsent, hnothing]
    exact h
  · rw [deleteFields, hmap]
    dsimp only
    split
    · rename_i hempty
      rw [fields_erase, KeyMap.isEmpty_iff.1 hempty]
    · exact fields_insert key _ d

/-- Deleting all fields of a map is deleting its key. -/
theorem deleteFields_of_covers (h : d.fields key = .ok m) {names : List String}
    (hcovers : ∀ name, m.contains name → name ∈ names) :
    (d.deleteFields key names).2 = d.erase key := by
  rcases get?_of_fields h with ⟨habsent, -⟩ | hmap
  · rw [deleteFields, habsent]
    exact (KeyMap.erase_of_not_contains (by simp [KeyMap.contains, habsent])).symm
  · have hempty : (eraseFields names m).1.isEmpty = true := by
      rw [KeyMap.isEmpty_iff, KeyMap.eq_empty_iff]
      intro name
      rw [get?_eraseFields]
      split
      · rfl
      · rename_i hname
        have hnot := mt (hcovers name) hname
        simpa [KeyMap.contains] using hnot
    rw [deleteFields, hmap]
    dsimp only
    rw [if_pos hempty]

/-! ## Puts that do not meet -/

/-- Two puts of different fields do the same in either order. -/
theorem putFields_comm (h : d.fields key = .ok m) {l l' : List (String × Bytes)}
    (hdisjoint : ∀ name, name ∈ l.map Prod.fst → name ∉ l'.map Prod.fst) :
    ((d.putFields key l).2.putFields key l').2 = ((d.putFields key l').2.putFields key l).2 := by
  have hput : ∀ l l', ((d.putFields key l).2.putFields key l').2 =
      (d.insert key (.map (m.insertAll l))).insert key (.map ((m.insertAll l).insertAll l')) := by
    intro l l'
    rw [putFields_of_fields h, putFields_of_fields (fields_insert key _ d)]
  rw [hput, hput, KeyMap.insertAll_comm hdisjoint]
  apply KeyMap.ext_get?
  intro k
  by_cases hk : key = k
  · subst hk
    rw [KeyMap.get?_insert_self, KeyMap.get?_insert_self]
  · simp only [KeyMap.get?_insert_of_ne _ _ hk]

end Content

end BatchingCache
