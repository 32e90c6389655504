import BatchingCache.KeyMap
import Mathlib.Data.Finset.Card
import Mathlib.Data.List.Basic
/-!
# Look-ups

What is found under a key after entries were put in one after the other, or some were left out, and how
many entries there are.  Of the entries that are put in under one key, the last one counts.
-/

namespace BatchingCache.KeyMap

variable {α β : Type} {m : KeyMap α} {k : String}

theorem mem_keys_iff : k ∈ m.keys ↔ m.contains k := by
  rw [keys, List.mem_map, contains, Option.isSome_iff_exists]
  constructor
  · rintro ⟨⟨k', v⟩, hmem, rfl⟩
    exact ⟨v, mem_toList_iff.1 hmem⟩
  · rintro ⟨v, hget⟩
    exact ⟨(k, v), mem_toList_iff.2 hget, rfl⟩

theorem nodup_keys (m : KeyMap α) : m.keys.Nodup := by
  refine List.pairwise_map.2 (m.sorted.imp fun {a b} hlt heq => ?_)
  rw [heq] at hlt
  exact String.lt_irrefl _ hlt

theorem size_eq_card {s : Finset String} (h : ∀ k, m.contains k ↔ k ∈ s) : m.size = s.card := by
  have hkeys : m.keys.toFinset = s := by
    ext k
    rw [List.mem_toFinset, mem_keys_iff, h]
  rw [← hkeys, List.toFinset_card_of_nodup m.nodup_keys, keys, List.length_map]
  rfl

theorem eq_empty_iff : m = ∅ ↔ ∀ k, m.get? k = none := by
  constructor
  · rintro rfl k
    rfl
  · exact fun h => ext_get? h

theorem isEmpty_iff : m.isEmpty ↔ m = ∅ := by
  constructor
  · intro h
    rw [eq_empty_iff]
    intro k
    rw [get?, List.isEmpty_iff.1 h]
    rfl
  · rintro rfl
    rfl

theorem erase_of_not_contains (h : ¬ m.contains k) : m.erase k = m := by
  have hnone : m.get? k = none := by simpa [contains] using h
  apply ext_get?
  intro k'
  rw [get?_erase]
  split
  · rename_i hk
    rw [hk, hnone]
  · rfl

theorem erase_insert (m : KeyMap α) (k : String) (v : α) : (m.insert k v).erase k = m.erase k := by
  apply ext_get?
  intro k'
  rw [get?_erase, get?_erase]
  split
  · rfl
  · rename_i hne
    exact get?_insert_of_ne m v (Ne.symm hne)

theorem get?_filter (p : String → α → Bool) (m : KeyMap α) (k : String) :
    (m.filter p).get? k = (m.get? k).filter (p k) := by
  ext v
  rw [← mem_toList_iff, Option.filter_eq_some_iff, ← mem_toList_iff]
  exact List.mem_filter

theorem get?_filter_contains (keys : List String) (m : KeyMap α) (k : String) :
    (m.filter fun k _ => keys.contains k).get? k = if k ∈ keys then m.get? k else none := by
  rw [get?_filter]
  cases m.get? k with
  | none => simp
  | some v => simp only [Option.filter_some, List.contains_iff_mem]

theorem get?_insertAll (m : KeyMap α) (l : List (String × α)) (k : String) :
    (m.insertAll l).get? k = (l.reverse.lookup k).or (m.get? k) := by
  induction l generalizing m with
  | nil => rfl
  | cons e l ih =>
    obtain ⟨k', v⟩ := e
    rw [List.reverse_cons, List.lookup_append, Option.or_assoc]
    refine (ih _).trans (congrArg _ ?_)
    by_cases hk : k' = k
    · subst hk
      simp
    · have hk' : (k == k') = false := beq_false_of_ne (Ne.symm hk)
      simp [get?_insert_of_ne _ _ hk, List.lookup_cons, hk']

theorem lookup_reverse_of_notMem {l : List (String × α)} (h : k ∉ l.map Prod.fst) :
    l.reverse.lookup k = none := by
  rw [List.lookup_eq_none_iff]
  intro e he
  refine bne_iff_ne.2 fun heq => h ?_
  rw [heq]
  exact List.mem_map_of_mem (List.mem_reverse.1 he)

/-- Entries under different keys can be put in in either order. -/
theorem insertAll_comm {l l' : List (String × α)}
    (h : ∀ k, k ∈ l.map Prod.fst → k ∉ l'.map Prod.fst) :
    (m.insertAll l).insertAll l' = (m.insertAll l').insertAll l := by
  apply ext_get?
  intro k
  simp only [get?_insertAll, ← Option.or_assoc]
  congr 1
  by_cases hk : k ∈ l.map Prod.fst
  · rw [lookup_reverse_of_notMem (h k hk), Option.none_or, Option.or_none]
  · rw [lookup_reverse_of_notMem hk, Option.none_or, Option.or_none]

theorem lookup_reverse_toList (m : KeyMap α) (k : String) : m.toList.reverse.lookup k = m.get? k := by
  cases hlookup : m.toList.reverse.lookup k with
  | some v =>
    obtain ⟨before, after, hsplit, -⟩ := List.lookup_eq_some_iff.1 hlookup
    have hmem : (k, v) ∈ m.toList := by
      rw [← List.mem_reverse, hsplit]
      simp
    exact (mem_toList_iff.1 hmem).symm
  | none =>
    symm
    rw [Option.eq_none_iff_forall_ne_some]
    intro v hget
    have hne := List.lookup_eq_none_iff.1 hlookup (k, v) (List.mem_reverse.2 (mem_toList_iff.2 hget))
    simp at hne

theorem lookup_map_values (f : α → β) (l : List (String × α)) (k : String) :
    (l.map fun e => (e.1, f e.2)).lookup k = (l.lookup k).map f := by
  induction l with
  | nil => rfl
  | cons e l ih =>
    rw [List.map_cons, List.lookup_cons, List.lookup_cons, ih]
    cases k == e.1 with
    | true => rfl
    | false => rfl

theorem contains_insertAll_iff {l : List (String × α)} :
    (m.insertAll l).contains k ↔ k ∈ l.map Prod.fst ∨ m.contains k := by
  induction l generalizing m with
  | nil => simp [insertAll]
  | cons e l ih =>
    refine ih.trans ?_
    rw [List.map_cons, List.mem_cons, contains, contains]
    by_cases hk : e.1 = k
    · simp [hk]
    · simp [get?_insert_of_ne _ _ hk, Ne.symm hk]

theorem insertAll_eq_empty_iff {l : List (String × α)} : m.insertAll l = ∅ ↔ m = ∅ ∧ l = [] := by
  have hempty : ∀ {m : KeyMap α}, m = ∅ ↔ ∀ k, ¬ m.contains k := by
    intro m
    simp [eq_empty_iff, contains]
  rw [hempty, hempty, ← List.map_eq_nil_iff (f := Prod.fst), List.eq_nil_iff_forall_not_mem, and_comm]
  simp only [contains_insertAll_iff, not_or, forall_and]

end BatchingCache.KeyMap
