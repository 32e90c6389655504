import BatchingCache.Proofs.Store.Live
import BatchingCache.Proofs.Text.Utf8
/-!
# Pages

A page of a scan is a stretch of the keys in ascending order, of which it gives the live strings that
match.  Pages that start where the one before ended lay out the whole store.
-/

namespace BatchingCache.Content

variable {now : Nat} {pattern : Bytes} {d : Content} {key : String} {value : Bytes}

def Matches (now : Nat) (pattern : Bytes) (d : Content) (key : String) (value : Bytes) : Prop :=
  (∃ expiresAt, d.live now key = some (.string value expiresAt)) ∧
    Glob.accepts pattern (Utf8.encode key)

def match? (now : Nat) (pattern : Bytes) : String × Entry → Option (String × Bytes)
  | (key, .string value expiresAt) =>
    if !(Entry.string value expiresAt).isExpired now && Glob.accepts pattern (Utf8.encode key) then
      some (key, value)
    else none
  | _ => none

theorem match?_eq_some_iff {e : String × Entry} {p : String × Bytes} :
    match? now pattern e = some p ↔
      ∃ expiresAt, e = (p.1, .string p.2 expiresAt) ∧
        (Entry.string p.2 expiresAt).isExpired now = false ∧
        Glob.accepts pattern (Utf8.encode p.1) := by
  obtain ⟨key, e⟩ := e
  obtain ⟨key', value'⟩ := p
  cases e with
  | string value expiresAt =>
    simp only [match?, Option.ite_none_right_eq_some, Option.some.injEq, Prod.mk.injEq,
      Bool.and_eq_true, Bool.not_eq_true', Entry.string.injEq]
    constructor
    · rintro ⟨⟨hlive, haccepts⟩, rfl, rfl⟩
      exact ⟨expiresAt, ⟨rfl, rfl, rfl⟩, hlive, haccepts⟩
    · rintro ⟨expiresAt, ⟨rfl, rfl, rfl⟩, hlive, haccepts⟩
      exact ⟨⟨hlive, haccepts⟩, rfl, rfl⟩
  | scored set => simp [match?]
  | map fields => simp [match?]

def matchesOf (now : Nat) (pattern : Bytes) (entries : List (String × Entry)) :
    List (String × Bytes) :=
  entries.filterMap (match? now pattern)

theorem matchesOf_append (entries more : List (String × Entry)) :
    matchesOf now pattern (entries ++ more) =
      matchesOf now pattern entries ++ matchesOf now pattern more :=
  List.filterMap_append

/-- What matches from a place on is what matches on the page there, and then from its end on. -/
theorem matchesOf_drop (entries : List (String × Entry)) (start count : Nat) :
    matchesOf now pattern (entries.drop start) =
      matchesOf now pattern ((entries.drop start).take count) ++
        matchesOf now pattern (entries.drop (start + count)) := by
  rw [← matchesOf_append, ← List.drop_drop, List.take_append_drop]

theorem mem_matchesOf_iff :
    (key, value) ∈ matchesOf now pattern d.toList ↔ d.Matches now pattern key value := by
  rw [matchesOf, List.mem_filterMap, Matches, live]
  constructor
  · rintro ⟨e, hmem, hmatch⟩
    obtain ⟨expiresAt, rfl, hlive, haccepts⟩ := match?_eq_some_iff.1 hmatch
    refine ⟨⟨expiresAt, ?_⟩, haccepts⟩
    rw [KeyMap.mem_toList_iff.1 hmem]
    simp [Option.filter, hlive]
  · rintro ⟨⟨expiresAt, hlive⟩, haccepts⟩
    obtain ⟨hget, hexpired⟩ := Option.filter_eq_some_iff.1 hlive
    refine ⟨_, KeyMap.mem_toList_iff.2 hget, match?_eq_some_iff.2 ⟨expiresAt, rfl, ?_, haccepts⟩⟩
    simpa using hexpired

theorem pairwise_matchesOf :
    (matchesOf now pattern d.toList).Pairwise fun a b => a.1 < b.1 := by
  refine d.sorted.filterMap _ ?_
  intro e e' hlt p hp p' hp'
  obtain ⟨_, rfl, -⟩ := match?_eq_some_iff.1 hp
  obtain ⟨_, rfl, -⟩ := match?_eq_some_iff.1 hp'
  exact hlt

/-! ## One page -/

theorem pairUp_scanEntries (entries : List (String × Entry)) :
    pairUp (entries.flatMap fun (key, e) => scanEntry now pattern key e) =
      (matchesOf now pattern entries).map fun p => (Utf8.encode p.1, p.2) := by
  induction entries with
  | nil => rfl
  | cons e entries ih =>
    obtain ⟨key, e⟩ := e
    rw [List.flatMap_cons]
    cases e with
    | string value expiresAt =>
      by_cases h : !(Entry.string value expiresAt).isExpired now &&
          Glob.accepts pattern (Utf8.encode key)
      · simp only [scanEntry, if_pos h, matchesOf, List.filterMap_cons, match?, List.map_cons,
          List.cons_append, List.nil_append, pairUp] at ih ⊢
        rw [ih]
      · simp only [scanEntry, if_neg h, matchesOf, List.filterMap_cons, match?,
          List.nil_append] at ih ⊢
        exact ih
    | scored set => exact ih
    | map fields => exact ih

theorem pairs_page (cursor : UInt64) (entries : List (String × Entry)) :
    Page.pairs ⟨cursor, entries.flatMap fun (key, e) => scanEntry now pattern key e⟩ =
      matchesOf now pattern entries := by
  rw [Page.pairs, pairUp_scanEntries, List.map_map]
  refine (List.map_congr_left fun p _ => ?_).trans (List.map_id _)
  simp

/-! ## Where a page begins and ends -/

section

variable {len start stop : Nat} {cursor count : UInt64}

theorem pageBounds_eq_some_iff :
    pageBounds len cursor count = some (start, stop) ↔
      start + max count.toNat 1 < UInt64.size ∧ start = min cursor.toNat len ∧
        stop = min (start + max count.toNat 1) len := by
  simp only [pageBounds, Option.ite_none_right_eq_some, Option.some.injEq, Prod.mk.injEq]
  constructor
  · rintro ⟨hfits, rfl, rfl⟩
    exact ⟨hfits, rfl, rfl⟩
  · rintro ⟨hfits, rfl, rfl⟩
    exact ⟨hfits, rfl, rfl⟩

theorem pageBounds_eq_none_iff :
    pageBounds len cursor count = none ↔
      UInt64.size ≤ min cursor.toNat len + max count.toNat 1 := by
  simp only [pageBounds, ite_eq_right_iff, reduceCtorEq, imp_false, Nat.not_lt]

theorem bounds_ordered (h : pageBounds len cursor count = some (start, stop)) :
    start ≤ stop ∧ stop ≤ len := by
  obtain ⟨-, hstart, hstop⟩ := pageBounds_eq_some_iff.1 h
  omega

end

/-! ## Calls for a page -/

section

variable {start stop : Nat} {cursor count : UInt64} {pattern : String} {page : Page}

def stretch (now : Nat) (pattern : String) (d : Content) (start stop : Nat) : Page where
  cursor := if d.size ≤ stop then 0 else UInt64.ofNat stop
  entries := ((d.toList.drop start).take (stop - start)).flatMap fun (key, e) =>
    scanEntry now (Utf8.encode pattern) key e

theorem scan_of_isEmpty (hd : d.size = 0) (cursor count : UInt64) (pattern : String) :
    d.scan now cursor count pattern = .ok none := by
  have hempty : d.isEmpty := List.isEmpty_iff.2 (List.length_eq_zero_iff.1 hd)
  rw [scan, if_pos hempty]

/-- There is nothing to scan, or the page has no bounds, or it is what lies within them. -/
theorem scan_cases (now : Nat) (cursor count : UInt64) (pattern : String) (d : Content) :
    (d.size = 0 ∧ d.scan now cursor count pattern = .ok none) ∨
    (0 < d.size ∧ pageBounds d.size cursor count = none ∧
      d.scan now cursor count pattern = .error .pageOverflow) ∨
    (0 < d.size ∧ ∃ start stop, pageBounds d.size cursor count = some (start, stop) ∧
      d.scan now cursor count pattern = .ok (some (stretch now pattern d start stop))) := by
  rcases Nat.eq_zero_or_pos d.size with hzero | hd
  · exact .inl ⟨hzero, scan_of_isEmpty hzero cursor count pattern⟩
  · have hempty : ¬ d.isEmpty := by
      intro hempty
      exact Nat.ne_of_gt hd (List.length_eq_zero_iff.2 (List.isEmpty_iff.1 hempty))
    rw [scan, if_neg hempty]
    cases hbounds : pageBounds d.size cursor count with
    | none => exact .inr (.inl ⟨hd, rfl, rfl⟩)
    | some bounds => exact .inr (.inr ⟨hd, bounds.1, bounds.2, rfl, rfl⟩)

theorem scan_of_bounds (hd : 0 < d.size)
    (h : pageBounds d.size cursor count = some (start, stop)) :
    d.scan now cursor count pattern = .ok (some (stretch now pattern d start stop)) := by
  rcases scan_cases now cursor count pattern d with
    ⟨hzero, -⟩ | ⟨-, hbounds, -⟩ | ⟨-, start', stop', hbounds, hscan⟩
  · exact absurd hzero (Nat.ne_of_gt hd)
  · cases hbounds.symm.trans h
  · cases hbounds.symm.trans h
    exact hscan

theorem bounds_of_scan (h : d.scan now cursor count pattern = .ok (some page)) :
    ∃ start stop, pageBounds d.size cursor count = some (start, stop) ∧
      page = stretch now pattern d start stop := by
  rcases scan_cases now cursor count pattern d with
    ⟨-, hscan⟩ | ⟨-, -, hscan⟩ | ⟨-, start, stop, hbounds, hscan⟩
  · cases hscan.symm.trans h
  · cases hscan.symm.trans h
  · cases hscan.symm.trans h
    exact ⟨start, stop, hbounds, rfl⟩

theorem accepts_of_scan (h : d.scan now cursor count pattern = .ok (some page)) :
    ∀ p ∈ page.pairs, Glob.accepts (Utf8.encode pattern) (Utf8.encode p.1) := by
  obtain ⟨start, stop, -, rfl⟩ := bounds_of_scan h
  intro p hp
  rw [stretch, pairs_page, matchesOf, List.mem_filterMap] at hp
  obtain ⟨e, -, hmatch⟩ := hp
  obtain ⟨_, -, -, haccepts⟩ := match?_eq_some_iff.1 hmatch
  exact haccepts

/-- The first page of a store with one key is the last one. -/
theorem scan_of_single (hsize : d.size = 1) (count : UInt64) (pattern : String) :
    d.scan now 0 count pattern = .ok (some
      { cursor := 0
        entries := d.toList.flatMap fun (key, e) =>
          scanEntry now (Utf8.encode pattern) key e }) := by
  have hbounds : pageBounds d.size 0 count = some (0, 1) := by
    have hfits : max count.toNat 1 < UInt64.size :=
      Nat.max_lt.2 ⟨count.toNat_lt_size, by decide⟩
    rw [hsize, pageBounds_eq_some_iff, UInt64.toNat_zero]
    omega
  have hall : (d.toList.drop 0).take (1 - 0) = d.toList := by
    apply List.take_of_length_le
    show d.size ≤ 1
    omega
  rw [scan_of_bounds (by omega) hbounds, stretch]
  simp only [hall, hsize, Nat.le_refl, if_true]

/-- A page that starts inside the store gives as many keys as are asked for, or the rest of them. -/
theorem scan_of_lt {limit : UInt64} (hstart : start < d.size) (hlimit : 0 < limit.toNat)
    (hfits : start + limit.toNat < UInt64.size) (pattern : String) :
    d.scan now (UInt64.ofNat start) limit pattern = .ok (some
      { cursor := if d.size ≤ start + limit.toNat then 0 else UInt64.ofNat (start + limit.toNat)
        entries := ((d.toList.drop start).take limit.toNat).flatMap fun (key, e) =>
          scanEntry now (Utf8.encode pattern) key e }) := by
  have hcursor : (UInt64.ofNat start).toNat = start := UInt64.toNat_ofNat_of_lt' (by omega)
  have hbounds : pageBounds d.size (UInt64.ofNat start) limit =
      some (start, min (start + limit.toNat) d.size) := by
    rw [pageBounds_eq_some_iff, hcursor]
    omega
  have htake : (d.toList.drop start).take (min (start + limit.toNat) d.size - start) =
      (d.toList.drop start).take limit.toNat := by
    have hlength : (d.toList.drop start).length = d.size - start := List.length_drop
    rw [List.take_eq_take_iff, hlength]
    omega
  have hnext : (if d.size ≤ min (start + limit.toNat) d.size then (0 : UInt64)
        else UInt64.ofNat (min (start + limit.toNat) d.size)) =
      if d.size ≤ start + limit.toNat then 0 else UInt64.ofNat (start + limit.toNat) := by
    by_cases hlast : d.size ≤ start + limit.toNat
    · rw [if_pos hlast, if_pos (by omega)]
    · rw [if_neg hlast, if_neg (by omega), Nat.min_eq_left (by omega)]
  rw [scan_of_bounds (by omega) hbounds, stretch]
  simp only [htake, hnext]

end

end BatchingCache.Content
