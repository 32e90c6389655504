import BatchingCache.Proofs.KeyMap
import BatchingCache.Proofs.Store.Batches
import BatchingCache.Proofs.Store.Pages
import Mathlib.Data.List.Nodup
/-!
# Scans of a changing store

A cursor is a number of keys that were passed, and each page is cut from the keys that there are by
then.  A key that is there all along is missed by a scan only if it slips from ahead of the cursor to
behind it between two pages, because keys that sort before it go away.
-/

namespace BatchingCache

namespace Content

variable {now : Nat} {d d' : Content} {key : String} {value : Bytes} {e : Entry}

theorem sorted_keys : d.keys.Pairwise (· < ·) := List.pairwise_map.2 d.sorted

def rank (key : String) (d : Content) : Nat := d.keys.countP (· < key)

/-- A stored key stands in the place that its rank names, and nowhere else. -/
theorem getElem?_eq_some_iff_rank (h : d.get? key = some e) {i : Nat} :
    d.toList[i]? = some (key, e) ↔ i = d.rank key := by
  obtain ⟨before, after, hsplit⟩ := List.append_of_mem (KeyMap.mem_toList_iff.2 h)
  have hsorted : (before ++ (key, e) :: after).Pairwise fun a b => a.1 < b.1 := hsplit ▸ d.sorted
  have hkeys : d.keys = before.map Prod.fst ++ key :: after.map Prod.fst := by
    rw [KeyMap.keys, show d.entries = _ from hsplit, List.map_append, List.map_cons]
  obtain ⟨-, hafter, hbefore⟩ := List.pairwise_append.1 hsorted
  have hless : (before.map Prod.fst).countP (· < key) = before.length := by
    rw [List.countP_eq_length.2, List.length_map]
    intro k hk
    obtain ⟨a, ha, rfl⟩ := List.mem_map.1 hk
    exact decide_eq_true (hbefore a ha _ List.mem_cons_self)
  have hmore : (after.map Prod.fst).countP (· < key) = 0 := by
    apply List.countP_eq_zero.2
    intro k hk
    obtain ⟨b, hb, rfl⟩ := List.mem_map.1 hk
    have hlt := (List.pairwise_cons.1 hafter).1 b hb
    exact fun hgt => String.lt_irrefl _ (String.lt_trans hlt (of_decide_eq_true hgt))
  have hrank : d.rank key = before.length := by
    rw [rank, hkeys, List.countP_append, List.countP_cons, hless, hmore]
    simp
  have hplace : d.toList[before.length]? = some (key, e) := by
    rw [hsplit, List.getElem?_append_right (Nat.le_refl _), Nat.sub_self, List.getElem?_cons_zero]
  rw [hrank]
  constructor
  · intro hi
    have hnodup : d.toList.Nodup := by
      apply d.sorted.imp
      rintro a _ hlt rfl
      exact String.lt_irrefl a.1 hlt
    exact (List.getElem?_inj (List.getElem?_eq_some_iff.1 hi).1 hnodup).1 (hi.trans hplace.symm)
  · rintro rfl
    exact hplace

theorem rank_lt_size (h : d.get? key = some e) : d.rank key < d.size :=
  (List.getElem?_eq_some_iff.1 ((getElem?_eq_some_iff_rank h).2 rfl)).1

theorem mem_stretch_iff (h : d.get? key = some e) (start len : Nat) :
    (key, e) ∈ (d.toList.drop start).take len ↔
      start ≤ d.rank key ∧ d.rank key < start + len := by
  rw [List.mem_iff_getElem?]
  simp only [List.getElem?_take, List.getElem?_drop, Option.ite_none_right_eq_some,
    getElem?_eq_some_iff_rank h]
  constructor
  · rintro ⟨i, hi, hrank⟩
    omega
  · rintro ⟨hstart, hlen⟩
    exact ⟨d.rank key - start, by omega, by omega⟩

theorem rank_le_rank (h : ∀ k < key, d.contains k → d'.contains k) : d.rank key ≤ d'.rank key := by
  rw [rank, rank, List.countP_eq_length_filter, List.countP_eq_length_filter]
  have hnodup : (d.keys.filter (· < key)).Nodup := by
    apply List.Nodup.filter
    apply sorted_keys.imp
    rintro k _ hlt rfl
    exact String.lt_irrefl k hlt
  apply (List.subperm_of_subset hnodup _).length_le
  intro k hk
  rw [List.mem_filter, KeyMap.mem_keys_iff] at hk ⊢
  exact ⟨h k (of_decide_eq_true hk.2) hk.1, hk.2⟩

/-! ## What a page shows of a key -/

theorem mem_matchesOf_stretch_iff {pattern : Bytes} (hkey : d.Matches now pattern key value)
    (start len : Nat) (bs : Bytes) :
    (key, bs) ∈ matchesOf now pattern ((d.toList.drop start).take len) ↔
      bs = value ∧ start ≤ d.rank key ∧ d.rank key < start + len := by
  obtain ⟨⟨expiresAt, hlive⟩, haccepts⟩ := hkey
  obtain ⟨hget, hexpired⟩ := Option.filter_eq_some_iff.1 hlive
  rw [← mem_stretch_iff hget, matchesOf, List.mem_filterMap]
  constructor
  · rintro ⟨p, hmem, hmatch⟩
    obtain ⟨_, rfl, -⟩ := match?_eq_some_iff.1 hmatch
    have hstored := KeyMap.mem_toList_iff.1 (List.mem_of_mem_drop (List.mem_of_mem_take hmem))
    cases hget.symm.trans hstored
    exact ⟨rfl, hmem⟩
  · rintro ⟨rfl, hmem⟩
    exact ⟨_, hmem, match?_eq_some_iff.2 ⟨expiresAt, rfl, by simpa using hexpired, haccepts⟩⟩

/-- A page shows what matches of a stretch of the entries.  The next page starts where it stops, and
there is none only if nothing is left. -/
theorem pairs_of_scan {cursor count : UInt64} {pattern : String} {page : Page}
    (h : d.scan now cursor count pattern = .ok (some page)) :
    ∃ start stop, start = min cursor.toNat d.size ∧ start ≤ stop ∧
      page.pairs = matchesOf now (Utf8.encode pattern) ((d.toList.drop start).take (stop - start)) ∧
      if page.cursor = 0 then d.size ≤ stop else stop = page.cursor.toNat ∧ stop < d.size := by
  obtain ⟨start, stop, hbounds, rfl⟩ := bounds_of_scan h
  obtain ⟨hfits, hstart, hstop⟩ := pageBounds_eq_some_iff.1 hbounds
  refine ⟨start, stop, hstart, (bounds_ordered hbounds).1, pairs_page _ _, ?_⟩
  rw [stretch]
  by_cases hlast : d.size ≤ stop
  · simpa only [if_pos hlast, if_true] using hlast
  · have hnext : (UInt64.ofNat stop).toNat = stop := UInt64.toNat_ofNat_of_lt' (by omega)
    have hne : UInt64.ofNat stop ≠ 0 := by
      intro hzero
      rw [hzero, UInt64.toNat_zero] at hnext
      omega
    simp only [if_neg hlast, if_neg hne, hnext]
    exact ⟨trivial, Nat.lt_of_not_le hlast⟩

/-- A page shows a key if its rank lies between the cursor that was asked for and where the page
stops. -/
theorem mem_pairs_of_scan {cursor count : UInt64} {pattern : String} {page : Page}
    (h : d.scan now cursor count pattern = .ok (some page))
    (hkey : d.Matches now (Utf8.encode pattern) key value) (bs : Bytes) :
    (key, bs) ∈ page.pairs ↔ bs = value ∧ cursor.toNat ≤ d.rank key ∧
      (page.cursor ≠ 0 → d.rank key < page.cursor.toNat) := by
  obtain ⟨start, stop, hstart, hle, hpairs, hnext⟩ := pairs_of_scan h
  have hrank : d.rank key < d.size := by
    obtain ⟨⟨expiresAt, hlive⟩, -⟩ := hkey
    exact rank_lt_size (Option.filter_eq_some_iff.1 hlive).1
  rw [hpairs, mem_matchesOf_stretch_iff hkey]
  by_cases hlast : page.cursor = 0
  · rw [if_pos hlast] at hnext
    simp only [hlast, ne_eq, not_true_eq_false, false_implies, and_true]
    exact and_congr_right fun _ => by omega
  · rw [if_neg hlast] at hnext
    simp only [hlast, ne_eq, not_false_eq_true, true_implies]
    exact and_congr_right fun _ => by omega

/-- The cursor does not go back. -/
theorem cursor_le_of_scan {cursor count : UInt64} {pattern : String} {page : Page}
    (h : d.scan now cursor count pattern = .ok (some page)) (hmore : page.cursor ≠ 0) :
    cursor.toNat ≤ page.cursor.toNat := by
  obtain ⟨start, stop, hstart, hle, -, hnext⟩ := pairs_of_scan h
  rw [if_neg hmore] at hnext
  omega

end Content

/-! ## Following the cursors -/

namespace Memory

inductive Event where
  | call (c : Call)
  | wait (nanos : Nat)

def after (s : Memory) : Event → Memory
  | .call c => (s.call c).2
  | .wait nanos => { s with now := s.now + nanos }

def afterAll (s : Memory) (events : List Event) : Memory := events.foldl after s

theorem failing_after (s : Memory) (e : Event) : (s.after e).failing = s.failing := by
  cases e with
  | call c => exact failing_call c
  | wait nanos => rfl

theorem failing_afterAll (s : Memory) (events : List Event) :
    (s.afterAll events).failing = s.failing := by
  induction events generalizing s with
  | nil => rfl
  | cons e events ih => exact (ih (s.after e)).trans (failing_after s e)

theorem afterAll_append_singleton (s : Memory) (events : List Event) (e : Event) :
    s.afterAll (events ++ [e]) = (s.afterAll events).after e :=
  List.foldl_append

def Matches (pattern key : String) (s : Memory) : Prop :=
  ∃ value, s.content.Matches s.now (Utf8.encode pattern) key value

variable {s : Memory} {cursor count : UInt64} {pattern key : String}

theorem scan_of_call {found : Option Page}
    (h : (s.call (.scan cursor count pattern)).1 = .ok found) :
    s.content.scan s.now cursor count pattern = .ok found := by
  cases hs : s.failing with
  | true =>
    rw [call_of_failing hs] at h
    cases h
  | false => exact (fst_call hs _).symm.trans h

theorem scan_ne_none (hkey : s.Matches pattern key) :
    (s.call (.scan cursor count pattern)).1 ≠ .ok none := by
  intro h
  obtain ⟨value, ⟨expiresAt, hlive⟩, -⟩ := hkey
  have hrank := Content.rank_lt_size (Option.filter_eq_some_iff.1 hlive).1
  rcases Content.scan_cases s.now cursor count pattern s.content with
    ⟨hzero, -⟩ | ⟨-, -, hscan⟩ | ⟨-, start, stop, -, hscan⟩
  · omega
  · cases hscan.symm.trans (scan_of_call h)
  · cases hscan.symm.trans (scan_of_call h)

end Memory

/-- A page of a scan: the store that it was cut from, the cursor that was asked for, what it shows, and
what happened before the next page. -/
structure View where
  store : Memory
  cursor : UInt64
  pairs : List (String × Bytes)
  between : List Memory.Event := []

namespace View

variable {count : UInt64} {pattern key : String} {v w : View}

def Shows (key : String) (v : View) : Prop := ∃ value, (key, value) ∈ v.pairs

def rank (key : String) (v : View) : Nat := v.store.content.rank key

/-- A key that was ahead of the next page is behind it when that page is cut. -/
def Overtaken (key : String) (v w : View) : Prop :=
  w.cursor.toNat ≤ v.rank key ∧ w.rank key < w.cursor.toNat

instance : Decidable (v.Overtaken key w) := inferInstanceAs (Decidable (_ ∧ _))

def events (count : UInt64) (pattern : String) (v : View) : List Memory.Event :=
  .call (.scan v.cursor count pattern) :: v.between

def stores (count : UInt64) (pattern : String) (v : View) : List Memory :=
  (v.events count pattern).scanl Memory.after v.store

theorem shows_iff {s : Memory} {cursor : UInt64} {page : Page} (hkey : s.Matches pattern key)
    (h : (s.call (.scan cursor count pattern)).1 = .ok (some page)) (between : List Memory.Event) :
    View.Shows key ⟨s, cursor, page.pairs, between⟩ ↔
      cursor.toNat ≤ s.content.rank key ∧
        (page.cursor ≠ 0 → s.content.rank key < page.cursor.toNat) := by
  obtain ⟨value, hvalue⟩ := hkey
  simp only [Shows, Content.mem_pairs_of_scan (Memory.scan_of_call h) hvalue, exists_eq_left]

theorem not_overtaken_of_rank_le (h : v.rank key ≤ w.rank key) : ¬ v.Overtaken key w := by
  rintro ⟨hahead, hbehind⟩
  omega

end View

/-- A scan from a cursor on, whatever happens between its pages: its cursors are followed until there
is none, or until there is nothing to scan. -/
inductive Paged (count : UInt64) (pattern : String) : Memory → UInt64 → List View → Prop
  | nothing {s : Memory} {cursor : UInt64}
      (h : (s.call (.scan cursor count pattern)).1 = .ok none) :
      Paged count pattern s cursor [⟨s, cursor, [], []⟩]
  | last {s : Memory} {cursor : UInt64} {page : Page}
      (h : (s.call (.scan cursor count pattern)).1 = .ok (some page)) (hlast : page.cursor = 0) :
      Paged count pattern s cursor [⟨s, cursor, page.pairs, []⟩]
  | more {s : Memory} {cursor : UInt64} {page : Page} {between : List Memory.Event}
      {views : List View}
      (h : (s.call (.scan cursor count pattern)).1 = .ok (some page)) (hmore : page.cursor ≠ 0)
      (hrest : Paged count pattern (s.afterAll (.call (.scan cursor count pattern) :: between))
        page.cursor views) :
      Paged count pattern s cursor (⟨s, cursor, page.pairs, between⟩ :: views)

namespace Paged

variable {s : Memory} {cursor count : UInt64} {pattern key : String} {views : List View}

theorem head (h : Paged count pattern s cursor views) :
    ∃ v rest, views = v :: rest ∧ v.store = s ∧ v.cursor = cursor := by
  cases h with
  | nothing => exact ⟨_, _, rfl, rfl, rfl⟩
  | last => exact ⟨_, _, rfl, rfl, rfl⟩
  | more => exact ⟨_, _, rfl, rfl, rfl⟩

/-- A key that is ahead is shown, unless it is overtaken. -/
theorem shown_of_ahead (h : Paged count pattern s cursor views)
    (hkey : ∀ v ∈ views, v.store.Matches pattern key)
    (hahead : cursor.toNat ≤ s.content.rank key)
    (hchain : views.IsChain fun v w => ¬ v.Overtaken key w) : ∃ v ∈ views, v.Shows key := by
  induction h with
  | nothing h => exact absurd h (Memory.scan_ne_none (hkey _ List.mem_cons_self))
  | last h hlast =>
    have hshows := (View.shows_iff (hkey _ List.mem_cons_self) h []).2
      ⟨hahead, fun hmore => absurd hlast hmore⟩
    exact ⟨_, List.mem_cons_self, hshows⟩
  | @more s cursor page between views h hmore hrest ih =>
    obtain ⟨hfirst, hlater⟩ := List.forall_mem_cons.1 hkey
    obtain ⟨w, rest, rfl, hstore, hcursor⟩ := hrest.head
    obtain ⟨hnot, hchain⟩ := List.isChain_cons_cons.1 hchain
    by_cases hpage : s.content.rank key < page.cursor.toNat
    · have hshows := (View.shows_iff hfirst h between).2 ⟨hahead, fun _ => hpage⟩
      exact ⟨_, List.mem_cons_self, hshows⟩
    · have hstill : page.cursor.toNat ≤ w.store.content.rank key := by
        apply Nat.le_of_not_lt
        intro hbehind
        exact hnot ⟨hcursor ▸ Nat.le_of_not_lt hpage, hcursor ▸ hbehind⟩
      obtain ⟨v, hv, hshown⟩ := ih hlater (hstore ▸ hstill) hchain
      exact ⟨v, List.mem_cons_of_mem _ hv, hshown⟩

/-- A key that is behind is not shown, and not overtaken any more, while no more keys sort before it. -/
theorem not_shown_of_behind (h : Paged count pattern s cursor views)
    (hkey : ∀ v ∈ views, v.store.Matches pattern key)
    (hbehind : s.content.rank key < cursor.toNat)
    (hranks : views.IsChain fun v w => w.rank key ≤ v.rank key) :
    (∀ v ∈ views, ¬ v.Shows key) ∧ views.IsChain fun v w => ¬ v.Overtaken key w := by
  induction h with
  | nothing h => exact absurd h (Memory.scan_ne_none (hkey _ List.mem_cons_self))
  | last h hlast =>
    have hnot := mt (View.shows_iff (hkey _ List.mem_cons_self) h []).1
      fun hshows => Nat.not_lt.2 hshows.1 hbehind
    exact ⟨List.forall_mem_singleton.2 hnot, List.IsChain.singleton _⟩
  | @more s cursor page between views h hmore hrest ih =>
    obtain ⟨hfirst, hlater⟩ := List.forall_mem_cons.1 hkey
    obtain ⟨w, rest, rfl, hstore, hcursor⟩ := hrest.head
    obtain ⟨hrank, hranks⟩ := List.isChain_cons_cons.1 hranks
    have hrank : w.store.content.rank key ≤ s.content.rank key := hrank
    have hcursors := Content.cursor_le_of_scan (Memory.scan_of_call h) hmore
    have hstill : w.store.content.rank key < page.cursor.toNat := by omega
    obtain ⟨hnot, hnever⟩ := ih hlater (hstore ▸ hstill) hranks
    have hnow := mt (View.shows_iff hfirst h between).1
      fun hshows => Nat.not_lt.2 hshows.1 hbehind
    refine ⟨List.forall_mem_cons.2 ⟨hnow, hnot⟩, List.isChain_cons_cons.2 ⟨?_, hnever⟩⟩
    rintro ⟨hahead, -⟩
    have hahead : w.cursor.toNat ≤ s.content.rank key := hahead
    rw [hcursor] at hahead
    omega

/-- A key that is ahead is shown exactly if it is not overtaken, while no more keys sort before it. -/
theorem shown_iff_of_ahead (h : Paged count pattern s cursor views)
    (hkey : ∀ v ∈ views, v.store.Matches pattern key)
    (hahead : cursor.toNat ≤ s.content.rank key)
    (hranks : views.IsChain fun v w => w.rank key ≤ v.rank key) :
    (∃ v ∈ views, v.Shows key) ↔ views.IsChain fun v w => ¬ v.Overtaken key w := by
  refine ⟨?_, shown_of_ahead h hkey hahead⟩
  induction h with
  | nothing => exact fun _ => List.IsChain.singleton _
  | last => exact fun _ => List.IsChain.singleton _
  | @more s cursor page between views h hmore hrest ih =>
    obtain ⟨hfirst, hlater⟩ := List.forall_mem_cons.1 hkey
    obtain ⟨w, rest, rfl, hstore, hcursor⟩ := hrest.head
    obtain ⟨hrank, hranks⟩ := List.isChain_cons_cons.1 hranks
    have hrank : w.store.content.rank key ≤ s.content.rank key := hrank
    intro hshown
    apply List.isChain_cons_cons.2
    by_cases hpage : s.content.rank key < page.cursor.toNat
    · -- Shown now: from here on the key is behind.
      have hbehind : w.store.content.rank key < page.cursor.toNat := by omega
      obtain ⟨-, hnever⟩ := not_shown_of_behind hrest hlater (hstore ▸ hbehind) hranks
      refine ⟨?_, hnever⟩
      rintro ⟨hahead, -⟩
      exact absurd (hcursor ▸ hahead) (Nat.not_le.2 hpage)
    · have hnot : ¬ View.Shows key ⟨s, cursor, page.pairs, between⟩ :=
        mt (View.shows_iff hfirst h between).1 fun hshows => hpage (hshows.2 hmore)
      have hlatershown : ∃ v ∈ w :: rest, v.Shows key := by
        obtain ⟨v, hv, hshows⟩ := hshown
        rcases List.mem_cons.1 hv with rfl | hv
        · exact absurd hshows hnot
        · exact ⟨v, hv, hshows⟩
      by_cases hstill : page.cursor.toNat ≤ w.store.content.rank key
      · refine ⟨?_, ih hlater (hstore ▸ hstill) hranks hlatershown⟩
        rintro ⟨-, hbehind⟩
        exact absurd (hcursor ▸ hbehind) (Nat.not_lt.2 hstill)
      · obtain ⟨v, hv, hshows⟩ := hlatershown
        have hbehind := Nat.lt_of_not_le hstill
        exact absurd hshows ((not_shown_of_behind hrest hlater (hstore ▸ hbehind) hranks).1 v hv)

theorem not_overtaken_of_kept
    (hkept : views.IsChain fun v w =>
      ∀ k < key, v.store.content.contains k → w.store.content.contains k) :
    views.IsChain fun v w => ¬ v.Overtaken key w := by
  apply hkept.imp
  intro v w hkept
  exact View.not_overtaken_of_rank_le (Content.rank_le_rank hkept)

/-- A scan shows a key that matches all along, or overtakes it: between two pages so many of the keys
that sort before it went away that it slipped behind the cursor.  And while no more keys sort before it,
a key that was overtaken is not shown.  If no key that sorts before it goes away, it is shown. -/
theorem shown_unless_overtaken (h : Paged count pattern s 0 views)
    (hkey : ∀ v ∈ views, v.store.Matches pattern key) :
    ((views.IsChain fun v w => ¬ v.Overtaken key w) → ∃ v ∈ views, v.Shows key) ∧
      ((views.IsChain fun v w => w.rank key ≤ v.rank key) →
        ((∃ v ∈ views, v.Shows key) ↔ views.IsChain fun v w => ¬ v.Overtaken key w)) ∧
      ((views.IsChain fun v w =>
          ∀ k < key, v.store.content.contains k → w.store.content.contains k) →
        ∃ v ∈ views, v.Shows key) := by
  have hshown := shown_of_ahead h hkey (Nat.zero_le _)
  refine ⟨hshown, shown_iff_of_ahead h hkey (Nat.zero_le _), ?_⟩
  intro hkept
  exact hshown (not_overtaken_of_kept hkept)

theorem shown_beside_changes :
    let s : Memory := { content := KeyMap.ofList [("a", .string [1] none), ("b", .string [2] none),
      ("d", .string [4] none)] }
    let changes : List Memory.Event := [.call (.set "c" [3] none), .call (.delete "d"), .wait 7]
    let views : List View :=
      [⟨s, 0, Page.pairs ⟨1, [[0x61], [1]]⟩, changes⟩,
        ⟨s.afterAll (.call (.scan 0 1 "*") :: changes), 1, Page.pairs ⟨2, [[0x62], [2]]⟩, []⟩,
        ⟨s.afterAll (.call (.scan 0 1 "*") :: changes ++ [.call (.scan 1 1 "*")]), 2,
          Page.pairs ⟨0, [[0x63], [3]]⟩, []⟩]
    Paged 1 "*" s 0 views ∧ (∀ v ∈ views, v.store.Matches "*" "b") ∧ ∃ v ∈ views, v.Shows "b" := by
  intro s changes views
  have hpaged : Paged 1 "*" s 0 views :=
    .more (by decide) (by decide) (.more (by decide) (by decide) (.last (by decide) (by decide)))
  have hkey : ∀ v ∈ views, v.store.Matches "*" "b" := by
    simp only [views, List.forall_mem_cons, List.not_mem_nil, false_implies, implies_true, and_true]
    exact ⟨⟨[2], ⟨none, by decide⟩, by decide⟩, ⟨[2], ⟨none, by decide⟩, by decide⟩,
      ⟨[2], ⟨none, by decide⟩, by decide⟩⟩
  refine ⟨hpaged, hkey, (shown_unless_overtaken hpaged hkey).1 ?_⟩
  simp only [views, List.isChain_cons_cons, List.IsChain.singleton, and_true]
  exact ⟨by decide, by decide⟩

/-- Once `a` is shown and deleted, `b` is the first key, and the cursor is past the first key. -/
theorem overtaken_key_is_missed :
    ¬ ∀ (count : UInt64) (pattern : String) (s : Memory) (views : List View) (key : String),
      Paged count pattern s 0 views →
      (∀ v ∈ views, ∀ t ∈ v.stores count pattern, t.Matches pattern key) →
      ∃ v ∈ views, v.Shows key := by
  intro hall
  let s : Memory := { content := KeyMap.ofList [("a", .string [1] none), ("b", .string [2] none)] }
  let s' := s.afterAll [.call (.scan 0 1 "*"), .call (.delete "a")]
  have hfirst : (s.call (.scan 0 1 "*")).1 = .ok (some ⟨1, [[0x61], [1]]⟩) := by decide
  have hsecond : (s'.call (.scan 1 1 "*")).1 = .ok (some ⟨0, []⟩) := by decide
  have hpaged : Paged 1 "*" s 0 [⟨s, 0, Page.pairs ⟨1, [[0x61], [1]]⟩, [.call (.delete "a")]⟩,
      ⟨s', 1, Page.pairs ⟨0, []⟩, []⟩] :=
    .more hfirst (by decide) (.last hsecond (by decide))
  have hthere : ∀ t : Memory, t.now = 0 → t.content.get? "b" = some (.string [2] none) →
      t.Matches "*" "b" := by
    intro t hnow hget
    refine ⟨[2], ⟨none, ?_⟩, by decide⟩
    rw [Content.live, hget]
    rfl
  obtain ⟨v, hv, hshown⟩ := hall 1 "*" s _ "b" hpaged (by
    simp only [View.stores, View.events, List.forall_mem_cons, List.not_mem_nil, false_implies,
      implies_true, and_true, List.scanl_cons, List.scanl_nil]
    exact ⟨⟨hthere _ rfl (by decide), hthere _ rfl (by decide), hthere _ rfl (by decide)⟩,
      hthere _ rfl (by decide), hthere _ rfl (by decide)⟩)
  have hnever : ¬ (0 ≤ s.content.rank "b" ∧ ((1 : UInt64) ≠ 0 → s.content.rank "b" < 1)) ∧
      ¬ (1 ≤ s'.content.rank "b") := by decide
  simp only [List.mem_cons, List.not_mem_nil, or_false] at hv
  rcases hv with rfl | rfl
  · exact hnever.1 ((View.shows_iff (hthere s rfl (by decide)) hfirst _).1 hshown)
  · exact hnever.2 ((View.shows_iff (hthere s' rfl (by decide)) hsecond []).1 hshown).1

end Paged

end BatchingCache
