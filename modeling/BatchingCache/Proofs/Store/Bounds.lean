import BatchingCache.Proofs.Store.Cursors
/-!
# Where a page begins and ends

The place where a page begins is cut down to the number of keys before the length is added to it, and the
sum is cut down after.  The sum itself need not fit into 64 bits: then there is no page.  There would be
none either if the sum wrapped around, since the end would come to lie before the beginning.
-/

namespace BatchingCache

namespace Content

variable {now len : Nat} {cursor count : UInt64} {d : Content} {pattern : String} {page : Page}

/-- The length of a page fits into 64 bits, so a sum that does not lies less than once around. -/
theorem wrapped_stop_lt_start (h : UInt64.size ≤ min cursor.toNat len + max count.toNat 1) :
    (min cursor.toNat len + max count.toNat 1) % UInt64.size < min cursor.toNat len := by
  have hcursor := cursor.toNat_lt_size
  have hlength : max count.toNat 1 < UInt64.size := Nat.max_lt.2 ⟨count.toNat_lt_size, by decide⟩
  rw [Nat.mod_eq_sub_mod h, Nat.mod_eq_of_lt (by omega)]
  omega

theorem scan_eq_pageOverflow_iff :
    d.scan now cursor count pattern = .error .pageOverflow ↔
      0 < d.size ∧ UInt64.size ≤ min cursor.toNat d.size + max count.toNat 1 := by
  rw [← pageBounds_eq_none_iff]
  rcases scan_cases now cursor count pattern d with
    ⟨hzero, hscan⟩ | ⟨hd, hbounds, hscan⟩ | ⟨-, start, stop, hbounds, hscan⟩
  · rw [hscan, hzero]
    exact iff_of_false nofun fun h => Nat.lt_irrefl 0 h.1
  · exact iff_of_true hscan ⟨hd, hbounds⟩
  · rw [hscan, hbounds]
    exact iff_of_false nofun fun h => nomatch h.2

/-- A cursor that is not zero is where the page ends, and lies a whole page ahead of the one asked for. -/
theorem cursor_of_scan (h : d.scan now cursor count pattern = .ok (some page))
    (hmore : page.cursor ≠ 0) :
    page.cursor.toNat = cursor.toNat + max count.toNat 1 ∧ page.cursor.toNat < d.size := by
  obtain ⟨start, stop, hbounds, rfl⟩ := bounds_of_scan h
  obtain ⟨hfits, hstart, hstop⟩ := pageBounds_eq_some_iff.1 hbounds
  by_cases hlast : d.size ≤ stop
  · exact absurd (if_pos hlast) hmore
  · have hcursor : (stretch now pattern d start stop).cursor = UInt64.ofNat stop := if_neg hlast
    rw [hcursor, UInt64.toNat_ofNat_of_lt' (by omega)]
    omega

/-- While the keys are no more than half of what 64 bits can count, a page of the same length fits
wherever the one before has led to. -/
theorem fits_after_page (h : d.scan now cursor count pattern = .ok (some page))
    (hmore : page.cursor ≠ 0) (hd : 2 * d.size ≤ UInt64.size) :
    page.cursor.toNat + max count.toNat 1 < UInt64.size := by
  obtain ⟨hcursor, hsize⟩ := cursor_of_scan h hmore
  omega

end Content

namespace Memory

variable {s : Memory} {cursor count : UInt64} {pattern : String}

theorem call_scan_eq_pageOverflow_iff :
    (s.call (.scan cursor count pattern)).1 = .error .pageOverflow ↔
      s.failing = false ∧ 0 < s.content.size ∧
        UInt64.size ≤ min cursor.toNat s.content.size + max count.toNat 1 := by
  cases hs : s.failing with
  | true =>
    rw [call_of_failing hs]
    exact iff_of_false nofun fun h => Bool.noConfusion h.1
  | false =>
    rw [fst_call hs]
    exact Content.scan_eq_pageOverflow_iff.trans (and_iff_right rfl).symm

/-- A call for a page overflows exactly if there are keys and the sum of where the page begins and how long
it is does not fit into 64 bits; cut to 64 bits, the sum would lie before the beginning.  Otherwise the page
is a stretch of the keys, and its cursor is zero or greater than the one asked for.  The call for the page
after it does not overflow, whatever becomes of the store until then, unless the keys were more than half
of what 64 bits can count. -/
theorem page_unless_sum_overflows (s : Memory) (cursor count : UInt64) (pattern : String) :
    let len := s.content.size
    let start := min cursor.toNat len
    let sum := start + max count.toNat 1
    let stop := min sum len
    let answer := (s.call (.scan cursor count pattern)).1
    (answer = .error .pageOverflow ↔ s.failing = false ∧ 0 < len ∧ UInt64.size ≤ sum) ∧
    (UInt64.size ≤ sum → min (sum % UInt64.size) len < start) ∧
    (s.failing = false → 0 < len → sum < UInt64.size →
      start ≤ stop ∧ stop ≤ len ∧ ∃ page, answer = .ok (some page) ∧
        page.pairs = Content.matchesOf s.now (Utf8.encode pattern)
          ((s.content.toList.drop start).take (stop - start))) ∧
    ∀ page, answer = .ok (some page) →
      (page.cursor = 0 ∨ cursor < page.cursor) ∧
      (page.cursor ≠ 0 → 2 * len ≤ UInt64.size →
        ∀ s' : Memory, (s'.call (.scan page.cursor count pattern)).1 ≠ .error .pageOverflow) := by
  intro len start sum stop answer
  refine ⟨call_scan_eq_pageOverflow_iff, fun hlarge => ?_, fun hs hlen hfits => ?_,
    fun page h => ⟨?_, ?_⟩⟩
  · exact Nat.lt_of_le_of_lt (Nat.min_le_left _ _) (Content.wrapped_stop_lt_start hlarge)
  · have hbounds : Content.pageBounds len cursor count = some (start, stop) :=
      Content.pageBounds_eq_some_iff.2 ⟨hfits, rfl, rfl⟩
    obtain ⟨hordered, hwithin⟩ := Content.bounds_ordered hbounds
    refine ⟨hordered, hwithin, _, (fst_call hs _).trans (Content.scan_of_bounds hlen hbounds), ?_⟩
    exact Content.pairs_page _ _
  · by_cases hmore : page.cursor = 0
    · exact .inl hmore
    · obtain ⟨hcursor, -⟩ := Content.cursor_of_scan (scan_of_call h) hmore
      exact .inr (UInt64.lt_iff_toNat_lt.2 (by omega))
  · intro hmore hhalf s' hoverflow
    have hfits := Content.fits_after_page (scan_of_call h) hmore hhalf
    obtain ⟨-, -, hlarge⟩ := call_scan_eq_pageOverflow_iff.1 hoverflow
    omega

theorem pages_from_second_key :
    let s : Memory := { content := KeyMap.ofList [("a", .string [1] none), ("b", .string [2] none),
      ("c", .string [3] none)] }
    let one := (s.call (.scan 1 1 "*")).1
    let most := (s.call (.scan 1 18446744073709551614 "*")).1
    one = .ok (some ⟨2, [[0x62], [2]]⟩) ∧ (1 : UInt64) < 2 ∧
      (∃ page, most = .ok (some page) ∧ page.pairs = [("b", [2]), ("c", [3])]) ∧
      ∀ s' : Memory, (s'.call (.scan 2 1 "*")).1 ≠ .error .pageOverflow := by
  intro s one most
  have hone : one = .ok (some ⟨2, [[0x62], [2]]⟩) := by decide
  obtain ⟨-, -, -, hcursors⟩ := page_unless_sum_overflows s 1 1 "*"
  obtain ⟨hzero | hlt, hnext⟩ := hcursors _ hone
  · cases hzero
  · obtain ⟨-, -, hpage, -⟩ := page_unless_sum_overflows s 1 18446744073709551614 "*"
    obtain ⟨-, -, page, hmost, hpairs⟩ := hpage rfl (by decide) (by decide)
    refine ⟨hone, hlt, ⟨page, hmost, ?_⟩, hnext (by decide) (by decide)⟩
    rw [hpairs]
    decide

/-- The page of the greatest length overflows unless it is the first one: past one key, the sum is cut to
zero. -/
theorem longest_page_overflows_past_first_key :
    let s : Memory := { content := KeyMap.ofList [("a", .string [1] none)] }
    let count : UInt64 := 18446744073709551615
    (s.call (.scan 1 count "*")).1 = .error .pageOverflow ∧
      (min (1 : UInt64).toNat s.content.size + max count.toNat 1) % UInt64.size = 0 ∧
      (s.call (.scan 0 count "*")).1 = .ok (some ⟨0, [[0x61], [1]]⟩) := by
  decide

end Memory

end BatchingCache
