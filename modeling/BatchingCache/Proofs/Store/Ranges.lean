import BatchingCache.Proofs.Store.Batches
/-!
# Ranges from either end

A range of places runs from its first place to its last one, counted from the end of the list where they
are negative, as far as the list goes.  Reading a list backwards is reading the range that is counted
from the other end.
-/

namespace BatchingCache

namespace IndexRange

variable {α : Type} {len : Nat} {start stop : Int64}

def Fits (i : Int) : Prop := Int64.minValue.toInt ≤ i ∧ i ≤ Int64.maxValue.toInt

/-- The numbers that come up in finding a range, in this order. -/
def workings (len : Nat) (start stop : Int64) : List Int :=
  [len, fromEnd len start, first len start, len - 1, fromEnd len stop, last len stop]

/-! ## The ends of a range -/

theorem fits_toInt (i : Int64) : Fits i.toInt := ⟨i.minValue_le_toInt, i.toInt_le⟩

theorem lt_zero_iff {i : Int64} : i < 0 ↔ i.toInt < 0 := Int64.lt_iff_toInt_lt

theorem first_eq_max (len : Nat) (start : Int64) : first len start = max 0 (fromEnd len start) := by
  simp only [first, fromEnd, lt_zero_iff]
  split
  · omega
  · omega

theorem last_eq_min (len : Nat) (stop : Int64) :
    last len stop = min ((len : Int) - 1) (fromEnd len stop) := by
  simp only [last, fromEnd, lt_zero_iff]
  split
  · omega
  · omega

theorem fits_workings (hlen : (len : Int) ≤ Int64.maxValue.toInt) :
    ∀ i ∈ workings len start stop, Fits i := by
  have hmax : (0 : Int) ≤ Int64.maxValue.toInt := by decide
  have hmin : Int64.minValue.toInt ≤ -1 := by decide
  have hplace : ∀ i : Int64, Fits (fromEnd len i) := by
    intro i
    obtain ⟨hlo, hhi⟩ := fits_toInt i
    simp only [fromEnd, lt_zero_iff]
    split
    · exact ⟨by omega, by omega⟩
    · exact ⟨hlo, hhi⟩
  obtain ⟨hstart, hstart'⟩ := hplace start
  obtain ⟨hstop, hstop'⟩ := hplace stop
  simp only [workings, first_eq_max, last_eq_min, List.forall_mem_cons, List.not_mem_nil,
    false_implies, implies_true, and_true, Fits]
  omega

theorem bounds_eq (len : Nat) (start stop : Int64) :
    bounds len start stop =
      if first len start ≤ last len stop then
        some ((first len start).toNat, (last len stop).toNat)
      else none := by
  have hlo : 0 ≤ first len start := by
    rw [first_eq_max]
    omega
  have hhi : last len stop ≤ len - 1 := by
    rw [last_eq_min]
    omega
  unfold bounds
  by_cases h : first len start ≤ last len stop
  · rw [if_pos h, if_neg]
    simp only [Bool.or_eq_true, decide_eq_true_eq]
    omega
  · rw [if_neg h, if_pos]
    simp only [Bool.or_eq_true, decide_eq_true_eq]
    omega

theorem lt_of_bounds {lo hi : Nat} (h : bounds len start stop = some (lo, hi)) :
    lo ≤ hi ∧ hi < len := by
  rw [bounds_eq, first_eq_max, last_eq_min] at h
  split at h
  · cases h
    omega
  · cases h

/-! ## What stands in a range -/

theorem slice_eq_extract (xs : List α) (start stop : Int64) :
    slice xs start stop =
      if first xs.length start ≤ last xs.length stop then
        xs.extract (first xs.length start).toNat ((last xs.length stop).toNat + 1)
      else [] := by
  unfold slice
  rw [bounds_eq]
  by_cases h : first xs.length start ≤ last xs.length stop
  · rw [if_pos h, if_pos h]
  · rw [if_neg h, if_neg h]

/-- Counted from the other end, a place is mirrored. -/
theorem fromEnd_mirror (len : Nat) (i : Int64) : fromEnd len (-1 - i) = len - 1 - fromEnd len i := by
  have hmirror : (-1 - i).toInt = -1 - i.toInt := by
    obtain ⟨hlo, hhi⟩ := fits_toInt i
    have hmin : Int64.minValue.toInt = -9223372036854775808 := rfl
    have hmax : Int64.maxValue.toInt = 9223372036854775807 := rfl
    rw [Int64.toInt_sub, show (-1 : Int64).toInt = -1 from rfl]
    exact Int.bmod_eq_of_le (by omega) (by omega)
  simp only [fromEnd, lt_zero_iff, hmirror]
  by_cases h : i.toInt < 0
  · rw [if_pos h, if_neg (by omega)]
    omega
  · rw [if_neg h, if_pos (by omega)]
    omega

theorem extract_reverse (xs : List α) {lo hi : Nat} (hlo : lo ≤ hi) (hhi : hi ≤ xs.length) :
    xs.reverse.extract lo hi = (xs.extract (xs.length - hi) (xs.length - lo)).reverse := by
  rw [List.extract_eq_take_drop, List.extract_eq_take_drop, List.drop_reverse, List.take_reverse,
    List.drop_take, List.length_take]
  congr 2
  · omega
  · congr 1
    omega

/-- A range of the list read backwards is the mirrored range, read backwards. -/
theorem slice_reverse (xs : List α) (start stop : Int64) :
    slice xs.reverse start stop = (slice xs (-1 - stop) (-1 - start)).reverse := by
  rw [slice_eq_extract, slice_eq_extract, List.length_reverse, first_eq_max, last_eq_min, first_eq_max,
    last_eq_min, fromEnd_mirror, fromEnd_mirror]
  generalize fromEnd xs.length start = s
  generalize fromEnd xs.length stop = e
  by_cases h : max 0 s ≤ min ((xs.length : Int) - 1) e
  · rw [if_pos h, if_pos (by omega), extract_reverse xs (by omega) (by omega)]
    congr 2
    · omega
    · omega
  · rw [if_neg h, if_neg (by omega), List.reverse_nil]

theorem slice_whole (xs : List α) : slice xs 0 (-1) = xs := by
  have hfirst : first xs.length 0 = 0 := rfl
  have hlast : last xs.length (-1) = (xs.length : Int) - 1 := rfl
  rw [slice_eq_extract, hfirst, hlast]
  cases xs with
  | nil => rfl
  | cons x xs =>
    rw [List.length_cons, if_pos (by omega), List.extract_eq_take_drop, Int.toNat_zero, List.drop_zero]
    exact List.take_of_length_le (by rw [List.length_cons]; omega)

end IndexRange

/-! ## Ranges of scored sets -/

open IndexRange (bounds fromEnd)

theorem Content.range_mirror (key : String) (start stop : Int64) (reversed : Bool) (d : Content) :
    d.range key start stop (!reversed) =
      (d.range key (-1 - stop) (-1 - start) reversed).map List.reverse := by
  unfold Content.range
  cases d.get? key with
  | none => rfl
  | some e =>
    cases e with
    | string value expiresAt => rfl
    | map fields => rfl
    | scored set =>
      cases reversed with
      | false => exact congrArg Except.ok (IndexRange.slice_reverse _ start stop)
      | true =>
        have hmirror := IndexRange.slice_reverse (set.members.map Scored.member).reverse start stop
        rw [List.reverse_reverse] at hmirror
        exact congrArg Except.ok hmirror

/-- A range of a scored set is found in numbers of 64 bits, since no list in memory is longer than the
greatest of them, and lies within the set.  It has the members from the first place to the last one, as
far as there are any, and none if the last place comes before the first.  Read the other way round, it
is the range counted from the other end, backwards. -/
theorem Memory.range_from_either_end {s : Memory} (hs : s.failing = false) (key : String)
    (start stop : Int64) (reversed : Bool) :
    let read := fun start stop reversed => (s.call (.scoredRange key start stop reversed)).1
    (∀ z : ScoredSet, s.content.get? key = some (.scored z) →
      let members := z.members.map Scored.member
      let listed := if reversed then members.reverse else members
      let n := listed.length
      let lo := max 0 (fromEnd n start)
      let hi := min ((n : Int) - 1) (fromEnd n stop)
      ((n : Int) ≤ Int64.maxValue.toInt →
        ∀ i ∈ IndexRange.workings n start stop, IndexRange.Fits i) ∧
      (∀ i j, bounds n start stop = some (i, j) → i ≤ j ∧ j < n) ∧
      (lo ≤ hi → read start stop reversed = .ok (listed.extract lo.toNat (hi.toNat + 1))) ∧
      (hi < lo → read start stop reversed = .ok [])) ∧
    read start stop (!reversed) =
      (read (-1 - stop) (-1 - start) reversed).map List.reverse := by
  intro read
  have hread : ∀ start stop reversed, read start stop reversed =
      s.content.range key start stop reversed := fun _ _ _ => fst_call hs _
  constructor
  · intro z hz members listed n lo hi
    have hslice : read start stop reversed = .ok (IndexRange.slice listed start stop) := by
      rw [hread, Content.range, hz]
    rw [hslice, IndexRange.slice_eq_extract, IndexRange.first_eq_max, IndexRange.last_eq_min]
    refine ⟨IndexRange.fits_workings, fun i j => IndexRange.lt_of_bounds, fun h => ?_, fun h => ?_⟩
    · rw [if_pos h]
    · rw [if_neg (Int.not_le.2 h)]
  · rw [hread, hread]
    exact s.content.range_mirror key start stop reversed

theorem Memory.range_beyond_end_backwards :
    let z := ((ScoredSet.insert ⟨.zero, [97]⟩ ∅).insert ⟨.zero, [98]⟩).insert ⟨.zero, [99]⟩
    let s : Memory := { content := KeyMap.ofList [("board", .scored z)] }
    let read := fun start stop reversed => (s.call (.scoredRange "board" start stop reversed)).1
    s.failing = false ∧ s.content.get? "board" = some (.scored z) ∧
      (∀ i ∈ IndexRange.workings 3 (-2) Int64.maxValue, IndexRange.Fits i) ∧
      read (-2) Int64.maxValue true = .ok [[98], [97]] ∧
      (read Int64.minValue 1 false).map List.reverse = .ok [[98], [97]] := by
  intro z s read
  have hs : s.failing = false := rfl
  have hz : s.content.get? "board" = some (.scored z) := rfl
  obtain ⟨hforward, -⟩ := range_from_either_end hs "board" (-2) Int64.maxValue true
  obtain ⟨hfits, -, hfound, -⟩ := hforward z hz
  obtain ⟨-, hmirror⟩ := range_from_either_end hs "board" (-2) Int64.maxValue false
  have hread : read (-2) Int64.maxValue true = .ok [[98], [97]] := hfound (by decide)
  exact ⟨hs, hz, hfits (by decide), hread, hmirror.symm.trans hread⟩

end BatchingCache
