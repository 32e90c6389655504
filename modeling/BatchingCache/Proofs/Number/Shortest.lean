import BatchingCache.Number.Shortest
import BatchingCache.Proofs.Number.Decimal
import BatchingCache.Proofs.Number.Rounding
import Mathlib.Data.List.TakeWhile
/-!
# Shortest decimals do not exceed the numbers that round to the double

Whichever number of digits the search stops at, its decimal is at most the upper end of the interval
around the double, and so is every decimal that keeps only the first of its digits.
-/

namespace BatchingCache

namespace Binary64

/-! ## Digits without the zeros at their end -/

theorem dropTrailingZeros_append (ds : List Nat) :
    ∃ n, ds = dropTrailingZeros ds ++ List.replicate n 0 := by
  have hzeros : ∀ d ∈ ds.reverse.takeWhile (· = 0), d = 0 := fun d hd => by
    simpa using List.mem_takeWhile_imp hd
  refine ⟨(ds.reverse.takeWhile (· = 0)).length, ?_⟩
  calc ds = (ds.reverse.takeWhile (· = 0) ++ ds.reverse.dropWhile (· = 0)).reverse := by
        rw [List.takeWhile_append_dropWhile, List.reverse_reverse]
    _ = dropTrailingZeros ds ++ (ds.reverse.takeWhile (· = 0)).reverse := List.reverse_append
    _ = dropTrailingZeros ds ++ (List.replicate (ds.reverse.takeWhile (· = 0)).length 0).reverse := by
        rw [← List.eq_replicate_of_mem hzeros]
    _ = _ := by rw [List.reverse_replicate]

/-! ## The interval around a double -/

def upper (x : Binary64) : Nat := 4 * x.scaled + 2 * 2 ^ x.unit

variable {x : Binary64}

theorem scaled_pos (h : x.isZero = false) : 2 ^ x.unit ≤ x.scaled := by
  have hword : x.magnitudeWord ≠ 0 := by simpa [isZero] using h
  have hsignificand : 0 < x.significand := by
    have hbiased := biased_eq x
    have hfraction := fraction_eq x
    unfold significand
    split
    · omega
    · exact Nat.add_pos_left (by decide) _
  rw [scaled_eq]
  exact Nat.le_mul_of_pos_left _ hsignificand

theorem interval_high (x : Binary64) : x.interval.high = x.upper * 10 ^ gridOffset := by
  unfold interval upper
  dsimp only
  rw [natPow_eq, one_shiftLeft_eq]

theorem interval_low_pos (h : x.isZero = false) : 0 < x.interval.low := by
  have hscaled := scaled_pos h
  have hunit : 0 < 2 ^ x.unit := Nat.two_pow_pos _
  unfold interval
  dsimp only
  rw [natPow_eq, one_shiftLeft_eq]
  apply Nat.mul_pos _ (pow_pos (by decide) gridOffset)
  split <;> omega

theorem interval_value_le (x : Binary64) : x.interval.value ≤ x.interval.high :=
  Nat.mul_le_mul_right _ (Nat.le_add_right _ _)

theorem Interval.bounds_of_contains {i : Interval} {n : Nat} (h : i.contains n = true) :
    i.low ≤ n ∧ n ≤ i.high := by
  unfold Interval.contains at h
  split at h
  · simpa using h
  · have hstrict : i.low < n ∧ n < i.high := by simpa using h
    omega

theorem Interval.contains_of_nearest? {i : Interval} {power c : Nat} (h : i.nearest? power = some c) :
    i.contains (c * (10 ^ power * 2 ^ 1076)) = true := by
  rw [← natPow_eq, ← Nat.shiftLeft_eq_mul_pow]
  unfold Interval.nearest? at h
  dsimp only at h
  split at h
  · cases h
  · rename_i hbelow _
    obtain rfl := Option.some.inj h
    exact hbelow
  · rename_i _ habove
    obtain rfl := Option.some.inj h
    exact habove
  · rename_i hbelow habove
    obtain rfl := Option.some.inj h
    split
    · exact hbelow
    · split
      · exact habove
      · split
        · exact hbelow
        · exact habove

/-! ## What the search finds -/

theorem two_pow_le_grid : (2 : Nat) ^ 1076 ≤ 10 ^ gridOffset :=
  calc (2 : Nat) ^ 1076 ≤ 2 ^ (3 * gridOffset) := pow_le_pow_right₀ (by decide) (by decide)
    _ = (2 ^ 3) ^ gridOffset := pow_mul 2 3 gridOffset
    _ ≤ 10 ^ gridOffset := Nat.pow_le_pow_left (by decide) gridOffset

/-- The search ends with a positive multiple of a power of ten that is at most the upper end of the
interval. -/
theorem shortest_eq (h : x.isZero = false) :
    ∃ c power, 0 < c ∧ c * (10 ^ power * 2 ^ 1076) ≤ x.upper * 10 ^ gridOffset ∧
      x.shortest = ⟨dropTrailingZeros (Decimal.digits c),
        ((Decimal.digits c).length + power : Nat) - 1 - (gridOffset : Int)⟩ := by
  unfold shortest
  dsimp only
  generalize hfound : (List.range 17).findSome? _ = found
  cases found with
  | some p =>
    obtain ⟨n, -, hn⟩ := List.exists_of_findSome?_eq_some hfound
    obtain ⟨c, hc, rfl⟩ := Option.map_eq_some_iff.1 hn
    obtain ⟨hlow, hhigh⟩ := Interval.bounds_of_contains (Interval.contains_of_nearest? hc)
    rw [interval_high] at hhigh
    have hpos := Nat.lt_of_lt_of_le (interval_low_pos h) hlow
    exact ⟨c, _, Nat.pos_of_mul_pos_right hpos, hhigh, rfl⟩
  | none =>
    refine ⟨x.interval.value >>> 1076, 0, ?_, ?_, rfl⟩
    · have hunit : 0 < 2 ^ x.unit := Nat.two_pow_pos _
      have hscaled := scaled_pos h
      have hvalue : x.interval.value = 4 * x.scaled * 10 ^ gridOffset := by
        unfold interval
        dsimp only
        rw [natPow_eq]
      rw [shiftRight_eq, hvalue]
      apply Nat.div_pos
      · exact Nat.le_trans two_pow_le_grid (Nat.le_mul_of_pos_left _ (by omega))
      · exact pow_pos two_pos 1076
    · rw [← interval_high, pow_zero, one_mul, shiftRight_eq]
      exact Nat.le_trans (Nat.div_mul_le_self _ _) (interval_value_le x)

def search (x : Binary64) (size : Nat) : Option (Nat × Nat) :=
  (List.range 17).findSome? fun n =>
    (x.interval.nearest? (size - 1 - n)).map fun c => (c, size - 1 - n)

theorem shortest_of_search {size c power : Nat}
    (hlow : 10 ^ size ≤ x.interval.value >>> 1076) (hhigh : x.interval.value >>> 1076 < 10 ^ (size + 1))
    (hfound : x.search (size + 1) = some (c, power)) :
    x.shortest = ⟨dropTrailingZeros (Decimal.digits c),
      ((Decimal.digits c).length + power : Nat) - 1 - (gridOffset : Int)⟩ := by
  have hsize := Decimal.length_digits hlow hhigh
  unfold search at hfound
  unfold shortest
  dsimp only
  rw [hsize, hfound]
  rfl

/-! ## How large the upper end is -/

theorem upper_eq (x : Binary64) : x.upper = (4 * x.significand + 2) * 2 ^ x.unit := by
  rw [upper, scaled_eq]
  ring

theorem upper_le (h : x.isFinite = true) : x.upper ≤ 2 ^ 54 * 2 ^ 2046 := by
  have hsignificand := significand_lt x
  have hunit : 2 ^ x.unit ≤ 2 ^ 2045 := pow_le_pow_right₀ (by decide) (unit_le h)
  have htop : (2 : Nat) ^ 2046 = 2 * 2 ^ 2045 := by rw [← pow_succ']
  rw [upper_eq, htop, ← Nat.mul_assoc]
  exact Nat.mul_le_mul (by omega) hunit

theorem upper_le_of_below_top (h : x.magnitudeWord + 2 < 2047 * 2 ^ 52) :
    x.upper ≤ (2 ^ 54 - 5) * 2 ^ 2046 := by
  have hbiased := biased_eq x
  have hfraction := fraction_eq x
  have hsignificand := significand_lt x
  have htop : (2 : Nat) ^ 2046 = 2 * 2 ^ 2045 := by rw [← pow_succ']
  have hnext : (2 : Nat) ^ 2045 = 2 * 2 ^ 2044 := by rw [← pow_succ']
  rw [upper_eq, htop, ← Nat.mul_assoc]
  rcases Nat.lt_or_ge x.biased 2046 with hless | hmost
  · have hunit : x.unit ≤ 2044 := by
      unfold unit
      omega
    rw [hnext, ← Nat.mul_assoc]
    exact Nat.mul_le_mul (by omega) (pow_le_pow_right₀ (by decide) hunit)
  · have hunit : x.unit ≤ 2045 := by
      unfold unit
      omega
    have hfew : x.significand ≤ 2 ^ 53 - 3 := by
      unfold significand
      rw [one_shiftLeft_eq]
      split <;> omega
    exact Nat.mul_le_mul (by omega) (pow_le_pow_right₀ (by decide) hunit)

end Binary64

/-! ## Decimals below a bound -/

namespace Scientific

open Decimal (ofDigits)
open Binary64 (gridOffset)

/-- A decimal without a zero in front that is at most a multiple of `2^-1076`. -/
structure Below (s : Scientific) (bound : Nat) : Prop where
  digits : ∀ d ∈ s.digits, d < 10
  leading : ∃ d ds, s.digits = d :: ds ∧ d ≠ 0
  value : ∃ k : Nat, s.exponent + 1 + gridOffset = s.digits.length + k ∧
    ofDigits s.digits * 10 ^ k * 2 ^ 1076 ≤ bound * 10 ^ gridOffset

variable {s : Scientific} {bound : Nat}

theorem Below.lowest (h : s.Below bound) : -(gridOffset : Int) ≤ s.exponent := by
  obtain ⟨d, ds, hdigits, -⟩ := h.leading
  obtain ⟨k, hexponent, -⟩ := h.value
  rw [hdigits, List.length_cons] at hexponent
  omega

/-- The first digits of a decimal, with their power of ten, are no more than the decimal. -/
theorem Below.front (h : s.Below bound) {front back : List Nat} (hdigits : s.digits = front ++ back)
    {k : Nat} (hk : s.exponent + 1 - front.length = k) :
    ofDigits front * 10 ^ k * 2 ^ 1076 ≤ bound := by
  obtain ⟨place, hexponent, hvalue⟩ := h.value
  have hplace : back.length + place = k + gridOffset := by
    clear hvalue
    rw [hdigits, List.length_append] at hexponent
    omega
  have hfront : ofDigits front * 10 ^ back.length ≤ ofDigits s.digits := by
    rw [hdigits, Decimal.ofDigits_append]
    exact Nat.le_add_right _ _
  apply Nat.le_of_mul_le_mul_right _ (pow_pos (show 0 < 10 by decide) gridOffset)
  calc ofDigits front * 10 ^ k * 2 ^ 1076 * 10 ^ gridOffset
      = ofDigits front * 10 ^ (k + gridOffset) * 2 ^ 1076 := by
        rw [pow_add, mul_right_comm, ← mul_assoc]
    _ = ofDigits front * 10 ^ back.length * 10 ^ place * 2 ^ 1076 := by
        rw [← hplace, pow_add, ← mul_assoc]
    _ ≤ ofDigits s.digits * 10 ^ place * 2 ^ 1076 :=
        Nat.mul_le_mul_right _ (Nat.mul_le_mul_right _ hfront)
    _ ≤ bound * 10 ^ gridOffset := hvalue

end Scientific

namespace Binary64

variable {x : Binary64}

theorem shortest_below (h : x.isZero = false) : x.shortest.Below x.upper := by
  obtain ⟨c, power, hpos, hle, heq⟩ := shortest_eq h
  obtain ⟨n, hzeros⟩ := dropTrailingZeros_append (Decimal.digits c)
  obtain ⟨d, rest, hdigits, hd⟩ := Decimal.digits_of_pos hpos
  have hvalue : c = Decimal.ofDigits (dropTrailingZeros (Decimal.digits c)) * 10 ^ n := by
    have hall := Decimal.ofDigits_digits c
    rw [hzeros, Decimal.ofDigits_append, Decimal.ofDigits_replicate_zero, List.length_replicate] at hall
    exact hall.symm
  have hlength : (Decimal.digits c).length = (dropTrailingZeros (Decimal.digits c)).length + n := by
    conv_lhs => rw [hzeros]
    rw [List.length_append, List.length_replicate]
  rw [heq]
  constructor
  · intro e he
    apply Decimal.lt_ten_of_mem_digits (n := c)
    rw [hzeros]
    exact List.mem_append_left _ he
  · cases hkept : dropTrailingZeros (Decimal.digits c) with
    | nil =>
      rw [hkept, List.nil_append, hdigits] at hzeros
      have hzero : d ∈ List.replicate n 0 := by
        rw [← hzeros]
        exact List.mem_cons_self
      exact absurd (List.eq_of_mem_replicate hzero) hd
    | cons e kept =>
      rw [hkept, hdigits, List.cons_append] at hzeros
      obtain ⟨rfl, -⟩ := List.cons.inj hzeros
      exact ⟨d, kept, rfl, hd⟩
  · refine ⟨n + power, ?_, ?_⟩
    · dsimp only
      rw [hlength]
      omega
    · calc Decimal.ofDigits (dropTrailingZeros (Decimal.digits c)) * 10 ^ (n + power) * 2 ^ 1076
          = c * (10 ^ power * 2 ^ 1076) := by
            rw [pow_add, ← mul_assoc, ← hvalue, mul_assoc]
        _ ≤ x.upper * 10 ^ gridOffset := hle

end Binary64

end BatchingCache
