import BatchingCache.Proofs.Number.Rounding
import Mathlib.Order.Monotone.Basic
/-!
# The total order of doubles

Numbers stand in the order of their values, and of the zeros the negative one comes first.  The NaNs
stand outside of the numbers, each on the side of its sign, and the further out the larger their bits.
The rank of a number is its place in this order, which is strict and total on bit patterns.
-/

namespace BatchingCache.Binary64

/-- The clauses of the total order.  An infinity counts as the multiple of `2^-1074` that follows the
largest finite number. -/
inductive Precedes (x y : Binary64) : Prop
  | byValue (hx : ¬ x.isNaN) (hy : ¬ y.isNaN) (h : x.signedScaled < y.signedScaled)
  | zeros (hx : x.isZero) (hy : y.isZero) (hnegative : x.isNegative) (hpositive : ¬ y.isNegative)
  | negativeNaN (hx : x.isNaN) (hy : ¬ y.isNaN) (hnegative : x.isNegative)
  | positiveNaN (hx : ¬ x.isNaN) (hy : y.isNaN) (hpositive : ¬ y.isNegative)
  | signsOfNaNs (hx : x.isNaN) (hy : y.isNaN) (hnegative : x.isNegative) (hpositive : ¬ y.isNegative)
  | positiveNaNs (hx : x.isNaN) (hy : y.isNaN) (hxpositive : ¬ x.isNegative)
      (hypositive : ¬ y.isNegative) (h : x.magnitudeWord < y.magnitudeWord)
  | negativeNaNs (hx : x.isNaN) (hy : y.isNaN) (hxnegative : x.isNegative)
      (hynegative : y.isNegative) (h : y.magnitudeWord < x.magnitudeWord)

/-! ## Magnitudes -/

def multiple (w : Nat) : Nat :=
  (if w / 2 ^ 52 = 0 then w % 2 ^ 52 else 2 ^ 52 + w % 2 ^ 52) * 2 ^ (w / 2 ^ 52 - 1)

theorem scaled_eq_multiple (x : Binary64) : x.scaled = multiple x.magnitudeWord := by
  rw [scaled_eq, significand, unit, biased_eq, fraction_eq, one_shiftLeft_eq, multiple]

theorem multiple_lt_succ (w : Nat) : multiple w < multiple (w + 1) := by
  unfold multiple
  by_cases hcarry : w % 2 ^ 52 + 1 < 2 ^ 52
  · have hquotient : (w + 1) / 2 ^ 52 = w / 2 ^ 52 := by omega
    have hrest : (w + 1) % 2 ^ 52 = w % 2 ^ 52 + 1 := by omega
    rw [hquotient, hrest]
    apply Nat.mul_lt_mul_of_pos_right _ (Nat.pow_pos (by decide))
    split <;> omega
  · have hquotient : (w + 1) / 2 ^ 52 = w / 2 ^ 52 + 1 := by omega
    have hrest : (w + 1) % 2 ^ 52 = 0 := by omega
    have hlast : w % 2 ^ 52 = 2 ^ 52 - 1 := by omega
    rw [hquotient, hrest, hlast, if_neg (Nat.succ_ne_zero _), Nat.add_sub_cancel]
    by_cases hzero : w / 2 ^ 52 = 0
    · rw [hzero, if_pos rfl]
      decide
    · have hpow : 2 ^ (w / 2 ^ 52) = 2 * 2 ^ (w / 2 ^ 52 - 1) := by
        rw [← Nat.pow_succ', Nat.succ_eq_add_one, Nat.sub_add_cancel (by omega)]
      have hpos : 0 < 2 ^ (w / 2 ^ 52 - 1) := Nat.pow_pos (by decide)
      rw [if_neg hzero, hpow]
      omega

theorem scaled_lt_iff {x y : Binary64} : x.scaled < y.scaled ↔ x.magnitudeWord < y.magnitudeWord := by
  rw [scaled_eq_multiple, scaled_eq_multiple]
  exact (strictMono_nat_of_lt_succ multiple_lt_succ).lt_iff_lt

theorem scaled_eq_zero_iff {x : Binary64} : x.scaled = 0 ↔ x.magnitudeWord = 0 := by
  have hzero : multiple 0 = 0 := by decide
  rw [scaled_eq_multiple, ← hzero]
  exact (strictMono_nat_of_lt_succ multiple_lt_succ).injective.eq_iff

theorem isNaN_iff {x : Binary64} : x.isNaN ↔ infinityWord < x.magnitudeWord := by
  rw [isNaN, decide_eq_true_iff]

theorem isZero_iff {x : Binary64} : x.isZero ↔ x.magnitudeWord = 0 := by
  rw [isZero, decide_eq_true_iff]

/-! ## Ranks -/

variable {x y : Binary64}

theorem rank_of_negative (h : x.isNegative) : x.rank = -(x.magnitudeWord : Int) - 1 := by
  rw [rank, if_pos h]

theorem rank_of_not_negative (h : ¬ x.isNegative) : x.rank = x.magnitudeWord := by
  rw [rank, if_neg h]

theorem signedScaled_of_negative (h : x.isNegative) : x.signedScaled = -(x.scaled : Int) := by
  rw [signedScaled, if_pos h]

theorem signedScaled_of_not_negative (h : ¬ x.isNegative) : x.signedScaled = x.scaled := by
  rw [signedScaled, if_neg h]

theorem eq_of_rank_eq (h : x.rank = y.rank) : x = y := by
  rw [← make_eq x, ← make_eq y]
  by_cases hx : x.isNegative
  · rw [rank_of_negative hx] at h
    by_cases hy : y.isNegative
    · rw [rank_of_negative hy] at h
      have hword : x.magnitudeWord = y.magnitudeWord := by omega
      rw [hword, hx, hy]
    · rw [rank_of_not_negative hy] at h
      omega
  · by_cases hy : y.isNegative
    · rw [rank_of_not_negative hx, rank_of_negative hy] at h
      omega
    · rw [rank_of_not_negative hx, rank_of_not_negative hy] at h
      have hword : x.magnitudeWord = y.magnitudeWord := by omega
      rw [hword, Bool.eq_false_iff.2 hx, Bool.eq_false_iff.2 hy]

theorem rank_lt_of_precedes (h : x.Precedes y) : x.rank < y.rank := by
  cases h with
  | byValue hx hy h =>
    have hless := scaled_lt_iff (x := x) (y := y)
    have hmore := scaled_lt_iff (x := y) (y := x)
    by_cases hxneg : x.isNegative
    · rw [rank_of_negative hxneg]
      rw [signedScaled_of_negative hxneg] at h
      by_cases hyneg : y.isNegative
      · rw [rank_of_negative hyneg]
        rw [signedScaled_of_negative hyneg] at h
        omega
      · rw [rank_of_not_negative hyneg]
        omega
    · rw [rank_of_not_negative hxneg]
      rw [signedScaled_of_not_negative hxneg] at h
      by_cases hyneg : y.isNegative
      · rw [signedScaled_of_negative hyneg] at h
        omega
      · rw [rank_of_not_negative hyneg]
        rw [signedScaled_of_not_negative hyneg] at h
        omega
  | zeros hx hy hnegative hpositive =>
    rw [rank_of_negative hnegative, rank_of_not_negative hpositive]
    omega
  | negativeNaN hx hy hnegative =>
    rw [isNaN_iff] at hx hy
    rw [rank_of_negative hnegative]
    by_cases hyneg : y.isNegative
    · rw [rank_of_negative hyneg]
      omega
    · rw [rank_of_not_negative hyneg]
      omega
  | positiveNaN hx hy hpositive =>
    rw [isNaN_iff] at hx hy
    rw [rank_of_not_negative hpositive]
    by_cases hxneg : x.isNegative
    · rw [rank_of_negative hxneg]
      omega
    · rw [rank_of_not_negative hxneg]
      omega
  | signsOfNaNs hx hy hnegative hpositive =>
    rw [rank_of_negative hnegative, rank_of_not_negative hpositive]
    omega
  | positiveNaNs hx hy hxpositive hypositive h =>
    rw [rank_of_not_negative hxpositive, rank_of_not_negative hypositive]
    omega
  | negativeNaNs hx hy hxnegative hynegative h =>
    rw [rank_of_negative hxnegative, rank_of_negative hynegative]
    omega

/-- Two numbers that are no NaNs stand in the order of their values, or are the two zeros. -/
theorem precedes_of_values (h : x.rank < y.rank) (hx : ¬ x.isNaN) (hy : ¬ y.isNaN) :
    x.Precedes y := by
  have hless := scaled_lt_iff (x := x) (y := y)
  have hmore := scaled_lt_iff (x := y) (y := x)
  by_cases hxneg : x.isNegative
  · rw [rank_of_negative hxneg] at h
    by_cases hyneg : y.isNegative
    · rw [rank_of_negative hyneg] at h
      apply Precedes.byValue hx hy
      rw [signedScaled_of_negative hxneg, signedScaled_of_negative hyneg]
      omega
    · by_cases hzero : x.scaled = 0 ∧ y.scaled = 0
      · rw [scaled_eq_zero_iff, scaled_eq_zero_iff] at hzero
        exact .zeros (isZero_iff.2 hzero.1) (isZero_iff.2 hzero.2) hxneg hyneg
      · apply Precedes.byValue hx hy
        rw [signedScaled_of_negative hxneg, signedScaled_of_not_negative hyneg]
        omega
  · rw [rank_of_not_negative hxneg] at h
    by_cases hyneg : y.isNegative
    · rw [rank_of_negative hyneg] at h
      omega
    · rw [rank_of_not_negative hyneg] at h
      apply Precedes.byValue hx hy
      rw [signedScaled_of_not_negative hxneg, signedScaled_of_not_negative hyneg]
      omega

theorem precedes_of_nan (h : x.rank < y.rank) (hx : x.isNaN) : x.Precedes y := by
  have hxword := isNaN_iff.1 hx
  by_cases hxneg : x.isNegative
  · rw [rank_of_negative hxneg] at h
    by_cases hy : y.isNaN
    · by_cases hyneg : y.isNegative
      · rw [rank_of_negative hyneg] at h
        exact .negativeNaNs hx hy hxneg hyneg (by omega)
      · exact .signsOfNaNs hx hy hxneg hyneg
    · exact .negativeNaN hx hy hxneg
  · rw [rank_of_not_negative hxneg] at h
    by_cases hyneg : y.isNegative
    · rw [rank_of_negative hyneg] at h
      omega
    · rw [rank_of_not_negative hyneg] at h
      have hy : y.isNaN := isNaN_iff.2 (by omega)
      exact .positiveNaNs hx hy hxneg hyneg (by omega)

/-- Ranks are in the total order. -/
theorem rank_lt_iff_precedes : x.rank < y.rank ↔ x.Precedes y := by
  refine ⟨fun h => ?_, rank_lt_of_precedes⟩
  by_cases hx : x.isNaN
  · exact precedes_of_nan h hx
  · by_cases hy : y.isNaN
    · rw [isNaN_iff] at hx
      have hyword := isNaN_iff.1 hy
      by_cases hyneg : y.isNegative
      · -- A negative NaN has nothing but NaNs before it.
        rw [rank_of_negative hyneg] at h
        by_cases hxneg : x.isNegative
        · rw [rank_of_negative hxneg] at h
          omega
        · rw [rank_of_not_negative hxneg] at h
          omega
      · exact .positiveNaN (mt isNaN_iff.1 hx) hy hyneg
    · exact precedes_of_values h hx hy

end BatchingCache.Binary64
