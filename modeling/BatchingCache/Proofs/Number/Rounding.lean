import BatchingCache.Number.Binary64
import Mathlib.Data.Nat.Size
import Mathlib.Tactic.Ring
/-!
# Rounding to doubles

A ratio below the middle between the largest double and the next power of two is rounded to a finite
number, and one that is not too small is rounded to a number that exceeds it by `2^-53` of it at most.
-/

namespace BatchingCache.Binary64

/-! ## Powers -/

theorem one_shiftLeft_eq (k : Nat) : 1 <<< k = 2 ^ k :=
  (Nat.shiftLeft_eq_mul_pow 1 k).trans (one_mul _)

theorem shiftRight_eq (n k : Nat) : n >>> k = n / 2 ^ k :=
  Nat.shiftRight_eq_div_pow n k

theorem natPow_eq (b k : Nat) : Nat.pow b k = b ^ k := rfl

/-! ## Fields -/

theorem magnitudeWord_make (negative : Bool) {m : Nat} (h : m < 2 ^ 63) :
    (make negative m).magnitudeWord = m := by
  unfold magnitudeWord word make
  rw [UInt64.toNat_ofNat', Nat.one_shiftLeft]
  cases negative with
  | false =>
    rw [if_neg Bool.false_ne_true]
    omega
  | true =>
    rw [if_pos rfl]
    omega

theorem make_eq (x : Binary64) : make x.isNegative x.magnitudeWord = x := by
  have hword : x.word < 2 ^ 64 := x.bits.toNat_lt
  have hbits : (if x.isNegative then 1 <<< 63 else 0) + x.magnitudeWord = x.word := by
    unfold isNegative magnitudeWord
    rw [one_shiftLeft_eq]
    split
    · rename_i hneg
      rw [decide_eq_true_iff] at hneg
      omega
    · rename_i hpos
      rw [decide_eq_true_iff] at hpos
      omega
  unfold make
  rw [hbits, word, UInt64.ofNat_toNat]

theorem fraction_eq (x : Binary64) : x.fraction = x.magnitudeWord % 2 ^ 52 := by
  unfold fraction magnitudeWord
  rw [Nat.one_shiftLeft, Nat.one_shiftLeft]
  omega

theorem biased_eq (x : Binary64) : x.biased = x.magnitudeWord / 2 ^ 52 :=
  shiftRight_eq _ _

theorem scaled_eq (x : Binary64) : x.scaled = x.significand * 2 ^ x.unit :=
  Nat.shiftLeft_eq_mul_pow _ _

theorem isFinite_iff {x : Binary64} : x.isFinite = true ↔ x.magnitudeWord < 2047 * 2 ^ 52 := by
  unfold isFinite infinityWord
  rw [decide_eq_true_iff]
  omega

theorem significand_lt (x : Binary64) : x.significand < 2 ^ 53 := by
  have hfraction := fraction_eq x
  unfold significand
  split <;> omega

theorem unit_le {x : Binary64} (h : x.isFinite = true) : x.unit ≤ 2045 := by
  have hword := isFinite_iff.1 h
  have hbiased := biased_eq x
  unfold unit
  omega

theorem not_isNaN {x : Binary64} (h : x.isFinite = true) : x.isNaN = false := by
  unfold isFinite at h
  unfold isNaN
  rw [decide_eq_true_iff] at h
  rw [decide_eq_false_iff_not]
  omega

theorem not_isInfinite {x : Binary64} (h : x.isFinite = true) : x.isInfinite = false := by
  unfold isFinite at h
  unfold isInfinite
  rw [decide_eq_true_iff] at h
  rw [decide_eq_false_iff_not]
  omega

/-- A significand of 53 bits above its shifted exponent, where the leading one is added to the
exponent; also where rounding made it a power of two. -/
theorem scaled_make (negative : Bool) {shift q : Nat} (hq : q ≤ 2 ^ 53)
    (hleading : 0 < shift → 2 ^ 52 ≤ q) (hfinite : shift * 2 ^ 52 + q < 2047 * 2 ^ 52) :
    (make negative (shift * 2 ^ 52 + q)).scaled = q * 2 ^ shift := by
  have hword := magnitudeWord_make negative (show shift * 2 ^ 52 + q < 2 ^ 63 by omega)
  have hbiased := biased_eq (make negative (shift * 2 ^ 52 + q))
  have hfraction := fraction_eq (make negative (shift * 2 ^ 52 + q))
  rw [hword] at hbiased hfraction
  rw [scaled_eq, unit, significand, hbiased, hfraction]
  rcases Nat.lt_or_ge q (2 ^ 52) with hsmall | hlarge
  · obtain rfl : shift = 0 := by omega
    have hexponent : (0 * 2 ^ 52 + q) / 2 ^ 52 = 0 := by omega
    rw [if_pos hexponent, hexponent]
    congr 1
    omega
  · rcases Nat.lt_or_ge q (2 ^ 53) with hless | hmost
    · have hexponent : (shift * 2 ^ 52 + q) / 2 ^ 52 = shift + 1 := by omega
      rw [if_neg (by omega), hexponent]
      congr 1
      omega
    · obtain rfl : q = 2 ^ 53 := by omega
      have hexponent : (shift * 2 ^ 52 + 2 ^ 53) / 2 ^ 52 = shift + 2 := by omega
      have hone : (1 : Nat) <<< 52 + (shift * 2 ^ 52 + 2 ^ 53) % 2 ^ 52 = 2 ^ 52 := by omega
      rw [if_neg (by omega), hexponent, hone, show shift + 2 - 1 = shift + 1 from rfl, Nat.pow_succ]
      omega

/-! ## The nearest whole number -/

theorem roundDiv_cases (n d : Nat) :
    (roundDiv n d = n / d ∧ 2 * (n % d) ≤ d) ∨ (roundDiv n d = n / d + 1 ∧ d ≤ 2 * (n % d)) := by
  unfold roundDiv
  dsimp only
  split
  · exact .inl ⟨rfl, by omega⟩
  · split
    · rcases Nat.mod_two_eq_zero_or_one (n / d) with heven | hodd
      · exact .inl ⟨by omega, by omega⟩
      · exact .inr ⟨by omega, by omega⟩
    · exact .inr ⟨rfl, by omega⟩

theorem div_le_roundDiv (n d : Nat) : n / d ≤ roundDiv n d := by
  rcases roundDiv_cases n d with ⟨h, -⟩ | ⟨h, -⟩ <;> omega

theorem roundDiv_le (n d : Nat) : roundDiv n d ≤ n / d + 1 := by
  rcases roundDiv_cases n d with ⟨h, -⟩ | ⟨h, -⟩ <;> omega

/-- Rounding goes up by half a unit at most. -/
theorem two_mul_roundDiv_le (n d : Nat) : 2 * (d * roundDiv n d) ≤ 2 * n + d := by
  have hdiv := Nat.div_add_mod n d
  rcases roundDiv_cases n d with ⟨h, hle⟩ | ⟨h, hge⟩
  · rw [h]
    omega
  · rw [h, Nat.mul_succ]
    omega

/-! ## The nearest double -/

variable {n d : Nat}

def shiftOf (n d : Nat) : Nat := (n * 2 ^ 1074 / d).log2 - 52

def roundedSignificand (n d : Nat) : Nat := roundDiv (n * 2 ^ 1074) (d * 2 ^ shiftOf n d)

theorem roundedWord_eq (n d : Nat) :
    roundedWord n d = min (shiftOf n d * 2 ^ 52 + roundedSignificand n d) (2047 * 2 ^ 52) := by
  unfold roundedSignificand shiftOf
  simp only [← Nat.shiftLeft_eq_mul_pow]
  rfl

theorem div_lt_shiftOf (n d : Nat) : n * 2 ^ 1074 / d < 2 ^ (shiftOf n d + 53) := by
  have hlog := @Nat.lt_log2_self (n * 2 ^ 1074 / d)
  apply Nat.lt_of_lt_of_le hlog
  apply Nat.pow_le_pow_right (by decide)
  have hle : (n * 2 ^ 1074 / d).log2 ≤ shiftOf n d + 52 := Nat.le_add_of_sub_le (Nat.le_refl _)
  exact Nat.succ_le_succ hle

theorem le_div_of_shiftOf (h : 0 < shiftOf n d) : 2 ^ (shiftOf n d + 52) ≤ n * 2 ^ 1074 / d := by
  have hlog : (n * 2 ^ 1074 / d).log2 = shiftOf n d + 52 :=
    (Nat.sub_add_cancel (Nat.le_of_lt (Nat.lt_of_sub_pos h))).symm
  rw [← hlog]
  apply Nat.log2_self_le
  intro hzero
  rw [hzero, Nat.log2_zero] at hlog
  exact absurd hlog (Nat.ne_of_lt (Nat.succ_pos _))

theorem roundedSignificand_le (n d : Nat) : roundedSignificand n d ≤ 2 ^ 53 := by
  have hquotient : n * 2 ^ 1074 / (d * 2 ^ shiftOf n d) < 2 ^ 53 := by
    rw [← Nat.div_div_eq_div_mul]
    apply Nat.div_lt_of_lt_mul
    rw [← Nat.pow_add]
    exact div_lt_shiftOf n d
  exact Nat.le_trans (roundDiv_le _ _) hquotient

theorem le_roundedSignificand (h : 0 < shiftOf n d) : 2 ^ 52 ≤ roundedSignificand n d := by
  apply Nat.le_trans _ (div_le_roundDiv _ _)
  rw [← Nat.div_div_eq_div_mul, Nat.le_div_iff_mul_le (Nat.two_pow_pos _), ← Nat.pow_add,
    Nat.add_comm 52]
  exact le_div_of_shiftOf h

theorem half_lt {a b u : Nat} (h : 2 * a < b * ((2 ^ 54 - 1) * u)) : a < b * (2 ^ 53 * u) := by
  have hleft : b * ((2 ^ 54 - 1) * u) = (2 ^ 54 - 1) * (b * u) := by ring
  have hright : b * (2 ^ 53 * u) = 2 ^ 53 * (b * u) := by ring
  omega

theorem significand_lt_of_round {a b u q : Nat} (h : 2 * a < b * ((2 ^ 54 - 1) * u))
    (hround : 2 * (b * u * q) ≤ 2 * a + b * u) : q < 2 ^ 53 := by
  have hleft : b * ((2 ^ 54 - 1) * u) = (2 ^ 54 - 1) * (b * u) := by ring
  have hlt : b * u * q < b * u * 2 ^ 53 := by omega
  exact Nat.lt_of_mul_lt_mul_left hlt

/-- What is below the middle between the largest double and the next power of two is rounded to a
finite number. -/
theorem isFinite_ofRatio (negative : Bool)
    (h : 2 * (n * 2 ^ 1074) < d * ((2 ^ 54 - 1) * 2 ^ 2045)) :
    (ofRatio negative n d).isFinite = true := by
  have hquotient : n * 2 ^ 1074 / d < 2 ^ (53 + 2045) := by
    apply Nat.div_lt_of_lt_mul
    rw [pow_add]
    exact @half_lt (n * 2 ^ 1074) d (2 ^ 2045) h
  have hshift : shiftOf n d ≤ 2045 := by
    by_contra hlarge
    have hle := le_div_of_shiftOf (Nat.zero_lt_of_lt (Nat.not_le.1 hlarge))
    have hlt := (Nat.pow_lt_pow_iff_right (by decide)).1 (Nat.lt_of_le_of_lt hle hquotient)
    omega
  have hword : shiftOf n d * 2 ^ 52 + roundedSignificand n d < 2047 * 2 ^ 52 := by
    have hsignificand := roundedSignificand_le n d
    rcases Nat.lt_or_ge (shiftOf n d) 2045 with hless | hmost
    · omega
    · have htop : shiftOf n d = 2045 := Nat.le_antisymm hshift hmost
      have hlast : roundedSignificand n d < 2 ^ 53 := by
        have hround := two_mul_roundDiv_le (n * 2 ^ 1074) (d * 2 ^ shiftOf n d)
        unfold roundedSignificand
        rw [htop] at hround ⊢
        exact @significand_lt_of_round (n * 2 ^ 1074) d (2 ^ 2045) _ h hround
      omega
  rw [ofRatio, isFinite_iff, roundedWord_eq, Nat.min_eq_left (Nat.le_of_lt hword)]
  rwa [magnitudeWord_make negative (by omega)]

theorem scaled_ofRatio {negative : Bool} (hfinite : (ofRatio negative n d).isFinite = true) :
    (ofRatio negative n d).scaled = roundedSignificand n d * 2 ^ shiftOf n d := by
  have hsmall : roundedWord n d < 2 ^ 63 := by
    rw [roundedWord_eq]
    omega
  rw [ofRatio, isFinite_iff, magnitudeWord_make negative hsmall, roundedWord_eq] at hfinite
  have hword : shiftOf n d * 2 ^ 52 + roundedSignificand n d < 2047 * 2 ^ 52 := by omega
  rw [ofRatio, roundedWord_eq, Nat.min_eq_left (Nat.le_of_lt hword)]
  exact scaled_make negative (roundedSignificand_le n d) le_roundedSignificand hword

/-- A ratio with a significand of 53 bits is exceeded by `2^-53` of it at most. -/
theorem scaled_ofRatio_le {negative : Bool} (hfinite : (ofRatio negative n d).isFinite = true)
    (hshift : 0 < shiftOf n d) :
    2 ^ 53 * (d * (ofRatio negative n d).scaled) ≤ (2 ^ 53 + 1) * (n * 2 ^ 1074) := by
  have hround := two_mul_roundDiv_le (n * 2 ^ 1074) (d * 2 ^ shiftOf n d)
  have hunit : 2 ^ 52 * (d * 2 ^ shiftOf n d) ≤ n * 2 ^ 1074 :=
    calc 2 ^ 52 * (d * 2 ^ shiftOf n d) = 2 ^ (shiftOf n d + 52) * d := by ring
      _ ≤ n * 2 ^ 1074 := Nat.mul_le_of_le_div d _ _ (le_div_of_shiftOf hshift)
  have hproduct : d * (roundedSignificand n d * 2 ^ shiftOf n d) =
      d * 2 ^ shiftOf n d * roundedSignificand n d := by ring
  rw [scaled_ofRatio hfinite, hproduct, roundedSignificand]
  generalize n * 2 ^ 1074 = a at *
  omega

/-! ## Products of whole numbers -/

theorem shiftOf_natural_pos (h : 0 < n) : 0 < shiftOf n 1 := by
  have hle : 1074 ≤ (n * 2 ^ 1074 / 1).log2 := by
    rw [Nat.div_one, Nat.le_log2 (Nat.ne_of_gt (Nat.mul_pos h (Nat.two_pow_pos _)))]
    exact Nat.le_mul_of_pos_left _ h
  exact Nat.sub_pos_of_lt (Nat.lt_of_lt_of_le (by decide) hle)

theorem top_eq : (2 : Nat) ^ 2045 = 2 * (2 ^ 970 * 2 ^ 1074) := by
  rw [← pow_add, ← pow_succ']

theorem isFinite_ofNat (h : n ≤ (2 ^ 54 - 5) * 2 ^ 970) : (ofNat n).isFinite = true := by
  have hscaled : n * 2 ^ 1074 ≤ (2 ^ 54 - 5) * 2 ^ 970 * 2 ^ 1074 := Nat.mul_le_mul_right _ h
  have hpos : 0 < (2 : Nat) ^ 970 * 2 ^ 1074 := mul_pos (pow_pos two_pos _) (pow_pos two_pos _)
  apply isFinite_ofRatio
  rw [top_eq]
  rw [Nat.mul_assoc] at hscaled
  omega

theorem scaled_ofNat_le (hfinite : (ofNat n).isFinite = true) :
    2 ^ 53 * (ofNat n).scaled ≤ (2 ^ 53 + 1) * (n * 2 ^ 1074) := by
  rcases Nat.eq_zero_or_pos n with rfl | hn
  · have hzero : (ofNat 0).scaled = 0 := by decide +kernel
    rw [hzero]
    exact Nat.zero_le _
  · have hle := scaled_ofRatio_le hfinite (shiftOf_natural_pos hn)
    rwa [Nat.one_mul] at hle

/-- Two factors that were rounded up, each by `2^-53` of it, still have a product below the middle. -/
theorem product_lt {a b m u v : Nat} (hpos : 0 < u * v)
    (ha : 2 ^ 53 * a ≤ (2 ^ 53 + 1) * (n * v)) (hb : 2 ^ 53 * b ≤ (2 ^ 53 + 1) * (m * v))
    (h : n * m ≤ (2 ^ 54 - 5) * u) :
    2 * (a * b * v) < v * v * ((2 ^ 54 - 1) * (2 * (u * v))) := by
  have hrounded : 2 ^ 106 * (a * b) ≤ (2 ^ 53 + 1) * (2 ^ 53 + 1) * (2 ^ 54 - 5) * (u * v * v) :=
    calc 2 ^ 106 * (a * b) = 2 ^ 53 * a * (2 ^ 53 * b) := by ring
      _ ≤ (2 ^ 53 + 1) * (n * v) * ((2 ^ 53 + 1) * (m * v)) := Nat.mul_le_mul ha hb
      _ = (2 ^ 53 + 1) * (2 ^ 53 + 1) * (v * v) * (n * m) := by ring
      _ ≤ (2 ^ 53 + 1) * (2 ^ 53 + 1) * (v * v) * ((2 ^ 54 - 5) * u) := Nat.mul_le_mul_left _ h
      _ = (2 ^ 53 + 1) * (2 ^ 53 + 1) * (2 ^ 54 - 5) * (u * v * v) := by ring
  have hv : 0 < v := Nat.pos_of_mul_pos_left hpos
  have hcube : 0 < u * v * v := Nat.mul_pos hpos hv
  have hless : a * b < (2 ^ 54 - 1) * (u * v * v) := by omega
  calc 2 * (a * b * v) < 2 * ((2 ^ 54 - 1) * (u * v * v) * v) := by
        apply Nat.mul_lt_mul_of_pos_left _ Nat.two_pos
        exact Nat.mul_lt_mul_of_pos_right hless hv
    _ = v * v * ((2 ^ 54 - 1) * (2 * (u * v))) := by ring

/-- The product of two whole numbers, each rounded, is finite below the third double from the top. -/
theorem isFinite_mul_ofNat {m : Nat} (hn : n ≤ (2 ^ 54 - 5) * 2 ^ 970)
    (hm : m ≤ (2 ^ 54 - 5) * 2 ^ 970) (h : n * m ≤ (2 ^ 54 - 5) * 2 ^ 970) :
    (ofNat n * ofNat m).isFinite = true := by
  have hfirst := isFinite_ofNat hn
  have hsecond := isFinite_ofNat hm
  have hpos : 0 < (2 : Nat) ^ 970 * 2 ^ 1074 := mul_pos (pow_pos two_pos _) (pow_pos two_pos _)
  have hproduct := product_lt hpos (scaled_ofNat_le hfirst) (scaled_ofNat_le hsecond) h
  show (mul (ofNat n) (ofNat m)).isFinite = true
  unfold mul
  rw [not_isNaN hfirst, not_isNaN hsecond, not_isInfinite hfirst, not_isInfinite hsecond]
  have hunit : (1 : Nat) <<< 2148 = 2 ^ 1074 * 2 ^ 1074 := by
    rw [one_shiftLeft_eq, ← pow_add]
  apply isFinite_ofRatio
  rwa [hunit, top_eq]

end BatchingCache.Binary64
