import BatchingCache.Number.Decimal
import Mathlib.Tactic.Ring
/-!
# Decimal digits and the numbers they stand for

Digits that follow other digits, what they add to the number, and which lists of digits begin without a
zero.
-/

namespace BatchingCache.Decimal

/-- The number that digits stand for when they follow those of `n`. -/
def extend (n : Nat) (ds : List Nat) : Nat := ds.foldl (fun n d => 10 * n + d) n

theorem extend_cons (n d : Nat) (ds : List Nat) : extend n (d :: ds) = extend (10 * n + d) ds := rfl

theorem extend_append (n : Nat) (ds es : List Nat) :
    extend n (ds ++ es) = extend (extend n ds) es :=
  List.foldl_append

theorem extend_eq (n : Nat) (ds : List Nat) : extend n ds = n * 10 ^ ds.length + ofDigits ds := by
  induction ds generalizing n with
  | nil => exact (Nat.mul_one n).symm
  | cons d ds ih =>
    have hdigits : ofDigits (d :: ds) = (10 * 0 + d) * 10 ^ ds.length + ofDigits ds := ih (10 * 0 + d)
    rw [extend_cons, ih, hdigits, List.length_cons, Nat.pow_succ]
    ring

theorem le_extend (n : Nat) (ds : List Nat) : n ≤ extend n ds := by
  rw [extend_eq]
  have hpos : 0 < 10 ^ ds.length := Nat.pow_pos (by decide)
  exact Nat.le_add_right_of_le (Nat.le_mul_of_pos_right n hpos)

def Canonical (ds : List Nat) : Prop := ds = [0] ∨ ∃ d rest, ds = d :: rest ∧ d ≠ 0

theorem canonical_digits (n : Nat) : Canonical (digits n) := by
  induction n using Nat.strongRecOn with
  | _ n ih =>
    rw [digits]
    split
    · by_cases hzero : n = 0
      · exact .inl (by rw [hzero])
      · exact .inr ⟨n, [], rfl, hzero⟩
    · rename_i hlarge
      rcases ih (n / 10) (by omega) with hzero | ⟨d, rest, heq, hd⟩
      · have hvalue := ofDigits_digits (n / 10)
        rw [hzero] at hvalue
        have hsmall : 0 = n / 10 := hvalue
        omega
      · rw [heq]
        exact .inr ⟨d, rest ++ [n % 10], rfl, hd⟩

theorem extend_zero (ds : List Nat) : extend 0 ds = ofDigits ds := rfl

theorem ofDigits_append (ds es : List Nat) :
    ofDigits (ds ++ es) = ofDigits ds * 10 ^ es.length + ofDigits es := by
  rw [← extend_zero (ds ++ es), extend_append, extend_eq, extend_zero]

theorem ofDigits_replicate_zero (n : Nat) : ofDigits (List.replicate n 0) = 0 := by
  induction n with
  | zero => rfl
  | succ n ih => exact ih

theorem ofDigits_lt {ds : List Nat} (h : ∀ d ∈ ds, d < 10) : ofDigits ds < 10 ^ ds.length := by
  induction ds with
  | nil => exact Nat.one_pos
  | cons d ds ih =>
    obtain ⟨hd, hds⟩ := List.forall_mem_cons.1 h
    have hsplit := ofDigits_append [d] ds
    have hone : ofDigits [d] = d := Nat.zero_add d
    rw [hone, List.singleton_append] at hsplit
    have hlt := ih hds
    calc ofDigits (d :: ds) < (d + 1) * 10 ^ ds.length := by
          rw [hsplit, Nat.succ_mul]
          omega
      _ ≤ 10 * 10 ^ ds.length := Nat.mul_le_mul_right _ hd
      _ = 10 ^ (d :: ds).length := by rw [List.length_cons, Nat.pow_succ, Nat.mul_comm]

/-- The first digit of a positive number is no zero. -/
theorem digits_of_pos {n : Nat} (h : 0 < n) : ∃ d ds, digits n = d :: ds ∧ d ≠ 0 := by
  rcases canonical_digits n with hzero | hlead
  · have hvalue := ofDigits_digits n
    rw [hzero] at hvalue
    exact absurd hvalue (Nat.ne_of_lt h)
  · exact hlead

theorem length_digits {n k : Nat} (hlow : 10 ^ k ≤ n) (hhigh : n < 10 ^ (k + 1)) :
    (digits n).length = k + 1 := by
  induction k generalizing n with
  | zero =>
    rw [digits, if_pos (by omega)]
    rfl
  | succ k ih =>
    rw [Nat.pow_succ] at hlow hhigh
    have hpos : 0 < 10 ^ k := Nat.pow_pos (by decide)
    rw [digits, if_neg (by omega), List.length_append, ih (by omega) (by omega)]
    rfl

end BatchingCache.Decimal
