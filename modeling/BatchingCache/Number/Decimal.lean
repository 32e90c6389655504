/-!
# Decimal digits

The decimal digits of a natural number, most significant first, and the number that a list of
digits stands for.
-/

namespace BatchingCache.Decimal

def digits (n : Nat) : List Nat :=
  if n < 10 then [n] else digits (n / 10) ++ [n % 10]

def ofDigits (ds : List Nat) : Nat :=
  ds.foldl (fun n d => 10 * n + d) 0

def digitChar (d : Nat) : Char :=
  Char.ofNat ('0'.toNat + d)

def natText (n : Nat) : String :=
  String.ofList ((digits n).map digitChar)

def intText : Int → String
  | .ofNat n => natText n
  | .negSucc n => "-" ++ natText (n + 1)

def ofChars? (cs : List Char) : Option Nat :=
  if cs ≠ [] && cs.all Char.isDigit then
    some (ofDigits (cs.map fun c => c.toNat - '0'.toNat))
  else none

/-- The integer that a decimal stands for, a plus sign before it or not.  A minus sign may only
stand before it if `signed`. -/
def ofText? (signed : Bool) (s : String) : Option Int :=
  match s.toList with
  | '+' :: cs => (ofChars? cs).map Int.ofNat
  | '-' :: cs => if signed then (ofChars? cs).map fun n => -(n : Int) else none
  | cs => (ofChars? cs).map Int.ofNat

theorem ofDigits_append_singleton (ds : List Nat) (d : Nat) :
    ofDigits (ds ++ [d]) = 10 * ofDigits ds + d := by
  simp [ofDigits]

@[simp] theorem ofDigits_digits (n : Nat) : ofDigits (digits n) = n := by
  induction n using Nat.strongRecOn with
  | _ n ih =>
    rw [digits]
    split
    · simp [ofDigits]
    · rw [ofDigits_append_singleton, ih (n / 10) (by omega)]
      omega

theorem lt_ten_of_mem_digits {n d : Nat} (h : d ∈ digits n) : d < 10 := by
  induction n using Nat.strongRecOn with
  | _ n ih =>
    rw [digits] at h
    split at h
    · simp_all
    · rcases List.mem_append.1 h with h | h
      · exact ih (n / 10) (by omega) h
      · simp at h; omega

end BatchingCache.Decimal
