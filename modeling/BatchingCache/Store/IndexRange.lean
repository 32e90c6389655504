/-!
# Ranges of places

A range of places in a list of `len` elements is given by two 64-bit numbers, of which the
negative ones count from the end.
-/

namespace BatchingCache.IndexRange

/-- The place that a number names, which may lie outside the list. -/
def fromEnd (len : Nat) (i : Int64) : Int :=
  if i < 0 then (len : Int) + i.toInt else i.toInt

def first (len : Nat) (start : Int64) : Int :=
  if start < 0 then max (fromEnd len start) 0 else start.toInt

def last (len : Nat) (stop : Int64) : Int :=
  if stop < 0 then fromEnd len stop else min stop.toInt ((len : Int) - 1)

/-- The first and last place of a range, or `none` for a range without places. -/
def bounds (len : Nat) (start stop : Int64) : Option (Nat × Nat) :=
  let lo := first len start
  let hi := last len stop
  if len = 0 || lo > hi || lo ≥ len || hi < 0 then none
  else some (lo.toNat, hi.toNat)

def slice {α : Type} (xs : List α) (start stop : Int64) : List α :=
  match bounds xs.length start stop with
  | some (lo, hi) => (xs.drop lo).take (hi + 1 - lo)
  | none => []

end BatchingCache.IndexRange
