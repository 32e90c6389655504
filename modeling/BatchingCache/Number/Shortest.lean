import BatchingCache.Number.Binary64
import BatchingCache.Number.Decimal
/-!
# Shortest decimals

The decimal with the fewest significant digits that still rounds to a given double, and of
those the nearest.  For each number of digits only the two neighbours of the value on that
grid have to be looked at.
-/

namespace BatchingCache

/-- The number `d₁.d₂d₃… × 10^exponent` with the digits `d₁, d₂, …`. -/
structure Scientific where
  digits : List Nat
  exponent : Int
  deriving DecidableEq, Repr

namespace Binary64

/-- Lowest power of ten that is a whole number in the scale of `Grid`. -/
def gridOffset : Nat := 400

structure Interval where
  low : Nat
  value : Nat
  high : Nat
  closed : Bool

/-- The interval around a finite number: half-way to its neighbours, where the neighbour below
a power of two is at half the distance. -/
def interval (x : Binary64) : Interval :=
  let step := 1 <<< x.unit
  let below := if x.fraction = 0 ∧ 1 < x.biased then step else 2 * step
  let place (n : Nat) := n * Nat.pow 10 gridOffset
  ⟨place (4 * x.scaled - below), place (4 * x.scaled), place (4 * x.scaled + 2 * step),
    x.significand % 2 = 0⟩

def Interval.contains (i : Interval) (n : Nat) : Bool :=
  if i.closed then i.low ≤ n && n ≤ i.high else i.low < n && n < i.high

/-- The multiple of `10^power` in the interval that is nearest to its value, if there is one
beside the value. -/
def Interval.nearest? (i : Interval) (power : Nat) : Option Nat :=
  let cell := Nat.pow 10 power <<< 1076
  let below := i.value / cell
  let above := below + 1
  match i.contains (below * cell), i.contains (above * cell) with
  | false, false => none
  | true, false => some below
  | false, true => some above
  | true, true =>
    let down := i.value - below * cell
    let up := above * cell - i.value
    some (if down < up then below else if up < down then above
      else if below % 2 = 0 then below else above)

def dropTrailingZeros (ds : List Nat) : List Nat :=
  (ds.reverse.dropWhile (· = 0)).reverse

def shortest (x : Binary64) : Scientific :=
  let i := x.interval
  let size := (Decimal.digits (i.value >>> 1076)).length
  let found := (List.range 17).findSome? fun n =>
    (i.nearest? (size - 1 - n)).map fun c => (c, size - 1 - n)
  let (c, power) := found.getD (i.value >>> 1076, 0)
  let ds := Decimal.digits c
  ⟨dropTrailingZeros ds, (ds.length + power : Nat) - 1 - (gridOffset : Int)⟩

end Binary64

/-- How decimals are laid out: exponents from `lowest` to `highest` positionally, others with
an exponent mark, and after it a plus sign or none. -/
structure DecimalLayout where
  lowest : Int
  highest : Int
  plusSign : Bool

namespace DecimalLayout

def positional (ds : List Nat) (n : Nat) : String :=
  let whole := ds.take n ++ List.replicate (n - ds.length) 0
  let part := ds.drop n
  String.ofList ((if whole = [] then [0] else whole).map Decimal.digitChar ++ '.' ::
    (if part = [] then [0] else part).map Decimal.digitChar)

def writeScientific (l : DecimalLayout) (s : Scientific) : String :=
  if l.lowest ≤ s.exponent ∧ s.exponent ≤ l.highest then
    if s.exponent < 0 then positional (List.replicate (s.exponent.natAbs - 1) 0 ++ s.digits) 0
    else positional s.digits (s.exponent.toNat + 1)
  else
    let mantissa :=
      match s.digits with
      | [d] => String.ofList [Decimal.digitChar d]
      | ds => positional ds 1
    let sign := if s.exponent < 0 then "-" else if l.plusSign then "+" else ""
    mantissa ++ "e" ++ sign ++ Decimal.natText s.exponent.natAbs

def write (l : DecimalLayout) (x : Binary64) : String :=
  (if x.isNegative then "-" else "") ++
    if x.isZero then "0.0" else l.writeScientific x.shortest

end DecimalLayout

end BatchingCache
