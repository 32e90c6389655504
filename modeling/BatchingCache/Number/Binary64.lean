/-!
# Double-precision numbers

A double-precision number is its 64 bits.  Finite values are whole multiples of `2^-1074`, so
sums, products and quotients are exact ratios of naturals that `ofRatio` rounds to the nearest
double, ties to the even significand.
-/

namespace BatchingCache

structure Binary64 where
  bits : UInt64
  deriving DecidableEq, Repr

namespace Binary64

/-! ## Fields -/

def word (x : Binary64) : Nat := x.bits.toNat

def isNegative (x : Binary64) : Bool := 1 <<< 63 ≤ x.word

def magnitudeWord (x : Binary64) : Nat := x.word % (1 <<< 63)

def biased (x : Binary64) : Nat := x.magnitudeWord >>> 52

def fraction (x : Binary64) : Nat := x.word % (1 <<< 52)

def infinityWord : Nat := 2047 <<< 52

def isNaN (x : Binary64) : Bool := infinityWord < x.magnitudeWord
def isInfinite (x : Binary64) : Bool := x.magnitudeWord = infinityWord
def isFinite (x : Binary64) : Bool := x.magnitudeWord < infinityWord
def isZero (x : Binary64) : Bool := x.magnitudeWord = 0

def significand (x : Binary64) : Nat :=
  if x.biased = 0 then x.fraction else (1 <<< 52) + x.fraction

/-- The significand of a finite number counts `2 ^ unit` multiples of `2^-1074`. -/
def unit (x : Binary64) : Nat := x.biased - 1

/-- The magnitude of a finite number in multiples of `2^-1074`. -/
def scaled (x : Binary64) : Nat := x.significand <<< x.unit

/-! ## Building and rounding -/

def make (negative : Bool) (magnitude : Nat) : Binary64 :=
  ⟨UInt64.ofNat ((if negative then 1 <<< 63 else 0) + magnitude)⟩

def zero : Binary64 := make false 0
def infinity (negative : Bool) : Binary64 := make negative infinityWord

def nan (negative : Bool) : Binary64 := make negative (infinityWord + (1 <<< 51))

instance : Inhabited Binary64 := ⟨zero⟩

/-- The whole number nearest to `n / d`, the even one of two. -/
def roundDiv (n d : Nat) : Nat :=
  let q := n / d
  let r := n % d
  if 2 * r < d then q else if 2 * r = d then q + q % 2 else q + 1

/-- The magnitude bits nearest to `n / d`, with infinity for what is too large.  Adding the
significand to the shifted exponent carries where rounding reaches the next power of two. -/
def roundedWord (n d : Nat) : Nat :=
  let n := n <<< 1074
  let shift := (n / d).log2 - 52
  min ((shift <<< 52) + roundDiv n (d <<< shift)) infinityWord

def ofRatio (negative : Bool) (n d : Nat) : Binary64 :=
  make negative (roundedWord n d)

def ofNat (n : Nat) : Binary64 := ofRatio false n 1

def ofInt (i : Int) : Binary64 := ofRatio (i < 0) i.natAbs 1

def neg (x : Binary64) : Binary64 := make (!x.isNegative) x.magnitudeWord

/-! ## Arithmetic -/

def signedScaled (x : Binary64) : Int :=
  if x.isNegative then -(x.scaled : Int) else x.scaled

def add (x y : Binary64) : Binary64 :=
  if x.isNaN || y.isNaN then nan false
  else if x.isInfinite then
    if y.isInfinite && x.isNegative != y.isNegative then nan false else x
  else if y.isInfinite then y
  else
    let s := x.signedScaled + y.signedScaled
    if s = 0 then make (x.isNegative && y.isNegative) 0
    else ofRatio (s < 0) s.natAbs (1 <<< 1074)

def mul (x y : Binary64) : Binary64 :=
  let negative := x.isNegative != y.isNegative
  if x.isNaN || y.isNaN then nan false
  else if x.isInfinite || y.isInfinite then
    if x.isZero || y.isZero then nan false else infinity negative
  else ofRatio negative (x.scaled * y.scaled) (1 <<< 2148)

def div (x y : Binary64) : Binary64 :=
  let negative := x.isNegative != y.isNegative
  if x.isNaN || y.isNaN then nan false
  else if x.isInfinite then
    if y.isInfinite then nan false else infinity negative
  else if y.isInfinite then make negative 0
  else if y.isZero then
    if x.isZero then nan false else infinity negative
  else ofRatio negative x.scaled y.scaled

instance : Add Binary64 := ⟨add⟩
instance : Mul Binary64 := ⟨mul⟩
instance : Div Binary64 := ⟨div⟩
instance : Neg Binary64 := ⟨neg⟩

/-! ## Comparison -/

/-- Whether two numbers are the same number: a NaN is no number, and the zeros are one. -/
def sameNumber (x y : Binary64) : Bool :=
  !x.isNaN && !y.isNaN && (x = y || x.isZero && y.isZero)

/-- The place of a number in the total order, which runs from the negative NaNs over the
negative numbers, the two zeros and the positive numbers to the positive NaNs. -/
def rank (x : Binary64) : Int :=
  if x.isNegative then -(x.magnitudeWord : Int) - 1 else x.magnitudeWord

end Binary64

end BatchingCache
