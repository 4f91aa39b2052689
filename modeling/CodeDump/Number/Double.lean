/-!
# Double-precision numbers

A `Double` is the 64-bit pattern of a binary floating-point number: a sign bit, eleven
exponent bits and fifty-two fraction bits. Its magnitude is the exact rational
`significand * 2 ^ exponent`, and `nearest` is the way back: the pattern closest to a
rational, ties to the even significand, infinity past the largest finite number.
All arithmetic is exact arithmetic followed by `nearest`.
-/

namespace CodeDump

structure Double where
  bits : UInt64
  deriving DecidableEq, Repr

namespace Double

def fractionBound : Nat := 4503599627370496

def signBit : Nat := 9223372036854775808

/-- The exponent field of infinities and of patterns that are no number. -/
def topField : Nat := 2047

def isNegative (x : Double) : Bool := signBit ≤ x.bits.toNat

def exponentField (x : Double) : Nat := x.bits.toNat / fractionBound % 2048

def fraction (x : Double) : Nat := x.bits.toNat % fractionBound

def isFinite (x : Double) : Bool := x.exponentField < topField

def isNaN (x : Double) : Bool := x.exponentField == topField && x.fraction != 0

def isInfinite (x : Double) : Bool := x.exponentField == topField && x.fraction == 0

def isZero (x : Double) : Bool := x.exponentField == 0 && x.fraction == 0

/-- Subnormal patterns have no hidden bit. -/
def significand (x : Double) : Nat :=
  if x.exponentField = 0 then x.fraction else fractionBound + x.fraction

def exponent (x : Double) : Int := (max 1 x.exponentField : Nat) - 1075

/-- The absolute value of a finite pattern. -/
def magnitude (x : Double) : Rat := (x.significand : Rat) * 2 ^ x.exponent

/-- The signed value of a finite pattern. -/
def value (x : Double) : Rat := if x.isNegative then -x.magnitude else x.magnitude

/-- The nearest integer, a half to the even neighbour. -/
def roundHalfEven (r : Rat) : Int :=
  let low := r.floor
  let rest := r - low
  if rest < 1 / 2 then low
  else if 1 / 2 < rest then low + 1
  else if low % 2 = 0 then low else low + 1

/-- The `e` with `2 ^ e ≤ r < 2 ^ (e + 1)`, for a positive `r`. -/
def binaryExponent (r : Rat) : Int :=
  let guess : Int := (Nat.log2 r.num.toNat : Int) - Nat.log2 r.den
  if (2 : Rat) ^ guess ≤ r then guess else guess - 1

/-- Exponent of the last significand bit that a pattern for `r` can hold. -/
def ulpExponent (r : Rat) : Int := max (binaryExponent r - 52) (-1074)

/-- The pattern without its sign for a magnitude. The carry out of a full significand
moves into the exponent field, as consecutive patterns are consecutive numbers. -/
def magnitudeBits (r : Rat) : Nat :=
  if r ≤ 0 then 0
  else
    let e := ulpExponent r
    let m := (roundHalfEven (r / 2 ^ e)).toNat
    min ((e + 1074).toNat * fractionBound + m) (topField * fractionBound)

def ofMagnitudeBits (negative : Bool) (b : Nat) : Double :=
  ⟨UInt64.ofNat (if negative then signBit + b else b)⟩

/-- The number of the given sign nearest to a magnitude. -/
def nearest (negative : Bool) (r : Rat) : Double := ofMagnitudeBits negative (magnitudeBits r)

def ofNat (n : Nat) : Double := nearest false n

/-- The number nearest to `10 ^ k`. -/
def powerOfTen (k : Nat) : Double := nearest false (10 ^ k)

def mul (x y : Double) : Double :=
  nearest (x.isNegative != y.isNegative) (x.magnitude * y.magnitude)

def div (x y : Double) : Double :=
  nearest (x.isNegative != y.isNegative) (x.magnitude / y.magnitude)

def withSign (negative : Bool) (x : Double) : Double :=
  ofMagnitudeBits negative (x.bits.toNat % signBit)

end Double

end CodeDump
