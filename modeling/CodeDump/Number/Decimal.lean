import CodeDump.Number.Double
import CodeDump.Number.Radix

/-!
# Decimals

A `Decimal` is `coefficient * 10 ^ exponent`. Two decimals are made from a number:
`significant k r` rounds a rational to `k` significant digits, a half to even, and
`Double.shortest tie x` has the fewest digits that read back as `x`. For the second, each digit
count gives a grid of decimals on which the number has two neighbours; the first count with a
neighbour that reads back wins, of two such neighbours the nearer, of two equally near the one
that a `Tie` names.
-/

namespace CodeDump

structure Decimal where
  coefficient : Nat
  exponent : Int
  deriving DecidableEq, Repr

namespace Decimal

def value (d : Decimal) : Rat := (d.coefficient : Rat) * 10 ^ d.exponent

/-- The same value without trailing zeros in the coefficient. -/
def trim (d : Decimal) : Decimal :=
  if d.coefficient ≠ 0 ∧ d.coefficient % 10 = 0 then
    trim ⟨d.coefficient / 10, d.exponent + 1⟩
  else d
termination_by d.coefficient
decreasing_by exact Nat.div_lt_self (by omega) (by omega)

def digits (d : Decimal) : List Nat := Radix.digits 10 d.coefficient

/-- The power of ten of the first digit. -/
def leading (d : Decimal) : Int := d.exponent + d.digits.length - 1

/-- The `e` with `10 ^ e ≤ r < 10 ^ (e + 1)`, for a positive `r`. -/
def decimalExponent (r : Rat) : Int :=
  if 1 ≤ r then (Radix.digits 10 r.floor.toNat).length - 1
  else -((Radix.digits 10 ((1 / r).ceil.toNat - 1)).length : Int)

/-- Exponent of the last of `k` significant digits of `r`. -/
def gridExponent (k : Nat) (r : Rat) : Int := decimalExponent r - k + 1

def significant (k : Nat) (r : Rat) : Decimal :=
  let e := gridExponent k r
  trim ⟨(Double.roundHalfEven (r / 10 ^ e)).toNat, e⟩

end Decimal

/-- Which of two equally near neighbours is taken. -/
inductive Tie
  | upper
  | even
  deriving DecidableEq, Repr

def Tie.choose (tie : Tie) (low high : Decimal) : Decimal :=
  match tie with
  | upper => high
  | even => if low.coefficient % 2 = 0 then low else high

namespace Double

/-- Whether `x` is the number nearest to a decimal with the sign of `x`. -/
def reads (x : Double) (d : Decimal) : Bool := nearest x.isNegative d.value == x

/-- The neighbour of `x` with at most `k` digits that reads back, if there is one. -/
def neighbour? (tie : Tie) (x : Double) (k : Nat) : Option Decimal :=
  let e := Decimal.gridExponent k x.magnitude
  let c := (x.magnitude / 10 ^ e).floor.toNat
  let low : Decimal := ⟨c, e⟩
  let high : Decimal := ⟨c + 1, e⟩
  match x.reads low, x.reads high with
  | true, true =>
      let below := x.magnitude - low.value
      let above := high.value - x.magnitude
      some (if below < above then low else if above < below then high else tie.choose low high)
  | true, false => some low
  | false, true => some high
  | false, false => none

/-- Seventeen digits always suffice. -/
def shortest (tie : Tie) (x : Double) : Decimal :=
  let found := (List.range 17).findSome? fun k => x.neighbour? tie (k + 1)
  (found.getD (Decimal.significant 17 x.magnitude)).trim

end Double

end CodeDump
