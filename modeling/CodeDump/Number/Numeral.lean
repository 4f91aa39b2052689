import CodeDump.Number.Decimal

/-!
# Written numerals

A `Numeral` is a number as it stands in a text: sign, whole digits, fraction digits (none
without a point) and an optional exponent. Three ways to write a double are fixed here:

* `Double.literal`, the text of a float literal: shortest digits, the upper ones on a tie, an
  exponent from `10 ^ 16` on and below `10 ^ (-4)`, always a point or an exponent;
* `Double.general`, the text of a float constant in a listing: six significant digits, an
  exponent from `10 ^ 6` on and below `10 ^ (-4)`, no trailing zeros after the point;
* `Double.exchange?`, the numeral of a finite number in data files: shortest digits, the even
  ones on a tie, an exponent from `10 ^ 16` on and below `10 ^ (-5)`.

The exponent is written in three ways too: `plainExponent` in literals, `paddedExponent` in
listings and `signedExponent` in data files.
-/

namespace CodeDump

structure Numeral where
  negative : Bool
  whole : List Nat
  fraction : List Nat
  exponent : Option Int
  deriving DecidableEq, Repr

namespace Numeral

def magnitude (n : Numeral) : Rat :=
  (Radix.ofDigits 10 (n.whole ++ n.fraction) : Rat) *
    10 ^ (n.exponent.getD 0 - (n.fraction.length : Int))

def value (n : Numeral) : Rat := if n.negative then -n.magnitude else n.magnitude

def isInteger (n : Numeral) : Bool := n.fraction.isEmpty && n.exponent.isNone

def ofNat (n : Nat) : Numeral := ⟨false, Radix.digits 10 n, [], none⟩

/-- Every digit of a decimal in its place. -/
def positional (negative : Bool) (d : Decimal) : Numeral :=
  let ds := d.digits
  let places := (-d.exponent).toNat
  if 0 ≤ d.exponent then ⟨negative, ds ++ List.replicate d.exponent.toNat 0, [], none⟩
  else if ds.length ≤ places then
    ⟨negative, [0], List.replicate (places - ds.length) 0 ++ ds, none⟩
  else ⟨negative, ds.take (ds.length - places), ds.drop (ds.length - places), none⟩

/-- One digit before the point. -/
def scientific (negative : Bool) (d : Decimal) : Numeral :=
  ⟨negative, d.digits.take 1, d.digits.drop 1, some d.leading⟩

/-- A whole number gets the fraction `.0`. -/
def pointed (n : Numeral) : Numeral := if n.isInteger then { n with fraction := [0] } else n

def digitsText (ds : List Nat) : String := String.ofList (ds.map Nat.digitChar)

/-- The text of a numeral, given the text of its exponent. -/
def text (exponentText : Int → String) (n : Numeral) : String :=
  (if n.negative then "-" else "") ++ digitsText n.whole ++
    (if n.fraction.isEmpty then "" else "." ++ digitsText n.fraction) ++
    match n.exponent with
    | none => ""
    | some e => "e" ++ exponentText e

end Numeral

/-- No sign for positive exponents and no padding. -/
def plainExponent (e : Int) : String :=
  (if e < 0 then "-" else "") ++ Radix.decimal e.natAbs

/-- Always a sign and no padding. -/
def signedExponent (e : Int) : String :=
  (if e < 0 then "-" else "+") ++ Radix.decimal e.natAbs

/-- Always a sign and at least two digits. -/
def paddedExponent (e : Int) : String :=
  (if e < 0 then "-" else "+") ++ (if e.natAbs < 10 then "0" else "") ++ Radix.decimal e.natAbs

namespace Double

/-- Shortest digits, positional from `low` up to but not including `high`. -/
def shortestNumeral (tie : Tie) (low high : Rat) (x : Double) : Numeral :=
  if x.isZero then ⟨x.isNegative, [0], [0], none⟩
  else if low ≤ x.magnitude ∧ x.magnitude < high then
    (Numeral.positional x.isNegative (x.shortest tie)).pointed
  else Numeral.scientific x.isNegative (x.shortest tie)

def literalNumeral (x : Double) : Numeral :=
  x.shortestNumeral .upper (1 / 10000) 10000000000000000

def literal (x : Double) : String :=
  if x.isNaN then "NaN"
  else if x.isInfinite then (if x.isNegative then "-inf" else "inf")
  else x.literalNumeral.text plainExponent

def exchange? (x : Double) : Option Numeral :=
  if x.isFinite then some (x.shortestNumeral .even (1 / 100000) 10000000000000000) else none

def generalNumeral (x : Double) : Numeral :=
  if x.isZero then ⟨x.isNegative, [0], [], none⟩
  else
    let d := Decimal.significant 6 x.magnitude
    if d.leading < -4 ∨ 6 ≤ d.leading then Numeral.scientific x.isNegative d
    else Numeral.positional x.isNegative d

def general (x : Double) : String :=
  if x.isNaN then "nan"
  else if x.isInfinite then (if x.isNegative then "-inf" else "inf")
  else x.generalNumeral.text paddedExponent

end Double

end CodeDump
