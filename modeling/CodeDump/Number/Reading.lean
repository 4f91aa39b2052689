import CodeDump.Number.Numeral

/-!
# Numerals in data files

A numeral is read in two steps. Its digits are gathered into a significand of at most
`2 ^ 64 - 1`: digits that no longer fit are dropped, those before the point raising the
exponent. The double nearest to the significand is then multiplied or divided by the double
nearest to the power of ten. Too large a result is refused, too small a one is zero.
-/

namespace CodeDump.Numeral

def significandLimit : Nat := 18446744073709551615

/-- The significand from the digits before the point, and how many of them were dropped. -/
def gatherWhole (s : Nat) : List Nat → Nat × Nat
  | [] => (s, 0)
  | d :: ds =>
      if 10 * s + d ≤ significandLimit then gatherWhole (10 * s + d) ds else (s, ds.length + 1)

/-- The significand after the digits behind the point, and how many of them it took. -/
def gatherFraction (s : Nat) : List Nat → Nat × Nat
  | [] => (s, 0)
  | d :: ds =>
      if 10 * s + d ≤ significandLimit then
        let (t, taken) := gatherFraction (10 * s + d) ds
        (t, taken + 1)
      else (s, 0)

/-- The largest exponent for which there is a power of ten. -/
def maxPower : Nat := 308

/-- Divides by `10 ^ k`, in several steps if there is no such power. -/
def scaleDown (f : Double) (k : Nat) : Double :=
  if k ≤ maxPower then f.div (Double.powerOfTen k)
  else if f.isZero then f
  else scaleDown (f.div (Double.powerOfTen maxPower)) (k - maxPower)
termination_by k
decreasing_by simp only [maxPower] at *; omega

def scaleUp (f : Double) (k : Nat) : Option Double :=
  if k ≤ maxPower then
    let g := f.mul (Double.powerOfTen k)
    if g.isInfinite then none else some g
  else if f.isZero then some f
  else none

def toDouble? (n : Numeral) : Option Double :=
  let (s, dropped) := gatherWhole 0 n.whole
  let (t, taken) := gatherFraction s n.fraction
  let e : Int := (dropped : Int) - taken + n.exponent.getD 0
  let scaled :=
    if 0 ≤ e then scaleUp (Double.ofNat t) e.toNat
    else some (scaleDown (Double.ofNat t) (-e).toNat)
  scaled.map (Double.withSign n.negative)

/-- The value of a numeral that is a plain row of digits. -/
def toNat? (n : Numeral) : Option Nat :=
  if n.isInteger && !n.negative then some (Radix.ofDigits 10 n.whole) else none

end CodeDump.Numeral
