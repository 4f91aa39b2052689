/-!
# Positional numerals

`digits b n` lists the digits of `n` in base `b`, most significant first and without leading
zeros; `ofDigits` is the value of a digit list. `decimal` and `hexadecimal` are the texts
that dumps show, and `value?` reads such a text back.
-/

namespace CodeDump.Radix

def digits (b n : Nat) : List Nat :=
  if n < b ∨ b < 2 then [n] else digits b (n / b) ++ [n % b]
termination_by n
decreasing_by exact Nat.div_lt_self (by omega) (by omega)

def ofDigits (b : Nat) (ds : List Nat) : Nat := ds.foldl (fun v d => b * v + d) 0

theorem digits_of_lt {b n : Nat} (h : n < b) : digits b n = [n] := by
  rw [digits]; simp [h]

theorem digits_of_le {b n : Nat} (hb : 2 ≤ b) (h : b ≤ n) :
    digits b n = digits b (n / b) ++ [n % b] := by
  rw [digits]; simp; omega

theorem ofDigits_append_singleton (b : Nat) (ds : List Nat) (d : Nat) :
    ofDigits b (ds ++ [d]) = b * ofDigits b ds + d := by
  simp [ofDigits]

theorem ofDigits_digits {b : Nat} (hb : 2 ≤ b) (n : Nat) : ofDigits b (digits b n) = n := by
  induction n using Nat.strongRecOn with
  | ind n ih =>
    by_cases h : n < b
    · simp [digits_of_lt h, ofDigits]
    · rw [digits_of_le hb (by omega), ofDigits_append_singleton,
        ih _ (Nat.div_lt_self (by omega) (by omega)), Nat.div_add_mod]

def digitsText (b n : Nat) : List Char := (digits b n).map Nat.digitChar

def decimal (n : Nat) : String := String.ofList (digitsText 10 n)

/-- Lower-case digits, without a leading `0x`. -/
def hexadecimal (n : Nat) : String := String.ofList (digitsText 16 n)

/-- The value of a digit in base `b`, letters in either case. -/
def digitValue? (b : Nat) (c : Char) : Option Nat :=
  let v :=
    if '0' ≤ c ∧ c ≤ '9' then c.toNat - '0'.toNat
    else if 'a' ≤ c ∧ c ≤ 'f' then c.toNat - 'a'.toNat + 10
    else if 'A' ≤ c ∧ c ≤ 'F' then c.toNat - 'A'.toNat + 10
    else b
  if v < b then some v else none

/-- Reads a non-empty digit text; leading zeros are allowed. -/
def value? (b : Nat) (cs : List Char) : Option Nat :=
  if cs.isEmpty then none else (cs.mapM (digitValue? b)).map (ofDigits b)

/-- A text followed by spaces up to `width` characters. -/
def padRight (width : Nat) (s : String) : String :=
  s ++ String.ofList (List.replicate (width - s.length) ' ')

end CodeDump.Radix
