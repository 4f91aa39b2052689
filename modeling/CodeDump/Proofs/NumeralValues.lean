import Mathlib.Data.List.Induction
import CodeDump.Proofs.JsonGrammar
import CodeDump.Proofs.Rounding

/-!
# Values of numerals

A decimal can be written with every digit in its place or with one digit before the point. Both
numerals have the value of the decimal, and neither has a fraction that ends in a zero if the
decimal has no trailing zeros. A numeral of digits below ten is read back from its text, also
from one with a padded exponent.
-/

namespace CodeDump

namespace Radix

theorem ofDigits_append (b : Nat) (xs ys : List Nat) :
    ofDigits b (xs ++ ys) = ofDigits b xs * b ^ ys.length + ofDigits b ys := by
  induction ys using List.reverseRecOn with
  | nil => simp [ofDigits]
  | append_singleton ys d ih =>
    rw [← List.append_assoc, ofDigits_append_singleton, ofDigits_append_singleton, ih,
      List.length_append, List.length_singleton, pow_succ]
    ring

theorem ofDigits_replicate_zero (b n : Nat) : ofDigits b (List.replicate n 0) = 0 := by
  induction n with
  | zero => rfl
  | succ n ih => rw [List.replicate_succ', ofDigits_append_singleton, ih, Nat.mul_zero]

theorem getLast?_digits {b : Nat} (hb : 2 ≤ b) (n : Nat) :
    (digits b n).getLast? = some (n % b) := by
  by_cases h : n < b
  · rw [digits_of_lt h, Nat.mod_eq_of_lt h]
    rfl
  · rw [digits_of_le hb (by omega), List.getLast?_concat]

/-- A power of the base puts zeros behind the digits. -/
theorem digits_mul_pow {b : Nat} (hb : 2 ≤ b) {n : Nat} (hn : n ≠ 0) (k : Nat) :
    digits b (n * b ^ k) = digits b n ++ List.replicate k 0 := by
  induction k with
  | zero => simp
  | succ k ih =>
    have hpos : 0 < n * b ^ k := Nat.mul_pos (by omega) (Nat.pow_pos (by omega))
    have hmul : n * b ^ (k + 1) = n * b ^ k * b := by rw [pow_succ, Nat.mul_assoc]
    have hle : b ≤ n * b ^ k * b := Nat.le_mul_of_pos_left b hpos
    rw [hmul, digits_of_le hb hle, Nat.mul_div_cancel _ (by omega), Nat.mul_mod_left, ih,
      List.append_assoc, ← List.replicate_succ']

end Radix

namespace Numeral

theorem magnitude_positional (negative : Bool) (d : Decimal) :
    (positional negative d).magnitude = d.value := by
  have hcoefficient : Radix.ofDigits 10 d.digits = d.coefficient :=
    Radix.ofDigits_digits (by omega) _
  dsimp only [positional]
  split_ifs with hexp hlen
  · have hcast : (10 : Rat) ^ d.exponent = 10 ^ d.exponent.toNat := by
      rw [← zpow_natCast, Int.toNat_of_nonneg hexp]
    simp only [magnitude, List.append_nil, Option.getD_none, List.length_nil, Int.ofNat_zero,
      Radix.ofDigits_append, Radix.ofDigits_replicate_zero, List.length_replicate, hcoefficient,
      Decimal.value, hcast]
    push_cast
    norm_num
  · have hexp' : (0 : Int) - (((List.replicate ((-d.exponent).toNat - d.digits.length) 0 ++
        d.digits).length : Nat) : Int) = d.exponent := by
      rw [List.length_append, List.length_replicate]
      omega
    simp only [magnitude, Option.getD_none, hexp', Decimal.value, List.singleton_append]
    have hzeros : Radix.ofDigits 10 (0 :: (List.replicate ((-d.exponent).toNat - d.digits.length) 0
        ++ d.digits)) = d.coefficient := by
      rw [← List.cons_append, ← List.replicate_succ, Radix.ofDigits_append,
        Radix.ofDigits_replicate_zero, hcoefficient]
      omega
    rw [hzeros]
  · have hexp' :
        (0 : Int) - ((d.digits.drop (d.digits.length - (-d.exponent).toNat)).length : Int) =
          d.exponent := by
      rw [List.length_drop]
      omega
    simp only [magnitude, Option.getD_none, hexp', List.take_append_drop, hcoefficient,
      Decimal.value]

theorem magnitude_scientific (negative : Bool) (d : Decimal) :
    (scientific negative d).magnitude = d.value := by
  have hcoefficient : Radix.ofDigits 10 d.digits = d.coefficient :=
    Radix.ofDigits_digits (by omega) _
  have hlen : 0 < d.digits.length := List.length_pos_of_ne_nil (Radix.digits_ne_nil 10 _)
  have hexp : d.leading - ((d.digits.drop 1).length : Int) = d.exponent := by
    rw [List.length_drop, Decimal.leading]
    omega
  simp only [magnitude, scientific, Option.getD_some, hexp, List.take_append_drop, hcoefficient,
    Decimal.value]

theorem getLast?_drop_ne {ds : List Nat} (h : ds.getLast? ≠ some 0) (k : Nat) :
    (ds.drop k).getLast? ≠ some 0 := by
  rw [List.getLast?_drop]
  split_ifs
  · simp
  · exact h

theorem getLast?_digits_ne {d : Decimal} (h : d.coefficient % 10 ≠ 0) :
    d.digits.getLast? ≠ some 0 := by
  rw [Decimal.digits, Radix.getLast?_digits (by omega)]
  exact fun hz => h (Option.some.inj hz)

theorem fraction_scientific (negative : Bool) {d : Decimal} (h : d.coefficient % 10 ≠ 0) :
    (scientific negative d).fraction.getLast? ≠ some 0 :=
  getLast?_drop_ne (getLast?_digits_ne h) 1

theorem fraction_positional (negative : Bool) {d : Decimal} (h : d.coefficient % 10 ≠ 0) :
    (positional negative d).fraction.getLast? ≠ some 0 := by
  have hlast := getLast?_digits_ne h
  have hne : d.digits ≠ [] := Radix.digits_ne_nil 10 _
  dsimp only [positional]
  split_ifs
  · simp
  · dsimp only
    rwa [List.getLast?_append_of_ne_nil _ hne]
  · exact getLast?_drop_ne hlast _

/-- A whole number is written with all its digits and without a point. -/
theorem positional_of_value {d : Decimal} (h : d.coefficient % 10 ≠ 0) {k : Nat}
    (hk : d.value = k) (negative : Bool) :
    positional negative d = ⟨negative, Radix.digits 10 k, [], none⟩ := by
  by_cases hexp : 0 ≤ d.exponent
  · have hnat : k = d.coefficient * 10 ^ d.exponent.toNat := by
      rw [Decimal.value, ← Int.toNat_of_nonneg hexp, zpow_natCast] at hk
      exact_mod_cast hk.symm
    rw [hnat, Radix.digits_mul_pow (by omega) (by omega)]
    dsimp only [positional]
    rw [if_pos hexp]
    rfl
  · -- A number with a point behind its last digit is no whole number.
    obtain ⟨p, hp⟩ : ∃ p : Nat, d.exponent = -((p + 1 : Nat) : Int) :=
      ⟨(-d.exponent).toNat - 1, by omega⟩
    have hnat : d.coefficient = k * 10 ^ (p + 1) := by
      rw [Decimal.value, hp, zpow_neg, zpow_natCast, mul_inv_eq_iff_eq_mul₀ (by positivity)] at hk
      exact_mod_cast hk
    rw [hnat, pow_succ, ← Nat.mul_assoc, Nat.mul_mod_left] at h
    exact absurd rfl h

open Json Json.Reader

/-- A padded exponent is a sign and at least two digits. -/
theorem toList_paddedExponent (e : Int) :
    ∃ ds, Digits ds ∧ 2 ≤ ds.length ∧ Radix.ofDigits 10 ds = e.natAbs ∧
      (paddedExponent e).toList = (if e < 0 then '-' else '+') :: figures ds := by
  have hlt := Radix.digit_lt (b := 10) (by omega) e.natAbs
  have hvalue := Radix.ofDigits_digits (b := 10) (by omega) e.natAbs
  have hsign : (if e < 0 then "-" else "+").toList = [if e < 0 then '-' else '+'] := by
    split_ifs <;> rfl
  by_cases h : e.natAbs < 10
  · refine ⟨[0, e.natAbs], ⟨List.cons_ne_nil _ _, ?_⟩, le_rfl, ?_, ?_⟩
    · simpa using h
    · simp [Radix.ofDigits]
    · rw [paddedExponent, if_pos h, String.toList_append, String.toList_append, hsign,
        toList_decimal, Radix.digits_of_lt h]
      rfl
  · refine ⟨Radix.digits 10 e.natAbs, ⟨Radix.digits_ne_nil 10 _, hlt⟩, ?_, hvalue, ?_⟩
    · have hne := List.length_pos_of_ne_nil (Radix.digits_ne_nil 10 (e.natAbs / 10))
      rw [Radix.digits_of_le (by omega) (by omega), List.length_append, List.length_singleton]
      omega
    · rw [paddedExponent, if_neg h, String.toList_append, String.toList_append, hsign,
        toList_decimal]
      rfl

theorem spellsExponent_padded (e : Option Int) :
    SpellsExponent e (e.elim [] fun e => 'e' :: (paddedExponent e).toList) := by
  cases e with
  | none => exact .none
  | some e =>
    obtain ⟨ds, hds, _, hvalue, hchars⟩ := toList_paddedExponent e
    rw [Option.elim_some, hchars]
    by_cases he : e < 0
    · have h := SpellsExponent.minus (Or.inl rfl) hds
      have habs : -(e.natAbs : Int) = e := by omega
      rw [if_pos he]
      rwa [hvalue, habs] at h
    · have h := SpellsExponent.plus (Or.inl rfl) hds
      have habs : (e.natAbs : Int) = e := by omega
      rw [if_neg he]
      rwa [hvalue, habs] at h

/-- A numeral is read back as a whole if its exponent is spelled. -/
theorem numeral_textWith {n : Numeral} (h : n.Proper) {exponentText : Int → String}
    (hspells : SpellsExponent n.exponent
      (n.exponent.elim [] fun e => 'e' :: (exponentText e).toList)) :
    Json.Reader.numeral (n.text exponentText).toList = some (n, []) := by
  have hnumeral := SpellsNumeral.mk h hspells
  rw [← toList_textWith exponentText n] at hnumeral
  have hhalts : Halts [] := fun c hc => nomatch hc
  simpa only [List.append_nil] using hnumeral.numeral_append hhalts

theorem numeral_padded {n : Numeral} (h : n.Proper) :
    Json.Reader.numeral (n.text paddedExponent).toList = some (n, []) :=
  numeral_textWith h (spellsExponent_padded n.exponent)

end Numeral

end CodeDump
