import CodeDump.Proofs.GeneralText
import CodeDump.Proofs.Rendering
import CodeDump.Proofs.Shortest

/-!
# Float literals read back

The text of a float literal is a numeral with a point or an exponent. Its digits are those of the
shortest decimal, with zeros around them where they stand in their places, so the numeral denotes a
number to which the double is the nearest one, and no decimal with fewer digits does. The sign is
written also in front of zero. The exponent form is used from `10 ^ 16` on and below `10 ^ (-4)`,
and for no other number.
-/

namespace CodeDump

namespace Numeral

open Json Json.Reader

/-- The digits without the zeros in front of them and behind them. -/
def significantDigits (n : Numeral) : List Nat :=
  ((n.whole ++ n.fraction).dropWhile (· == 0)).rdropWhile (· == 0)

theorem dropWhile_zeros_append (k : Nat) {ds : List Nat} (h : ds.head? ≠ some 0) :
    (List.replicate k 0 ++ ds).dropWhile (· == 0) = ds := by
  induction k with
  | zero =>
    cases ds with
    | nil => rfl
    | cons d ds =>
      rw [List.head?_cons, ne_eq, Option.some.injEq] at h
      exact List.dropWhile_cons_of_neg (by simpa using h)
  | succ k ih => rwa [List.replicate_succ, List.cons_append, List.dropWhile_cons_of_pos rfl]

/-- Zeros around the digits of a decimal are not significant. -/
theorem significantDigits_eq {n : Numeral} {d : Decimal} (hd : d.coefficient % 10 ≠ 0) {j k : Nat}
    (h : n.whole ++ n.fraction = List.replicate j 0 ++ d.digits ++ List.replicate k 0) :
    n.significantDigits = d.digits := by
  have hne : d.digits ≠ [] := Radix.digits_ne_nil 10 _
  have hhead : (d.digits ++ List.replicate k 0).head? ≠ some 0 := by
    rw [List.head?_append_of_ne_nil _ hne]
    intro hzero
    have hcoefficient := Radix.eq_zero_of_head?_digits (by omega) _ hzero
    omega
  rw [significantDigits, h, List.append_assoc, dropWhile_zeros_append j hhead,
    rdropWhile_append_zeros, rdropWhile_of_getLast? (getLast?_digits_ne hd)]

theorem significantDigits_scientific (negative : Bool) {d : Decimal}
    (hd : d.coefficient % 10 ≠ 0) : (scientific negative d).significantDigits = d.digits := by
  apply significantDigits_eq hd (j := 0) (k := 0)
  rw [scientific, List.take_append_drop]
  simp

theorem exists_zeros_positional (negative : Bool) (d : Decimal) :
    ∃ j k, (positional negative d).whole ++ (positional negative d).fraction =
      List.replicate j 0 ++ d.digits ++ List.replicate k 0 := by
  dsimp only [positional]
  split_ifs
  · exact ⟨0, d.exponent.toNat, by simp⟩
  · exact ⟨(-d.exponent).toNat - d.digits.length + 1, 0, by simp [List.replicate_succ]⟩
  · exact ⟨0, 0, by simp⟩

theorem significantDigits_pointed (negative : Bool) {d : Decimal} (hd : d.coefficient % 10 ≠ 0) :
    (positional negative d).pointed.significantDigits = d.digits := by
  obtain ⟨j, k, hzeros⟩ := exists_zeros_positional negative d
  unfold pointed
  split_ifs with hinteger
  · have hfraction : (positional negative d).fraction = [] := by
      rw [isInteger, Bool.and_eq_true, List.isEmpty_iff] at hinteger
      exact hinteger.1
    rw [hfraction, List.append_nil] at hzeros
    apply significantDigits_eq hd (j := j) (k := k + 1)
    rw [List.replicate_succ', ← List.append_assoc, ← hzeros]
  · exact significantDigits_eq hd hzeros

theorem magnitude_nonneg (n : Numeral) : 0 ≤ n.magnitude :=
  mul_nonneg (Nat.cast_nonneg _) (Decimal.pow_ten_pos _).le

theorem magnitude_pointed (n : Numeral) : n.pointed.magnitude = n.magnitude := by
  unfold pointed
  split_ifs with hinteger
  · rw [isInteger, Bool.and_eq_true, List.isEmpty_iff, Option.isNone_iff_eq_none] at hinteger
    simp only [magnitude, hinteger.1, hinteger.2, List.append_nil, Radix.ofDigits_append_singleton,
      Option.getD_none, List.length_singleton, List.length_nil]
    push_cast
    ring
  · rfl

theorem negative_pointed (n : Numeral) : n.pointed.negative = n.negative := by
  unfold pointed
  split_ifs <;> rfl

theorem exponent_pointed (n : Numeral) : n.pointed.exponent = n.exponent := by
  unfold pointed
  split_ifs <;> rfl

/-- A numeral without an exponent has a point. -/
theorem fraction_pointed {n : Numeral} (h : n.exponent = none) : n.pointed.fraction ≠ [] := by
  unfold pointed
  split_ifs with hinteger
  · exact List.cons_ne_nil _ _
  · intro hfraction
    rw [isInteger, hfraction, h] at hinteger
    exact hinteger rfl

theorem spellsExponent_plain (e : Option Int) :
    SpellsExponent e (e.elim [] fun e => 'e' :: (plainExponent e).toList) := by
  cases e with
  | none => exact .none
  | some e =>
    have hd : Digits (Radix.digits 10 e.natAbs) :=
      ⟨Radix.digits_ne_nil 10 _, Radix.digit_lt (by omega) _⟩
    have hvalue := Radix.ofDigits_digits (b := 10) (by omega) e.natAbs
    rw [Option.elim_some, plainExponent, String.toList_append, toList_decimal]
    by_cases he : e < 0
    · have h := SpellsExponent.minus (Or.inl rfl) hd
      have habs : -(e.natAbs : Int) = e := by omega
      rw [if_pos he]
      rwa [hvalue, habs] at h
    · have h := SpellsExponent.unsigned (Or.inl rfl) hd
      have habs : (e.natAbs : Int) = e := by omega
      rw [if_neg he]
      rwa [hvalue, habs] at h

theorem mark_mem_text_iff {n : Numeral} (h : n.Proper) (f : Int → String) :
    'e' ∈ (n.text f).toList ↔ n.exponent.isSome = true := by
  cases hexponent : n.exponent with
  | none =>
    rw [toList_text_none hexponent f]
    simpa using mark_not_mem_chars h.whole_lt h.fraction_lt n.negative
  | some e =>
    rw [toList_text_some hexponent f f]
    simp

theorem point_mem_text {n : Numeral} (h : n.fraction ≠ []) (f : Int → String) :
    '.' ∈ (n.text f).toList := by
  have hchars : fractionChars n.fraction = '.' :: figures n.fraction := by
    rw [fractionChars, if_neg (by simpa using h)]
  rw [toList_textWith, hchars]
  simp

end Numeral

namespace Double

theorem literal_of_isFinite {x : Double} (h : x.isFinite = true) :
    x.literal = x.literalNumeral.text plainExponent := by
  have hinfinite : x.isInfinite = false := by
    have hfield : x.exponentField < topField := of_decide_eq_true h
    rw [isInfinite, beq_eq_false_iff_ne.mpr hfield.ne, Bool.false_and]
  rw [literal, isNaN_of_isFinite h, hinfinite, if_neg Bool.false_ne_true,
    if_neg Bool.false_ne_true]

theorem magnitude_of_isZero {x : Double} (h : x.isZero = true) : x.magnitude = 0 := by
  rw [isZero, Bool.and_eq_true, beq_iff_eq, beq_iff_eq] at h
  rw [magnitude, significand, if_pos h.1, h.2, Nat.cast_zero, zero_mul]

theorem literalNumeral_of_isZero {x : Double} (h : x.isZero = true) :
    x.literalNumeral = ⟨x.isNegative, [0], [0], none⟩ := by
  rw [literalNumeral, shortestNumeral, if_pos h]

theorem literalNumeral_of_ne {x : Double} (h : x.isZero = false) :
    x.literalNumeral = if 1 / 10000 ≤ x.magnitude ∧ x.magnitude < 10000000000000000 then
      (Numeral.positional x.isNegative (x.shortest .upper)).pointed
    else Numeral.scientific x.isNegative (x.shortest .upper) := by
  rw [literalNumeral, shortestNumeral, h, if_neg Bool.false_ne_true]

theorem negative_literalNumeral (x : Double) : x.literalNumeral.negative = x.isNegative := by
  cases hzero : x.isZero with
  | true => rw [literalNumeral_of_isZero hzero]
  | false =>
    rw [literalNumeral_of_ne hzero]
    split_ifs
    · rw [Numeral.negative_pointed, Numeral.negative_positional]
    · rfl

theorem isSome_exponent_literalNumeral (x : Double) :
    x.literalNumeral.exponent.isSome = true ↔
      10 ^ 16 ≤ x.magnitude ∨ 0 < x.magnitude ∧ x.magnitude < 1 / 10 ^ 4 := by
  cases hzero : x.isZero with
  | true =>
    rw [literalNumeral_of_isZero hzero, magnitude_of_isZero hzero]
    norm_num
  | false =>
    rw [literalNumeral_of_ne hzero]
    split_ifs with hplain
    · rw [Numeral.exponent_pointed, Numeral.exponent_positional]
      apply iff_of_false Bool.false_ne_true
      rintro (hhigh | ⟨-, hlow⟩)
      · linarith [hplain.2]
      · linarith [hplain.1]
    · apply iff_of_true rfl
      rcases lt_or_ge x.magnitude (1 / 10 ^ 4) with hlow | hlow
      · exact Or.inr ⟨magnitude_pos hzero, hlow⟩
      · left
        by_contra hhigh
        exact hplain ⟨by linarith, by linarith⟩

theorem fraction_literalNumeral {x : Double} (h : x.literalNumeral.exponent = none) :
    x.literalNumeral.fraction ≠ [] := by
  cases hzero : x.isZero with
  | true =>
    rw [literalNumeral_of_isZero hzero]
    exact List.cons_ne_nil _ _
  | false =>
    rw [literalNumeral_of_ne hzero] at h ⊢
    split_ifs at h ⊢
    · exact Numeral.fraction_pointed (Numeral.exponent_positional _ _)
    · cases h

theorem magnitude_literalNumeral {x : Double} (h : x.isZero = false) :
    x.literalNumeral.magnitude = (x.shortest .upper).value := by
  rw [literalNumeral_of_ne h]
  split_ifs
  · rw [Numeral.magnitude_pointed, Numeral.magnitude_positional]
  · exact Numeral.magnitude_scientific _ _

section Digits

variable {x : Double} (hfinite : x.isFinite = true)

include hfinite

theorem isClosest_literalNumeral : x.IsClosest x.literalNumeral.magnitude := by
  cases hzero : x.isZero with
  | true =>
    have hmagnitude : x.literalNumeral.magnitude = 0 := by
      rw [literalNumeral_of_isZero hzero]
      exact zero_mul _
    rw [hmagnitude]
    exact (isClosest_zero_iff x).mpr (magnitude_of_isZero hzero)
  | false =>
    rw [magnitude_literalNumeral hzero]
    exact isClosest_shortest .upper hfinite (magnitude_pos hzero)

theorem significantDigits_literalNumeral (hzero : x.isZero = false) :
    x.literalNumeral.significantDigits = (x.shortest .upper).digits := by
  have hmod := coefficient_shortest_mod .upper hfinite (magnitude_pos hzero)
  rw [literalNumeral_of_ne hzero]
  split_ifs
  · exact Numeral.significantDigits_pointed _ hmod
  · exact Numeral.significantDigits_scientific _ hmod

/-- No decimal that reads back has fewer significant digits. -/
theorem length_significantDigits_le {c e : Int} (h : x.IsNearest (c * 10 ^ e)) :
    x.literalNumeral.significantDigits.length ≤ (Radix.digits 10 c.natAbs).length := by
  cases hzero : x.isZero with
  | true =>
    rw [literalNumeral_of_isZero hzero]
    exact Nat.zero_le _
  | false =>
    have hpos := magnitude_pos hzero
    have habs : |(c * 10 ^ e : Rat)| = (c.natAbs : Rat) * 10 ^ e := by
      rw [abs_mul, abs_of_pos (Decimal.pow_ten_pos e), ← Int.cast_abs, Int.abs_eq_natAbs,
        Int.cast_natCast]
    rw [h.eq_signed hpos, isNearest_signed_iff h.number (abs_nonneg _), habs] at h
    rw [significantDigits_literalNumeral hfinite hzero]
    exact length_digits_shortest_le .upper hfinite hpos h

end Digits

/-- The text is read as the numeral, this denotes a number of the sign of `x` to which `x` is the
nearest double, no decimal with fewer digits is one to which `x` is nearest, and a point or an
exponent marks the text as that of a float. -/
structure IsLiteral (x : Double) (t : String) (n : Numeral) : Prop where
  read : Json.Reader.numeral t.toList = some (n, [])
  negative : n.negative = x.isNegative
  nearest : ∀ y : Double, y.isNegative = n.negative → (y.IsNearest n.value ↔ y = x)
  rounds : Double.nearest n.negative n.magnitude = x
  fewest : ∀ c e : Int, x.IsNearest (c * 10 ^ e) →
    n.significantDigits.length ≤ (Radix.digits 10 c.natAbs).length
  marked : '.' ∈ t.toList ∨ 'e' ∈ t.toList
  exponentForm : 'e' ∈ t.toList ↔
    10 ^ 16 ≤ |x.value| ∨ 0 < |x.value| ∧ |x.value| < 1 / 10 ^ 4

theorem isLiteral_literal {x : Double} (h : x.isFinite = true) :
    x.IsLiteral x.literal x.literalNumeral := by
  have hproper : x.literalNumeral.Proper := proper_shortestNumeral _ _ _ x
  have hmagnitude := x.literalNumeral.magnitude_nonneg
  have hnegative := x.negative_literalNumeral
  have hrounds := (nearest_eq_iff h hmagnitude).mpr (isClosest_literalNumeral h)
  have hmark := Numeral.mark_mem_text_iff hproper plainExponent
  rw [literal_of_isFinite h]
  exact
    { read := Numeral.numeral_textWith hproper (Numeral.spellsExponent_plain _)
      negative := hnegative
      nearest := by
        intro y hy
        rw [hnegative] at hy
        rw [Numeral.value, hnegative]
        exact isNearest_iff_eq h hmagnitude hrounds hy
      rounds := by rwa [hnegative]
      fewest := fun c e => length_significantDigits_le h
      marked := by
        cases hexponent : x.literalNumeral.exponent with
        | none =>
          exact Or.inl (Numeral.point_mem_text (fraction_literalNumeral hexponent) plainExponent)
        | some e => exact Or.inr (hmark.mpr (by rw [hexponent]; rfl))
      exponentForm := by
        rw [hmark, isSome_exponent_literalNumeral, value_eq_signed,
          abs_signed _ x.magnitude_nonneg] }

end Double

/-- A float literal is rendered as a text that is read back as the same number, with its sign, in
the fewest digits that do so. -/
theorem Node.dump_floatLit {x : Double} (h : x.isFinite = true) :
    (∀ mem s depth t, (Node.floatLit x).dump mem s depth = .ok t ↔
        Buffer.Accepted mem s .empty t ∧ t = x.literal) ∧
      ∃ n, x.IsLiteral x.literal n := by
  refine ⟨fun mem s depth t => ?_, x.literalNumeral, Double.isLiteral_literal h⟩
  exact Node.dump_eq_ok_iff_of_text
    (fun s level depth hdepth => by rw [Node.pieces, if_neg hdepth]) mem s depth t

/-- The numbers below a power of two are nearer than those above it, so that of the two decimals
with sixteen digits next to this one only the farther reads back. -/
theorem Node.dump_floatLit_power_of_two :
    let x : Double := ⟨0x3d30000000000000⟩
    x.isFinite = true ∧ x.magnitude = 1 / 2 ^ 44 ∧
      (Node.floatLit x).dump .standard .default 1 = .ok "5.684341886080802e-14" ∧
      x.magnitude - 5684341886080801 / 10 ^ 29 < 5684341886080802 / 10 ^ 29 - x.magnitude ∧
      ∃ n, x.IsLiteral "5.684341886080802e-14" n := by
  intro x
  have hfinite : x.isFinite = true := by decide
  have hmagnitude : x.magnitude = 1 / 2 ^ 44 := by decide +kernel
  have hliteral : x.literal = "5.684341886080802e-14" := by decide +kernel
  obtain ⟨hdump, hread⟩ := dump_floatLit hfinite
  rw [hliteral] at hread
  refine ⟨hfinite, hmagnitude, ?_, ?_, hread⟩
  · exact (hdump .standard .default 1 _).mpr ⟨⟨by decide, by decide⟩, hliteral.symm⟩
  · rw [hmagnitude]
    norm_num

end CodeDump
