import Mathlib.Data.List.DropRight
import CodeDump.Proofs.NumeralValues
import CodeDump.Proofs.Words

/-!
# Float constants in listings

A float constant is shown with six significant digits, in exponent form if its first digit stands
too far from the point, and without trailing zeros behind the point. The text denotes exactly the
rounded number.

The same text comes about in two printings. The first one shows six digits in exponent form, and
its exponent says which form is wanted. If it is the plain one, the number itself is printed again,
with as many places as leave six digits. In either text the zeros at the end of the fraction are
then cut off. The number is rounded twice in this way, on two grids if the first rounding carries,
but with one result.
-/

namespace CodeDump

namespace Radix

/-- The last `k` digits, zeros in front included. -/
def lastDigits (b : Nat) : Nat → Nat → List Nat
  | 0, _ => []
  | k + 1, n => lastDigits b k (n / b) ++ [n % b]

variable {b : Nat}

theorem length_lastDigits (k n : Nat) : (lastDigits b k n).length = k := by
  induction k generalizing n with
  | zero => rfl
  | succ k ih => rw [lastDigits, List.length_append, ih, List.length_singleton]

/-- The digits of a number are those of its quotient and the last ones behind them. -/
theorem digits_eq_append (hb : 2 ≤ b) {k n : Nat} (h : b ^ k ≤ n) :
    digits b n = digits b (n / b ^ k) ++ lastDigits b k n := by
  induction k generalizing n with
  | zero => simp [lastDigits]
  | succ k ih =>
    have hdiv : b ^ k ≤ n / b := by
      rw [Nat.le_div_iff_mul_le (by omega), ← pow_succ]
      exact h
    have hle : b ≤ n := (Nat.le_self_pow (by omega) b).trans h
    rw [digits_of_le hb hle, ih hdiv, Nat.div_div_eq_div_mul, ← pow_succ', lastDigits,
      List.append_assoc]

theorem lastDigits_zero (k : Nat) : lastDigits b k 0 = List.replicate k 0 := by
  induction k with
  | zero => rfl
  | succ k ih => rw [lastDigits, Nat.zero_div, Nat.zero_mod, ih, List.replicate_succ']

/-- A number with fewer digits has zeros in front of them. -/
theorem lastDigits_of_lt (hb : 2 ≤ b) {k n : Nat} (hn : n ≠ 0) (h : n < b ^ k) :
    lastDigits b k n = List.replicate (k - (digits b n).length) 0 ++ digits b n := by
  induction k generalizing n with
  | zero => exact absurd (Nat.lt_one_iff.mp h) hn
  | succ k ih =>
    by_cases hlt : n < b
    · rw [lastDigits, Nat.div_eq_of_lt hlt, Nat.mod_eq_of_lt hlt, digits_of_lt hlt,
        lastDigits_zero, List.length_singleton, Nat.add_sub_cancel]
    · have hle : b ≤ n := Nat.le_of_not_lt hlt
      have hdiv : n / b ≠ 0 := Nat.div_ne_zero_iff.mpr ⟨by omega, hle⟩
      have hpow : n / b < b ^ k := by
        rw [Nat.div_lt_iff_lt_mul (by omega), ← pow_succ]
        exact h
      rw [lastDigits, ih hdiv hpow, digits_of_le hb hle, List.length_append,
        List.length_singleton, Nat.add_sub_add_right, List.append_assoc]

end Radix

namespace Numeral

def stripped (n : Numeral) : Numeral := { n with fraction := n.fraction.rdropWhile (· == 0) }

theorem rdropWhile_of_getLast? {ds : List Nat} (h : ds.getLast? ≠ some 0) :
    ds.rdropWhile (· == 0) = ds := by
  rw [List.rdropWhile_eq_self_iff]
  intro hne hzero
  rw [List.getLast?_eq_getLast_of_ne_nil hne, beq_iff_eq.mp hzero] at h
  exact h rfl

theorem rdropWhile_append_zeros (ds : List Nat) (k : Nat) :
    (ds ++ List.replicate k 0).rdropWhile (· == 0) = ds.rdropWhile (· == 0) := by
  induction k with
  | zero => rw [List.replicate_zero, List.append_nil]
  | succ k ih =>
    rw [List.replicate_succ', ← List.append_assoc, List.rdropWhile_concat_pos _ _ _ rfl, ih]

/-- In exponent form the digits that go are those that the decimal can do without. -/
theorem stripped_scientific (negative : Bool) {d : Decimal} (h : d.coefficient ≠ 0) :
    (scientific negative d).stripped = scientific negative d.trim := by
  obtain ⟨-, hdigits⟩ := Decimal.digits_trim h
  have hlast := getLast?_drop_ne (getLast?_digits_ne (Decimal.coefficient_trim_mod h)) 1
  have hlen : 1 ≤ d.trim.digits.length :=
    List.length_pos_of_ne_nil (Radix.digits_ne_nil 10 d.trim.coefficient)
  have hwhole : d.digits.take 1 = d.trim.digits.take 1 := by
    rw [hdigits, List.take_append_of_le_length hlen]
  have hfraction : (d.digits.drop 1).rdropWhile (· == 0) = d.trim.digits.drop 1 := by
    rw [hdigits, List.drop_append_of_le_length hlen, rdropWhile_append_zeros,
      rdropWhile_of_getLast? hlast]
  simp only [stripped, scientific, hwhole, hfraction, Decimal.leading_trim h]

/-- The numeral with so many places behind the point that has the digits of `c`. -/
def placed (negative : Bool) (places c : Nat) : Numeral :=
  ⟨negative, Radix.digits 10 (c / 10 ^ places), Radix.lastDigits 10 places c, none⟩

/-- With a point, the digits are in the places where the decimal has them. -/
theorem placed_eq_positional (negative : Bool) (k : Nat) {c : Nat} (h : c ≠ 0) :
    placed negative (k + 1) c = positional negative ⟨c, -((k + 1 : Nat) : Int)⟩ := by
  have hplaces : (- -((k + 1 : Nat) : Int)).toNat = k + 1 := by omega
  have hpow := Radix.pow_length_digits_le (b := 10) (by omega) h
  unfold positional
  dsimp only [Decimal.digits]
  rw [hplaces]
  split_ifs with hexp hlen
  · omega
  · have hlt : c < 10 ^ (k + 1) :=
      (Radix.lt_pow_length_digits (b := 10) (by omega) c).trans_le
        (Nat.pow_le_pow_right (by omega) hlen)
    rw [placed, Nat.div_eq_of_lt hlt, Radix.digits_of_lt (by omega),
      Radix.lastDigits_of_lt (by omega) h hlt]
  · have hle : 10 ^ (k + 1) ≤ c := (Nat.pow_le_pow_right (by omega) (by omega)).trans hpow
    have hdigits := Radix.digits_eq_append (b := 10) (by omega) hle
    have hlast := Radix.length_lastDigits (b := 10) (k + 1) c
    rw [placed]
    generalize Radix.digits 10 (c / 10 ^ (k + 1)) = first at hdigits ⊢
    generalize Radix.lastDigits 10 (k + 1) c = last at hdigits hlast ⊢
    have hfirst : (Radix.digits 10 c).length - (k + 1) = first.length := by
      rw [hdigits, List.length_append, hlast, Nat.add_sub_cancel]
    rw [hfirst, hdigits, List.take_left, List.drop_left]

/-- In plain form too the digits that go are those that the decimal can do without. -/
theorem stripped_placed (negative : Bool) (places : Nat) {c : Nat} (h : c ≠ 0) :
    (placed negative places c).stripped =
      positional negative (Decimal.trim ⟨c, -(places : Int)⟩) := by
  induction places generalizing c with
  | zero =>
    -- Without a point there is nothing to cut off, and no digit may go.
    obtain ⟨hexp, hdigits⟩ := Decimal.digits_trim (d := ⟨c, -((0 : Nat) : Int)⟩) h
    have hexp' : 0 ≤ (Decimal.trim ⟨c, -((0 : Nat) : Int)⟩).exponent := hexp
    have hzeros : (Decimal.trim ⟨c, -((0 : Nat) : Int)⟩).exponent - -((0 : Nat) : Int) =
        (Decimal.trim ⟨c, -((0 : Nat) : Int)⟩).exponent := by omega
    rw [hzeros] at hdigits
    dsimp only [positional]
    rw [if_pos hexp', ← hdigits, placed, Nat.pow_zero, Nat.div_one]
    rfl
  | succ k ih =>
    by_cases hmod : c % 10 = 0
    · have hten : c / 10 ≠ 0 := by omega
      have hexp : -((k + 1 : Nat) : Int) + 1 = -(k : Int) := by omega
      rw [Decimal.trim_of_mod h hmod, hexp, ← ih hten]
      dsimp only [stripped, placed, Radix.lastDigits]
      rw [hmod, List.rdropWhile_concat_pos _ _ _ rfl, Nat.div_div_eq_div_mul, ← pow_succ']
    · have hlast : (placed negative (k + 1) c).fraction.getLast? ≠ some 0 := by
        dsimp only [placed, Radix.lastDigits]
        rw [List.getLast?_concat]
        exact fun hzero => hmod (Option.some.inj hzero)
      rw [Decimal.trim_of_mod_ne hmod, ← placed_eq_positional negative k h, stripped,
        rdropWhile_of_getLast? hlast]

open Json Json.Reader

/-- A text without the zeros at the end of its fraction, and without a point that is left there. -/
def withoutZeros (cs : List Char) : List Char :=
  if '.' ∈ cs then (cs.rdropWhile (· == '0')).rdropWhile (· == '.') else cs

theorem digitChar_beq_zero (d : Nat) : (Nat.digitChar d == '0') = (d == 0) := by
  by_cases h : d < 16
  · interval_cases d <;> rfl
  · rw [Nat.digitChar_eq_star.mpr (by omega)]
    have hne : (d == 0) = false := beq_eq_false_iff_ne.mpr (by omega)
    exact hne.symm

theorem not_mem_figures {c : Char} (h : Radix.isFigure c = false) (ds : List Nat) :
    c ∉ figures ds :=
  fun hc => Bool.noConfusion (h.symm.trans (Radix.isFigure_of_mem_map hc))

theorem rdropWhile_not_mem {c : Char} {cs : List Char} (h : c ∉ cs) :
    cs.rdropWhile (· == c) = cs := by
  rw [List.rdropWhile_eq_self_iff]
  intro hne hlast
  exact h (beq_iff_eq.mp hlast ▸ List.getLast_mem hne)

theorem rdropWhile_figures {front : List Char} (h : front.rdropWhile (· == '0') = front)
    (ds : List Nat) :
    (front ++ figures ds).rdropWhile (· == '0') = front ++ figures (ds.rdropWhile (· == 0)) := by
  induction ds using List.reverseRecOn with
  | nil => simpa [figures] using h
  | append_singleton ds d ih =>
    have hfigures : figures (ds ++ [d]) = figures ds ++ [Nat.digitChar d] := List.map_append
    rw [hfigures, ← List.append_assoc]
    by_cases hd : d = 0
    · subst hd
      rw [List.rdropWhile_concat_pos _ _ _ rfl, List.rdropWhile_concat_pos _ _ _ rfl, ih]
    · have hzero : ¬ (d == 0) = true := fun hz => hd (beq_iff_eq.mp hz)
      have hchar : ¬ (Nat.digitChar d == '0') = true := by rwa [digitChar_beq_zero]
      rw [List.rdropWhile_concat_neg (· == '0') _ _ hchar,
        List.rdropWhile_concat_neg (· == 0) _ _ hzero, hfigures, List.append_assoc]

theorem toList_text_none {n : Numeral} (h : n.exponent = none) (f : Int → String) :
    (n.text f).toList =
      (if n.negative then ['-'] else []) ++ (figures n.whole ++ fractionChars n.fraction) := by
  rw [toList_textWith, h, Option.elim_none, List.append_nil]

/-- Cutting the zeros off a text is cutting them off the fraction. -/
theorem withoutZeros_text {n : Numeral} (h : n.exponent = none) (f g : Int → String) :
    withoutZeros (n.text f).toList = (n.stripped.text g).toList := by
  have hpoint : '.' ∉ (if n.negative then ['-'] else []) ++ figures n.whole := by
    rw [List.mem_append, not_or]
    refine ⟨?_, not_mem_figures (by decide) _⟩
    split_ifs <;> decide
  rw [toList_text_none h f, toList_text_none (n := n.stripped) h g, stripped]
  dsimp only
  rw [← List.append_assoc, ← List.append_assoc]
  generalize (if n.negative then ['-'] else []) ++ figures n.whole = front at hpoint ⊢
  generalize n.fraction = ds
  by_cases hds : ds = []
  · subst hds
    rw [withoutZeros, if_neg (by simpa [fractionChars] using hpoint)]
    rfl
  · have hfront : (front ++ ['.']).rdropWhile (· == '0') = front ++ ['.'] :=
      List.rdropWhile_concat_neg _ _ _ (by decide)
    have hchars : front ++ fractionChars ds = front ++ ['.'] ++ figures ds := by
      rw [fractionChars, if_neg (by simpa using hds), List.append_assoc, List.singleton_append]
    rw [hchars, withoutZeros, if_pos (by simp), rdropWhile_figures hfront]
    generalize ds.rdropWhile (· == 0) = left
    rcases List.eq_nil_or_concat left with rfl | ⟨left, d, rfl⟩
    · -- Only the point is left.
      simp only [figures, fractionChars, List.map_nil, List.append_nil, List.isEmpty_nil, if_pos]
      rw [List.rdropWhile_concat_pos _ _ _ (by decide), rdropWhile_not_mem hpoint]
    · have hd : ¬ (Nat.digitChar d == '.') = true := by
        rw [beq_iff_eq]
        exact fun hd => absurd (hd ▸ Radix.isFigure_digitChar d) (by decide)
      have hfigures : figures (left ++ [d]) = figures left ++ [Nat.digitChar d] := List.map_append
      rw [List.concat_eq_append, fractionChars, if_neg (by simp), hfigures, ← List.append_assoc,
        List.rdropWhile_concat_neg (· == '.') _ _ hd]
      simp

/-- A text in exponent form is a text in plain form and the exponent behind it. -/
theorem toList_text_some {n : Numeral} {e : Int} (h : n.exponent = some e) (f g : Int → String) :
    (n.text f).toList =
      (text g { n with exponent := none }).toList ++ 'e' :: (f e).toList := by
  rw [toList_textWith, toList_text_none rfl g, h, Option.elim_some, List.append_assoc,
    List.append_assoc]

theorem mark_not_mem_figures {ds : List Nat} (h : ∀ d ∈ ds, d < 10) : 'e' ∉ figures ds := by
  intro he
  obtain ⟨d, hd, hchar⟩ := List.mem_map.mp he
  have hdigit := isDigit_digitChar (h d hd)
  rw [hchar] at hdigit
  exact absurd hdigit (by decide)

theorem mark_not_mem_chars {ws fs : List Nat} (hws : ∀ d ∈ ws, d < 10) (hfs : ∀ d ∈ fs, d < 10)
    (negative : Bool) :
    'e' ∉ (if negative then ['-'] else []) ++ (figures ws ++ fractionChars fs) := by
  simp only [List.mem_append, not_or]
  refine ⟨?_, mark_not_mem_figures hws, ?_⟩
  · split_ifs <;> decide
  · rw [fractionChars]
    split_ifs
    · exact List.not_mem_nil
    · exact List.not_mem_cons_of_ne_of_not_mem (by decide) (mark_not_mem_figures hfs)

/-- In exponent form, cutting is done in front of the exponent mark. -/
theorem withoutZeros_scientific (negative : Bool) {d : Decimal} (h : d.coefficient ≠ 0)
    (f : Int → String) :
    withoutZeros (before 'e' ((scientific negative d).text f).toList) ++
        'e' :: (paddedExponent d.leading).toList =
      ((scientific negative d.trim).text paddedExponent).toList := by
  have hproper := proper_scientific negative d
  have hfree : 'e' ∉ (text f { scientific negative d with exponent := none }).toList := by
    rw [toList_text_none rfl f]
    exact mark_not_mem_chars hproper.whole_lt hproper.fraction_lt negative
  have hstripped := toList_text_some (n := (scientific negative d).stripped) rfl paddedExponent f
  rw [toList_text_some (n := scientific negative d) rfl f f, before_append hfree,
    withoutZeros_text rfl f f, ← stripped_scientific negative h, hstripped]
  rfl

/-- Digits behind a minus or none, and maybe a point with digits that do not end in a zero. -/
inductive PlainForm : List Char → Prop
  | mk {negative : Bool} {ws fs : List Nat} : Digits ws → (∀ d ∈ fs, d < 10) →
      fs.getLast? ≠ some 0 →
      PlainForm ((if negative then ['-'] else []) ++ (figures ws ++ fractionChars fs))

/-- A plain form, a mark, a sign and at least two digits. -/
inductive ExponentForm : List Char → Prop
  | mk {mantissa : List Char} {sign : Char} {es : List Nat} : PlainForm mantissa →
      sign = '-' ∨ sign = '+' → Digits es → 2 ≤ es.length →
      ExponentForm (mantissa ++ 'e' :: sign :: figures es)

/-- No text has both forms. -/
theorem ExponentForm.not_plainForm {cs : List Char} (h : ExponentForm cs) : ¬ PlainForm cs := by
  intro hplain
  have hfree : 'e' ∉ cs := by
    obtain ⟨hws, hfs, _⟩ := hplain
    exact mark_not_mem_chars hws.2 hfs _
  obtain ⟨_, _, _, _⟩ := h
  exact hfree (by simp)

theorem plainForm_text {n : Numeral} (h : n.Proper) (hlast : n.fraction.getLast? ≠ some 0)
    (hexp : n.exponent = none) (f : Int → String) : PlainForm (n.text f).toList := by
  rw [toList_text_none hexp f]
  exact .mk ⟨h.whole_ne_nil, h.whole_lt⟩ h.fraction_lt hlast

theorem exponentForm_text {n : Numeral} (h : n.Proper) (hlast : n.fraction.getLast? ≠ some 0)
    {e : Int} (hexp : n.exponent = some e) : ExponentForm (n.text paddedExponent).toList := by
  obtain ⟨es, hes, hlen, _, hchars⟩ := toList_paddedExponent e
  have hsign : (if e < 0 then '-' else '+') = '-' ∨ (if e < 0 then '-' else '+') = '+' := by
    split_ifs <;> simp
  have hmantissa : PlainForm (text paddedExponent { n with exponent := none }).toList := by
    rw [toList_text_none rfl paddedExponent]
    exact .mk ⟨h.whole_ne_nil, h.whole_lt⟩ h.fraction_lt hlast
  rw [toList_text_some hexp paddedExponent paddedExponent, hchars]
  exact .mk hmantissa hsign hes hlen

theorem exponent_positional (negative : Bool) (d : Decimal) :
    (positional negative d).exponent = none := by
  dsimp only [positional]
  split_ifs <;> rfl

theorem negative_positional (negative : Bool) (d : Decimal) :
    (positional negative d).negative = negative := by
  dsimp only [positional]
  split_ifs <;> rfl

end Numeral

namespace Double

/-- Six digits of a number, one of them before the point. -/
def sixDigits (x : Double) : Numeral :=
  Numeral.scientific x.isNegative (Decimal.normalized 6 x.magnitude)

/-- A number with a fixed number of places behind the point. -/
def withPlaces (x : Double) (places : Nat) : Numeral :=
  Numeral.placed x.isNegative places (Decimal.onGrid (-(places : Int)) x.magnitude).coefficient

/-- The text that the two printings give. -/
def printed (x : Double) : List Char :=
  let e := x.sixDigits.exponent.getD 0
  if e < -4 ∨ 6 ≤ e then
    Numeral.withoutZeros (before 'e' (x.sixDigits.text plainExponent).toList) ++
      'e' :: (paddedExponent e).toList
  else Numeral.withoutZeros ((x.withPlaces (5 - e).toNat).text plainExponent).toList

/-- Both printings show the number that is rounded once. -/
theorem printed_eq {x : Double} (h : x.isZero = false) :
    x.printed = (x.generalNumeral.text paddedExponent).toList := by
  have hpos := magnitude_pos h
  have hsix : 1 ≤ 6 := by omega
  have hne := Decimal.coefficient_normalized_ne_zero hsix hpos
  have hlead := Decimal.leading_normalized hsix hpos
  have hgrid := Decimal.normalized_eq_onGrid hsix hpos
  have hsignificant := Decimal.trim_normalized hsix x.magnitude
  have hlead' := Decimal.leading_trim hne
  rw [hsignificant] at hlead'
  have hexponent : (Numeral.scientific x.isNegative (Decimal.normalized 6 x.magnitude)).exponent =
      some (Decimal.normalized 6 x.magnitude).leading := rfl
  unfold printed generalNumeral
  rw [h, if_neg Bool.false_ne_true]
  dsimp only [sixDigits, withPlaces]
  rw [hexponent, Option.getD_some, hlead']
  split_ifs with hform
  · rw [Numeral.withoutZeros_scientific x.isNegative hne plainExponent, hsignificant]
  · -- The places of the second printing are the grid of the first one's digits.
    have hplaces : -(((5 - (Decimal.normalized 6 x.magnitude).leading).toNat : Nat) : Int) =
        (Decimal.normalized 6 x.magnitude).exponent := by omega
    have hcoefficient := Numeral.stripped_placed x.isNegative
      (5 - (Decimal.normalized 6 x.magnitude).leading).toNat hne
    rw [Numeral.withoutZeros_text rfl plainExponent paddedExponent, hplaces, ← hgrid, hcoefficient,
      hplaces, hsignificant]

/-- The number rounded to six digits. -/
def rounded (x : Double) : Decimal :=
  Decimal.onGrid (Decimal.gridExponent 6 x.magnitude) x.magnitude

theorem general_of_finite {x : Double} (h : x.isFinite = true) :
    x.general = x.generalNumeral.text paddedExponent := by
  have hfield : (x.exponentField == topField) = false := by
    simp only [isFinite, decide_eq_true_eq] at h
    exact beq_eq_false_iff_ne.mpr (by omega)
  rw [general, isNaN, isInfinite, hfield, Bool.false_and, Bool.false_and,
    if_neg Bool.false_ne_true, if_neg Bool.false_ne_true]

section NonZero

variable {x : Double} (h : x.isZero = false)

include h

theorem coefficient_rounded_ne_zero : x.rounded.coefficient ≠ 0 := by
  have hsix : 1 ≤ 6 := by omega
  have hbounds := Decimal.coefficient_onGrid hsix (magnitude_pos h)
  rw [rounded]
  omega

theorem generalNumeral_of_ne :
    x.generalNumeral =
      if x.rounded.leading < -4 ∨ 6 ≤ x.rounded.leading then
        Numeral.scientific x.isNegative x.rounded.trim
      else Numeral.positional x.isNegative x.rounded.trim := by
  rw [← Decimal.leading_trim (coefficient_rounded_ne_zero h), generalNumeral, h,
    if_neg Bool.false_ne_true]
  rfl

theorem proper_generalNumeral : x.generalNumeral.Proper := by
  have hne := Decimal.coefficient_trim_ne_zero _ (coefficient_rounded_ne_zero h)
  rw [generalNumeral_of_ne h]
  split_ifs
  · exact Numeral.proper_scientific _ _
  · exact Numeral.proper_positional _ hne

theorem fraction_generalNumeral : x.generalNumeral.fraction.getLast? ≠ some 0 := by
  have hmod := Decimal.coefficient_trim_mod (coefficient_rounded_ne_zero h)
  rw [generalNumeral_of_ne h]
  split_ifs
  · exact Numeral.fraction_scientific _ hmod
  · exact Numeral.fraction_positional _ hmod

theorem exponent_generalNumeral :
    x.generalNumeral.exponent =
      if x.rounded.leading < -4 ∨ 6 ≤ x.rounded.leading then some x.rounded.leading else none := by
  rw [generalNumeral_of_ne h]
  split_ifs
  · exact congrArg some (Decimal.leading_trim (coefficient_rounded_ne_zero h))
  · exact Numeral.exponent_positional _ _

theorem value_generalNumeral :
    x.generalNumeral.value = if x.isNegative then -x.rounded.value else x.rounded.value := by
  have hnegative : x.generalNumeral.negative = x.isNegative := by
    rw [generalNumeral_of_ne h]
    split_ifs
    · rfl
    · exact Numeral.negative_positional _ _
  have hmagnitude : x.generalNumeral.magnitude = x.rounded.value := by
    rw [generalNumeral_of_ne h, ← Decimal.value_trim]
    split_ifs
    · exact Numeral.magnitude_scientific _ _
    · exact Numeral.magnitude_positional _ _
  rw [Numeral.value, hnegative, hmagnitude]

/-- A whole number is shown with all its digits, zeros at the end included. -/
theorem text_of_whole (hplace : x.rounded.leading < 6) {k : Nat} (hk : x.rounded.value = k) :
    x.generalNumeral.text paddedExponent =
      (if x.isNegative then "-" else "") ++ Radix.decimal k := by
  have hne := coefficient_rounded_ne_zero h
  have hlow := Decimal.pow_leading_le hne
  have hhigh := Decimal.lt_pow_leading x.rounded
  have hone : (1 : Rat) ≤ x.rounded.value := by
    have hpos := (Decimal.pow_ten_pos _).trans_le hlow
    rw [hk] at hpos ⊢
    exact_mod_cast hpos
  have hten : (1 : Rat) < 10 := by norm_num
  have hplace' : 0 < x.rounded.leading + 1 := by
    apply (zpow_lt_zpow_iff_right₀ hten).mp
    rw [zpow_zero]
    exact hone.trans_lt hhigh
  have hvalue := (Decimal.value_trim x.rounded).trans hk
  rw [generalNumeral_of_ne h, if_neg (by omega),
    Numeral.positional_of_value (Decimal.coefficient_trim_mod hne) hvalue]
  simp [Numeral.text, Numeral.digitsText, Radix.decimal, Radix.digitsText]

end NonZero

/-- The text of a number other than zero: the decimal that it shows, the place of the first digit
of this decimal and the numeral as which it is read. -/
structure Shows (x : Double) (d : Decimal) (place : Int) (n : Numeral) : Prop where
  rounds : ∀ d', Decimal.Rounds 6 x.magnitude d' ↔ d' = d
  low : (10 : Rat) ^ place ≤ d.value
  high : d.value < (10 : Rat) ^ (place + 1)
  read : Json.Reader.numeral x.general.toList = some (n, [])
  value : n.value = if x.isNegative then -d.value else d.value
  exponent : n.exponent = if place < -4 ∨ 6 ≤ place then some place else none
  exponentForm : Numeral.ExponentForm x.general.toList ↔ place < -4 ∨ 6 ≤ place
  plainForm : Numeral.PlainForm x.general.toList ↔ ¬ (place < -4 ∨ 6 ≤ place)
  whole : place < 6 → ∀ k : Nat, d.value = k →
    x.general = (if x.isNegative then "-" else "") ++ Radix.decimal k
  printed : x.general.toList = x.printed

theorem shows_rounded {x : Double} (hfinite : x.isFinite = true) (hzero : x.isZero = false) :
    Shows x x.rounded x.rounded.leading x.generalNumeral := by
  have hproper := proper_generalNumeral hzero
  have hlast := fraction_generalNumeral hzero
  have hexponent := exponent_generalNumeral hzero
  have hscientific (hplace : x.rounded.leading < -4 ∨ 6 ≤ x.rounded.leading) :
      Numeral.ExponentForm (x.generalNumeral.text paddedExponent).toList := by
    rw [if_pos hplace] at hexponent
    exact Numeral.exponentForm_text hproper hlast hexponent
  have hplain (hplace : ¬ (x.rounded.leading < -4 ∨ 6 ≤ x.rounded.leading)) :
      Numeral.PlainForm (x.generalNumeral.text paddedExponent).toList := by
    rw [if_neg hplace] at hexponent
    exact Numeral.plainForm_text hproper hlast hexponent paddedExponent
  rw [← general_of_finite hfinite] at hscientific hplain
  exact
    { rounds := Decimal.rounds_iff (magnitude_pos hzero)
      low := Decimal.pow_leading_le (coefficient_rounded_ne_zero hzero)
      high := Decimal.lt_pow_leading x.rounded
      read := by
        rw [general_of_finite hfinite]
        exact Numeral.numeral_padded hproper
      value := value_generalNumeral hzero
      exponent := hexponent
      exponentForm :=
        ⟨fun h => by_contra fun hplace => h.not_plainForm (hplain hplace), hscientific⟩
      plainForm := ⟨fun h hplace => (hscientific hplace).not_plainForm h, hplain⟩
      whole := fun hplace k hk => by
        rw [general_of_finite hfinite]
        exact text_of_whole hzero hplace hk
      printed := by rw [general_of_finite hfinite, printed_eq hzero] }

/-- The text of every double: names for what is no number or has no digits, and six digits of any
other number. -/
theorem general_spec (x : Double) :
    (x.isNaN = true → x.general = "nan") ∧
      (x.isInfinite = true → x.general = if x.isNegative then "-inf" else "inf") ∧
      (x.isZero = true → x.general = if x.isNegative then "-0" else "0") ∧
      (x.isFinite = true → x.isZero = false → ∃ d place n, Shows x d place n) := by
  refine ⟨fun hnan => ?_, fun hinfinite => ?_, fun hzero => ?_,
    fun hfinite hzero => ⟨_, _, _, shows_rounded hfinite hzero⟩⟩
  · rw [general, if_pos hnan]
  · have hnan : x.isNaN = false := by
      simp only [isInfinite, Bool.and_eq_true, beq_iff_eq] at hinfinite
      simp [isNaN, hinfinite.2]
    rw [general, hnan, if_neg Bool.false_ne_true, if_pos hinfinite]
  · have hfinite : x.isFinite = true := by
      simp only [isZero, Bool.and_eq_true, beq_iff_eq] at hzero
      simp [isFinite, hzero.1, topField]
    rw [general_of_finite hfinite, generalNumeral, if_pos hzero]
    cases x.isNegative <;> rfl

/-- Rounding 999999.5 carries to a seventh digit, so this number is shown in exponent form. -/
theorem general_spec_carry :
    (⟨4696837142389719040⟩ : Double).isFinite = true ∧
      (⟨4696837142389719040⟩ : Double).isZero = false ∧
      (⟨4696837142389719040⟩ : Double).magnitude = 1999999 / 2 ∧
      (⟨4696837142389719040⟩ : Double).general = "1e+06" ∧
      ∃ d place n, Shows ⟨4696837142389719040⟩ d place n :=
  ⟨by decide, by decide, by decide +kernel, by decide +kernel,
    (general_spec ⟨4696837142389719040⟩).2.2.2 (by decide) (by decide)⟩

end Double

end CodeDump
