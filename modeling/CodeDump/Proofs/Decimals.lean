import Mathlib.Algebra.Order.Field.Power
import Mathlib.Data.Rat.Floor
import CodeDump.Number.Reading
import CodeDump.Proofs.Numerals

/-!
# Digits of doubles

A positive number lies above the power of ten that its decimal exponent gives, so on every grid
of decimals it has a neighbour that is not zero. The shortest decimal of a double other than
zero therefore has a first digit, and this is what makes its numeral a well-formed one: digits
below ten and no zero in front of others.
-/

namespace CodeDump

namespace Radix

theorem pow_length_digits_le {b : Nat} (hb : 2 ≤ b) {n : Nat} (hn : n ≠ 0) :
    b ^ ((digits b n).length - 1) ≤ n := by
  induction n using Nat.strongRecOn with
  | ind n ih =>
    by_cases h : n < b
    · rw [digits_of_lt h]
      simp
      omega
    · have hdiv : n / b ≠ 0 := Nat.div_ne_zero_iff.mpr ⟨by omega, by omega⟩
      have hrec := ih (n / b) (Nat.div_lt_self (by omega) (by omega)) hdiv
      have hlen : 0 < (digits b (n / b)).length :=
        List.length_pos_of_ne_nil (digits_ne_nil b _)
      rw [digits_of_le hb (by omega), List.length_append, List.length_singleton,
        Nat.add_sub_cancel]
      calc b ^ (digits b (n / b)).length
          = b ^ ((digits b (n / b)).length - 1) * b := by rw [← pow_succ, Nat.sub_add_cancel hlen]
        _ ≤ n / b * b := Nat.mul_le_mul_right b hrec
        _ ≤ n := Nat.div_mul_le_self n b

theorem lt_pow_length_digits {b : Nat} (hb : 2 ≤ b) (n : Nat) : n < b ^ (digits b n).length := by
  induction n using Nat.strongRecOn with
  | ind n ih =>
    by_cases h : n < b
    · rw [digits_of_lt h]
      simpa using h
    · have hrec := ih (n / b) (Nat.div_lt_self (by omega) (by omega))
      rw [digits_of_le hb (by omega), List.length_append, List.length_singleton, pow_succ]
      exact (Nat.div_lt_iff_lt_mul (by omega)).mp hrec

end Radix

namespace Decimal

theorem pow_decimalExponent_le {r : Rat} (hr : 0 < r) : (10 : Rat) ^ decimalExponent r ≤ r := by
  unfold decimalExponent
  by_cases h : 1 ≤ r
  · rw [if_pos h]
    have hfloor : 1 ≤ r.floor := Rat.le_floor_iff.mpr (by exact_mod_cast h)
    have hpow := Radix.pow_length_digits_le (show 2 ≤ 10 by omega)
      (show r.floor.toNat ≠ 0 by omega)
    have hlen : 0 < (Radix.digits 10 r.floor.toNat).length :=
      List.length_pos_of_ne_nil (Radix.digits_ne_nil 10 _)
    generalize (Radix.digits 10 r.floor.toNat).length = k at hpow hlen ⊢
    calc (10 : Rat) ^ ((k : Int) - 1)
        = (10 : Rat) ^ ((k - 1 : Nat) : Int) := by rw [Int.ofNat_sub hlen]; rfl
      _ = ((10 ^ (k - 1) : Nat) : Rat) := by rw [zpow_natCast, Nat.cast_pow]; rfl
      _ ≤ ((r.floor.toNat : Nat) : Rat) := Nat.cast_le.mpr hpow
      _ = ((r.floor.toNat : Int) : Rat) := (Int.cast_natCast _).symm
      _ = (r.floor : Rat) := by rw [Int.toNat_of_nonneg (by omega)]
      _ ≤ r := Rat.floor_le r
  · rw [if_neg h]
    have hlt := Radix.lt_pow_length_digits (show 2 ≤ 10 by omega) ((1 / r).ceil.toNat - 1)
    generalize (Radix.digits 10 ((1 / r).ceil.toNat - 1)).length = k at hlt ⊢
    have hceil : (1 / r).ceil ≤ ((10 ^ k : Nat) : Int) := by omega
    have hinv : 1 / r ≤ (10 : Rat) ^ k := by
      have hle := Rat.ceil_le_iff.mp hceil
      rwa [Int.cast_natCast, Nat.cast_pow] at hle
    rw [zpow_neg, zpow_natCast, ← one_div]
    exact (one_div_le hr (by positivity)).mp hinv

/-- A number has a coefficient of at least one on the grid of its own digits. -/
theorem one_le_floor_div {k : Nat} (hk : 1 ≤ k) {r : Rat} (hr : 0 < r) :
    1 ≤ (r / 10 ^ gridExponent k r).floor := by
  have hgrid : (10 : Rat) ^ gridExponent k r ≤ r := by
    have hle : gridExponent k r ≤ decimalExponent r := by
      unfold gridExponent
      omega
    exact (zpow_le_zpow_right₀ (by norm_num) hle).trans (pow_decimalExponent_le hr)
  have hpos : (0 : Rat) < 10 ^ gridExponent k r := by positivity
  rw [Rat.le_floor_iff, Int.cast_one, le_div_iff₀ hpos, one_mul]
  exact hgrid

theorem coefficient_trim_ne_zero (d : Decimal) (h : d.coefficient ≠ 0) :
    d.trim.coefficient ≠ 0 := by
  fun_induction trim d with
  | case1 d hd ih =>
    apply ih
    have hten : 10 ≤ d.coefficient := Nat.le_of_dvd (by omega) (Nat.dvd_of_mod_eq_zero hd.2)
    exact Nat.div_ne_zero_iff.mpr ⟨by omega, hten⟩
  | case2 d hd => exact h

theorem coefficient_significant_ne_zero {k : Nat} (hk : 1 ≤ k) {r : Rat} (hr : 0 < r) :
    (significant k r).coefficient ≠ 0 := by
  have hfloor := one_le_floor_div hk hr
  apply coefficient_trim_ne_zero
  have hround : 1 ≤ Double.roundHalfEven (r / 10 ^ gridExponent k r) := by
    dsimp only [Double.roundHalfEven]
    split_ifs
    all_goals omega
  show (Double.roundHalfEven (r / 10 ^ gridExponent k r)).toNat ≠ 0
  omega

end Decimal

namespace Double

theorem magnitude_pos {x : Double} (h : x.isZero = false) : 0 < x.magnitude := by
  have hsig : 0 < x.significand := by
    unfold significand
    by_cases he : x.exponentField = 0
    · rw [if_pos he]
      simp only [isZero, he, beq_self_eq_true, Bool.true_and, beq_eq_false_iff_ne] at h
      omega
    · rw [if_neg he, fractionBound]
      omega
  have hcast : (0 : Rat) < (x.significand : Rat) := Nat.cast_pos.mpr hsig
  unfold magnitude
  positivity

/-- A neighbour is one of the two grid points around the number. -/
theorem neighbour?_cases {tie : Tie} {x : Double} {k : Nat} {d : Decimal}
    (h : x.neighbour? tie k = some d) :
    d.coefficient = (x.magnitude / 10 ^ Decimal.gridExponent k x.magnitude).floor.toNat ∨
      d.coefficient = (x.magnitude / 10 ^ Decimal.gridExponent k x.magnitude).floor.toNat + 1 := by
  dsimp only [neighbour?] at h
  split at h
  · cases h
    split_ifs
    · exact Or.inl rfl
    · exact Or.inr rfl
    · cases tie with
      | upper => exact Or.inr rfl
      | even =>
        unfold Tie.choose
        dsimp only
        split_ifs
        · exact Or.inl rfl
        · exact Or.inr rfl
  · cases h
    exact Or.inl rfl
  · cases h
    exact Or.inr rfl
  · cases h

theorem coefficient_shortest_ne_zero (tie : Tie) {x : Double} (h : x.isZero = false) :
    (x.shortest tie).coefficient ≠ 0 := by
  have hpos := magnitude_pos h
  apply Decimal.coefficient_trim_ne_zero
  cases hfound : (List.range 17).findSome? fun k => x.neighbour? tie (k + 1) with
  | none => exact Decimal.coefficient_significant_ne_zero (by omega) hpos
  | some d =>
    obtain ⟨k, -, hk⟩ := List.exists_of_findSome?_eq_some hfound
    have hfloor := Decimal.one_le_floor_div (Nat.le_add_left 1 k) hpos
    rw [Option.getD_some]
    rcases neighbour?_cases hk with hd | hd
    · omega
    · omega

end Double

namespace Numeral

/-- Decimal digits, and no zero in front of others. -/
structure Proper (n : Numeral) : Prop where
  whole_ne_nil : n.whole ≠ []
  whole_lt : ∀ d ∈ n.whole, d < 10
  fraction_lt : ∀ d ∈ n.fraction, d < 10
  leading : n.whole.head? = some 0 → n.whole.length = 1

theorem proper_ofNat (n : Nat) : (ofNat n).Proper where
  whole_ne_nil := Radix.digits_ne_nil 10 n
  whole_lt := Radix.digit_lt (by omega) n
  fraction_lt := List.forall_mem_nil _
  leading h := by
    have hn : n = 0 := Radix.eq_zero_of_head?_digits (by omega) n h
    subst n
    rw [ofNat, Radix.digits_of_lt (by omega)]
    rfl

theorem toNat?_ofNat (n : Nat) : (ofNat n).toNat? = some n := by
  rw [toNat?, ofNat]
  simp only [isInteger, List.isEmpty_nil, Option.isNone_none, Bool.and_self, Bool.not_false,
    if_true]
  rw [Radix.ofDigits_digits (by omega)]

theorem proper_scientific (negative : Bool) (d : Decimal) : (scientific negative d).Proper where
  whole_ne_nil := by
    obtain ⟨c, cs, hcs⟩ := List.exists_cons_of_ne_nil (Radix.digits_ne_nil 10 d.coefficient)
    simp [scientific, Decimal.digits, hcs]
  whole_lt e he := Radix.digit_lt (by omega) _ e (List.mem_of_mem_take he)
  fraction_lt e he := Radix.digit_lt (by omega) _ e (List.mem_of_mem_drop he)
  leading _ := by
    obtain ⟨c, cs, hcs⟩ := List.exists_cons_of_ne_nil (Radix.digits_ne_nil 10 d.coefficient)
    simp [scientific, Decimal.digits, hcs]

theorem proper_positional (negative : Bool) {d : Decimal} (h : d.coefficient ≠ 0) :
    (positional negative d).Proper := by
  have hlt : ∀ e ∈ d.digits, e < 10 := Radix.digit_lt (by omega) _
  have hhead : d.digits.head? ≠ some 0 := fun h0 =>
    h (Radix.eq_zero_of_head?_digits (by omega) _ h0)
  obtain ⟨c, cs, hcs⟩ := List.exists_cons_of_ne_nil (Radix.digits_ne_nil 10 d.coefficient)
  change d.digits = c :: cs at hcs
  dsimp only [positional]
  split_ifs with hexp hlen
  · -- The coefficient and zeros behind it.
    refine ⟨?_, ?_, List.forall_mem_nil _, ?_⟩
    · simp [hcs]
    · intro e he
      rcases List.mem_append.mp he with he | he
      · exact hlt e he
      · rw [List.eq_of_mem_replicate he]
        omega
    · intro h0
      rw [hcs] at h0 hhead
      exact absurd h0 hhead
  · -- A zero in front of the point.
    refine ⟨List.cons_ne_nil _ _, ?_, ?_, fun _ => rfl⟩
    · intro e he
      rw [List.mem_singleton.mp he]
      omega
    · intro e he
      rcases List.mem_append.mp he with he | he
      · rw [List.eq_of_mem_replicate he]
        omega
      · exact hlt e he
  · -- The point within the digits.
    obtain ⟨k, hk⟩ : ∃ k, d.digits.length - (-d.exponent).toNat = k + 1 :=
      ⟨d.digits.length - (-d.exponent).toNat - 1, by omega⟩
    have htake : d.digits.take (d.digits.length - (-d.exponent).toNat) = c :: cs.take k := by
      rw [hk, hcs, List.take_succ_cons]
    refine ⟨?_, fun e he => hlt e (List.mem_of_mem_take he),
      fun e he => hlt e (List.mem_of_mem_drop he), ?_⟩
    · rw [htake]
      exact List.cons_ne_nil _ _
    · intro h0
      dsimp only at h0
      rw [htake] at h0
      rw [hcs] at hhead
      exact absurd h0 hhead

theorem proper_pointed {n : Numeral} (h : n.Proper) : n.pointed.Proper := by
  unfold pointed
  split_ifs
  · exact ⟨h.whole_ne_nil, h.whole_lt, by simp, h.leading⟩
  · exact h

end Numeral

namespace Double

theorem proper_shortestNumeral (tie : Tie) (low high : Rat) (x : Double) :
    (x.shortestNumeral tie low high).Proper := by
  unfold shortestNumeral
  cases hzero : x.isZero with
  | true =>
    rw [if_pos rfl]
    exact ⟨List.cons_ne_nil _ _, by simp, by simp, fun _ => rfl⟩
  | false =>
    rw [if_neg Bool.false_ne_true]
    split_ifs
    · exact Numeral.proper_pointed
        (Numeral.proper_positional _ (coefficient_shortest_ne_zero tie hzero))
    · exact Numeral.proper_scientific _ _

theorem proper_exchange? {x : Double} {n : Numeral} (h : x.exchange? = some n) : n.Proper := by
  unfold exchange? at h
  split_ifs at h
  cases h
  exact proper_shortestNumeral _ _ _ x

end Double

end CodeDump
