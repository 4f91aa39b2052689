import Mathlib.Algebra.Order.Ring.Abs
import Mathlib.Tactic.FieldSimp
import Mathlib.Tactic.Linarith
import Mathlib.Tactic.Ring
import CodeDump.Proofs.Decimals

/-!
# Rounding to significant digits

`Decimal.Rounds k r d` says that `d` is `r` rounded to `k` significant digits: it lies on the grid
on which `r` has `k` digits, no other decimal there is nearer, and a half goes to the even one.
There is exactly one such decimal, and `Decimal.significant` is the same number without trailing
zeros. Rounding may carry into a new power of ten, so the place of the first digit is that of the
decimal and not that of the number; rounding on the grid that belongs to the decimal's own first
digit makes no difference.
-/

namespace CodeDump

namespace Double

theorem abs_sub_roundHalfEven_le (r : Rat) : |r - roundHalfEven r| ≤ 1 / 2 := by
  have hlow := Rat.floor_le r
  have hhigh := Rat.lt_floor_add_one r
  rw [Int.cast_add, Int.cast_one] at hhigh
  dsimp only [roundHalfEven]
  split_ifs
  all_goals
    push_cast
    rw [abs_le]
    constructor <;> linarith

theorem roundHalfEven_even (r : Rat) (h : |r - roundHalfEven r| = 1 / 2) :
    roundHalfEven r % 2 = 0 := by
  have hlow := Rat.floor_le r
  have hhigh := Rat.lt_floor_add_one r
  rw [Int.cast_add, Int.cast_one] at hhigh
  dsimp only [roundHalfEven] at h ⊢
  split_ifs at h ⊢ with hless hmore heven
  · rw [abs_of_nonneg (by linarith)] at h
    linarith
  · push_cast at h
    rw [abs_of_nonpos (by linarith)] at h
    linarith
  · exact heven
  · omega

/-- A nearest integer that is even if there are two is the rounded one. -/
theorem eq_roundHalfEven {r : Rat} {n : Int} (hnear : |r - n| ≤ 1 / 2)
    (heven : |r - n| = 1 / 2 → n % 2 = 0) : n = roundHalfEven r := by
  have hnear' := abs_sub_roundHalfEven_le r
  have heven' := roundHalfEven_even r
  generalize roundHalfEven r = m at hnear' heven' ⊢
  rw [abs_le] at hnear hnear'
  have hle : (n : Rat) ≤ m + 1 := by linarith
  have hge : (m : Rat) ≤ n + 1 := by linarith
  have hle' : n ≤ m + 1 := by exact_mod_cast hle
  have hge' : m ≤ n + 1 := by exact_mod_cast hge
  by_contra hne
  -- Two different integers at most a half away are both exactly a half away.
  have htie : |r - n| = 1 / 2 ∧ |r - m| = 1 / 2 := by
    have hnext : n = m + 1 ∨ m = n + 1 := by omega
    rcases hnext with h | h
    · have hcast : (n : Rat) = m + 1 := by rw [h]; push_cast; ring
      constructor
      · rw [abs_of_nonpos (by linarith)]; linarith
      · rw [abs_of_nonneg (by linarith)]; linarith
    · have hcast : (m : Rat) = n + 1 := by rw [h]; push_cast; ring
      constructor
      · rw [abs_of_nonneg (by linarith)]; linarith
      · rw [abs_of_nonpos (by linarith)]; linarith
  have hn := heven htie.1
  have hm := heven' htie.2
  omega

/-- Integers around a number are also around the rounded one. -/
theorem roundHalfEven_bounds {r : Rat} {m n : Int} (hm : (m : Rat) ≤ r) (hn : r ≤ n) :
    m ≤ roundHalfEven r ∧ roundHalfEven r ≤ n := by
  have hnear := abs_sub_roundHalfEven_le r
  rw [abs_le] at hnear
  have hlow : (m : Rat) < roundHalfEven r + 1 := by linarith
  have hhigh : (roundHalfEven r : Rat) < n + 1 := by linarith
  constructor
  · exact Int.lt_add_one_iff.mp (by exact_mod_cast hlow)
  · exact Int.lt_add_one_iff.mp (by exact_mod_cast hhigh)

/-- How far a number is from a point of a grid, in units of the grid. -/
theorem abs_sub_mul {u : Rat} (hu : 0 < u) (r : Rat) (n : Int) :
    |r - n * u| = |r / u - n| * u := by
  rw [← abs_of_pos hu, ← abs_mul, abs_of_pos hu, sub_mul, div_mul_cancel₀ _ hu.ne']

end Double

namespace Decimal

theorem pow_ten_pos (e : Int) : (0 : Rat) < 10 ^ e := by positivity

theorem pow_ten_add (e f : Int) : (10 : Rat) ^ (e + f) = 10 ^ e * 10 ^ f :=
  zpow_add₀ (by norm_num) e f

theorem lt_pow_decimalExponent {r : Rat} (hr : 0 < r) :
    r < (10 : Rat) ^ (decimalExponent r + 1) := by
  unfold decimalExponent
  by_cases h : 1 ≤ r
  · rw [if_pos h]
    have hfloor : 1 ≤ r.floor := Rat.le_floor_iff.mpr (by exact_mod_cast h)
    have hlt := Radix.lt_pow_length_digits (b := 10) (by omega) r.floor.toNat
    generalize (Radix.digits 10 r.floor.toNat).length = k at hlt ⊢
    have hint : r.floor < ((10 ^ k : Nat) : Int) := by omega
    have hrat := Rat.floor_lt_iff.mp hint
    rw [Int.cast_natCast, Nat.cast_pow] at hrat
    rw [sub_add_cancel, zpow_natCast]
    exact hrat
  · rw [if_neg h]
    have hone : 1 < 1 / r := (one_lt_div hr).mpr (lt_of_not_ge h)
    have hceil : 1 < (1 / r).ceil := Rat.lt_ceil_iff.mpr (by exact_mod_cast hone)
    have hne : (1 / r).ceil.toNat - 1 ≠ 0 := by omega
    have hpow := Radix.pow_length_digits_le (b := 10) (by omega) hne
    have hlen : 0 < (Radix.digits 10 ((1 / r).ceil.toNat - 1)).length :=
      List.length_pos_of_ne_nil (Radix.digits_ne_nil 10 _)
    generalize (Radix.digits 10 ((1 / r).ceil.toNat - 1)).length = k at hpow hlen ⊢
    have hint : ((10 ^ (k - 1) : Nat) : Int) < (1 / r).ceil := by omega
    have hrat := Rat.lt_ceil_iff.mp hint
    rw [Int.cast_natCast, Nat.cast_pow] at hrat
    have hexp : -(k : Int) + 1 = -((k - 1 : Nat) : Int) := by omega
    rw [hexp, zpow_neg, zpow_natCast, ← one_div]
    exact (lt_one_div (by positivity) hr).mp hrat

/-- The first digit of a decimal stands where its value lies. -/
theorem pow_leading_le {d : Decimal} (h : d.coefficient ≠ 0) :
    (10 : Rat) ^ d.leading ≤ d.value := by
  have hpow := Radix.pow_length_digits_le (b := 10) (by omega) h
  have hlen : 0 < d.digits.length := List.length_pos_of_ne_nil (Radix.digits_ne_nil 10 _)
  have hexp : d.leading = ((d.digits.length - 1 : Nat) : Int) + d.exponent := by
    unfold leading
    omega
  rw [hexp, pow_ten_add, zpow_natCast, value]
  apply mul_le_mul_of_nonneg_right _ (pow_ten_pos _).le
  exact_mod_cast hpow

theorem lt_pow_leading (d : Decimal) : d.value < (10 : Rat) ^ (d.leading + 1) := by
  have hlt := Radix.lt_pow_length_digits (b := 10) (by omega) d.coefficient
  have hexp : d.leading + 1 = (d.digits.length : Int) + d.exponent := by
    unfold leading
    omega
  rw [hexp, pow_ten_add, zpow_natCast, value]
  apply mul_lt_mul_of_pos_right _ (pow_ten_pos _)
  exact_mod_cast hlt

/-- The decimal is the number rounded to `k` significant digits, a half to even. -/
structure Rounds (k : Nat) (r : Rat) (d : Decimal) : Prop where
  low : (10 : Rat) ^ (d.exponent + k - 1) ≤ r
  high : r < (10 : Rat) ^ (d.exponent + k)
  near : |r - d.value| ≤ 10 ^ d.exponent / 2
  even : |r - d.value| = 10 ^ d.exponent / 2 → d.coefficient % 2 = 0

/-- A number rounded on the grid of a power of ten. -/
def onGrid (e : Int) (r : Rat) : Decimal := ⟨(Double.roundHalfEven (r / 10 ^ e)).toNat, e⟩

theorem significant_eq (k : Nat) (r : Rat) :
    significant k r = (onGrid (gridExponent k r) r).trim := rfl

/-- How far a number is from a decimal, in units of its grid. -/
theorem abs_sub_value (r : Rat) (d : Decimal) :
    |r - d.value| = |r / 10 ^ d.exponent - (d.coefficient : Int)| * 10 ^ d.exponent := by
  rw [value, ← Double.abs_sub_mul (pow_ten_pos d.exponent), Int.cast_natCast]

/-- A decimal is the rounded number on its grid exactly if none there is nearer and it is the even
one of two that are equally near. -/
theorem eq_onGrid_iff {r : Rat} (hr : 0 < r) (d : Decimal) :
    d = onGrid d.exponent r ↔
      |r - d.value| ≤ 10 ^ d.exponent / 2 ∧
        (|r - d.value| = 10 ^ d.exponent / 2 → d.coefficient % 2 = 0) := by
  have hpos := pow_ten_pos d.exponent
  have hround : 0 ≤ Double.roundHalfEven (r / 10 ^ d.exponent) :=
    (Double.roundHalfEven_bounds (by exact_mod_cast (div_pos hr hpos).le) (Rat.le_ceil)).1
  have hle : |r - d.value| ≤ 10 ^ d.exponent / 2 ↔
      |r / 10 ^ d.exponent - (d.coefficient : Int)| ≤ 1 / 2 := by
    rw [abs_sub_value, ← le_div_iff₀ hpos, div_right_comm, div_self hpos.ne']
  have heq : |r - d.value| = 10 ^ d.exponent / 2 ↔
      |r / 10 ^ d.exponent - (d.coefficient : Int)| = 1 / 2 := by
    rw [abs_sub_value, ← eq_div_iff hpos.ne', div_right_comm, div_self hpos.ne']
  rw [hle, heq]
  constructor
  · intro hd
    have hcoefficient : (d.coefficient : Int) = Double.roundHalfEven (r / 10 ^ d.exponent) := by
      rw [hd]
      exact Int.toNat_of_nonneg hround
    rw [hcoefficient]
    refine ⟨Double.abs_sub_roundHalfEven_le _, fun htie => ?_⟩
    have heven := Double.roundHalfEven_even _ htie
    omega
  · rintro ⟨hnear, heven⟩
    have hcoefficient := Double.eq_roundHalfEven hnear fun htie => by
      have := heven htie
      omega
    rw [onGrid, ← hcoefficient, Int.toNat_natCast]

/-- There is exactly one rounded number. -/
theorem rounds_iff {k : Nat} {r : Rat} (hr : 0 < r) (d : Decimal) :
    Rounds k r d ↔ d = onGrid (gridExponent k r) r := by
  have hlow := pow_decimalExponent_le hr
  have hhigh := lt_pow_decimalExponent hr
  have hten : (1 : Rat) < 10 := by norm_num
  constructor
  · rintro ⟨hlow', hhigh', hnear, heven⟩
    have hle : d.exponent + k - 1 < decimalExponent r + 1 :=
      (zpow_lt_zpow_iff_right₀ hten).mp (hlow'.trans_lt hhigh)
    have hge : decimalExponent r < d.exponent + k :=
      (zpow_lt_zpow_iff_right₀ hten).mp (hlow.trans_lt hhigh')
    have hexp : d.exponent = gridExponent k r := by
      unfold gridExponent
      omega
    rw [← hexp]
    exact (eq_onGrid_iff hr d).mpr ⟨hnear, heven⟩
  · intro hd
    have hexp : d.exponent = gridExponent k r := by rw [hd]; rfl
    have hgrid := (eq_onGrid_iff hr d).mp (hexp ▸ hd)
    have hplace : decimalExponent r = d.exponent + k - 1 := by
      unfold gridExponent at hexp
      omega
    rw [hplace] at hlow hhigh
    exact ⟨hlow, by rwa [sub_add_cancel] at hhigh, hgrid.1, hgrid.2⟩

/-- The coefficient of a rounded number has `k` digits, unless rounding carries to the next power
of ten. -/
theorem coefficient_onGrid {k : Nat} (hk : 1 ≤ k) {r : Rat} (hr : 0 < r) :
    10 ^ (k - 1) ≤ (onGrid (gridExponent k r) r).coefficient ∧
      (onGrid (gridExponent k r) r).coefficient ≤ 10 ^ k := by
  have hpos := pow_ten_pos (gridExponent k r)
  have hlow : ((10 ^ (k - 1) : Nat) : Rat) ≤ r / 10 ^ gridExponent k r := by
    rw [le_div_iff₀ hpos, Nat.cast_pow, ← zpow_natCast]
    have hexp : decimalExponent r = ((k - 1 : Nat) : Int) + gridExponent k r := by
      unfold gridExponent
      omega
    have hle := pow_decimalExponent_le hr
    rw [hexp, pow_ten_add] at hle
    exact hle
  have hhigh : r / 10 ^ gridExponent k r ≤ ((10 ^ k : Nat) : Rat) := by
    rw [div_le_iff₀ hpos, Nat.cast_pow, ← zpow_natCast]
    have hexp : decimalExponent r + 1 = (k : Int) + gridExponent k r := by
      unfold gridExponent
      omega
    have hlt := lt_pow_decimalExponent hr
    rw [hexp, pow_ten_add] at hlt
    exact hlt.le
  have hbounds := Double.roundHalfEven_bounds
    (hlow.trans_eq' (Int.cast_natCast (10 ^ (k - 1))))
    (hhigh.trans_eq (Int.cast_natCast (10 ^ k)).symm)
  refine ⟨?_, Int.toNat_le.mpr hbounds.2⟩
  have hle := Int.toNat_le_toNat hbounds.1
  rwa [Int.toNat_natCast] at hle

/-- The rounded number with exactly `k` digits again after a carry. -/
def normalized (k : Nat) (r : Rat) : Decimal :=
  let d := onGrid (gridExponent k r) r
  if d.coefficient = 10 ^ k then ⟨10 ^ (k - 1), d.exponent + 1⟩ else d

theorem coefficient_normalized {k : Nat} (hk : 1 ≤ k) {r : Rat} (hr : 0 < r) :
    10 ^ (k - 1) ≤ (normalized k r).coefficient ∧ (normalized k r).coefficient < 10 ^ k := by
  have hbounds := coefficient_onGrid hk hr
  unfold normalized
  dsimp only
  split_ifs with hcarry
  · exact ⟨le_rfl, Nat.pow_lt_pow_right (by omega) (by omega)⟩
  · omega

theorem coefficient_normalized_ne_zero {k : Nat} (hk : 1 ≤ k) {r : Rat} (hr : 0 < r) :
    (normalized k r).coefficient ≠ 0 := by
  have hpos : 0 < 10 ^ (k - 1) := Nat.pow_pos (by omega)
  have hbounds := coefficient_normalized hk hr
  omega

theorem length_digits_normalized {k : Nat} (hk : 1 ≤ k) {r : Rat} (hr : 0 < r) :
    (normalized k r).digits.length = k := by
  have hbounds := coefficient_normalized hk hr
  have hne := coefficient_normalized_ne_zero hk hr
  have hlow := (Radix.pow_length_digits_le (b := 10) (by omega) hne).trans_lt hbounds.2
  have hhigh := hbounds.1.trans_lt
    (Radix.lt_pow_length_digits (b := 10) (by omega) (normalized k r).coefficient)
  have hle := (Nat.pow_lt_pow_iff_right (by omega)).mp hlow
  have hge := (Nat.pow_lt_pow_iff_right (by omega)).mp hhigh
  unfold digits
  omega

theorem leading_normalized {k : Nat} (hk : 1 ≤ k) {r : Rat} (hr : 0 < r) :
    (normalized k r).leading = (normalized k r).exponent + k - 1 := by
  rw [leading, length_digits_normalized hk hr]

/-- Rounding on the grid of the carried decimal gives this decimal once more. -/
theorem normalized_eq_onGrid {k : Nat} (hk : 1 ≤ k) {r : Rat} (hr : 0 < r) :
    normalized k r = onGrid (normalized k r).exponent r := by
  have hgrid := (eq_onGrid_iff hr (onGrid (gridExponent k r) r)).mp rfl
  unfold normalized
  dsimp only
  split_ifs with hcarry
  · rw [eq_onGrid_iff hr]
    generalize onGrid (gridExponent k r) r = d at hgrid hcarry ⊢
    have hvalue : (⟨10 ^ (k - 1), d.exponent + 1⟩ : Decimal).value = d.value := by
      have hpow : (10 : Rat) ^ k = 10 ^ (k - 1) * 10 := by rw [← pow_succ, Nat.sub_add_cancel hk]
      rw [value, value, hcarry, pow_ten_add, zpow_one, Nat.cast_pow, Nat.cast_pow,
        Nat.cast_ofNat, hpow]
      ring
    -- A tenth of the coarser grid's unit is too little for a tie.
    have hless : |r - d.value| < 10 ^ (d.exponent + 1) / 2 := by
      have hpos := pow_ten_pos d.exponent
      rw [pow_ten_add, zpow_one]
      linarith [hgrid.1]
    rw [hvalue]
    exact ⟨hless.le, fun htie => absurd htie hless.ne⟩
  · rfl

theorem value_trim (d : Decimal) : d.trim.value = d.value := by
  fun_induction trim d with
  | case1 d hd ih =>
    have hten : d.coefficient = 10 * (d.coefficient / 10) := by omega
    rw [ih, value, value, pow_ten_add, zpow_one]
    nth_rewrite 2 [hten]
    push_cast
    ring
  | case2 d hd => rfl

theorem coefficient_trim_mod {d : Decimal} (h : d.coefficient ≠ 0) :
    d.trim.coefficient % 10 ≠ 0 := by
  fun_induction trim d with
  | case1 d hd ih =>
    apply ih
    dsimp only
    omega
  | case2 d hd => omega

/-- The digits that were left out are zeros. -/
theorem digits_trim {d : Decimal} (h : d.coefficient ≠ 0) :
    d.exponent ≤ d.trim.exponent ∧
      d.digits = d.trim.digits ++ List.replicate (d.trim.exponent - d.exponent).toNat 0 := by
  fun_induction trim d with
  | case1 d hd ih =>
    obtain ⟨hexp, hdigits⟩ := ih (by dsimp only; omega)
    dsimp only at hexp hdigits
    have hsucc : (trim ⟨d.coefficient / 10, d.exponent + 1⟩).exponent - d.exponent =
        (trim ⟨d.coefficient / 10, d.exponent + 1⟩).exponent - (d.exponent + 1) + 1 := by omega
    refine ⟨by omega, ?_⟩
    rw [hsucc, Int.toNat_add (by omega) (by omega), List.replicate_add, ← List.append_assoc,
      ← hdigits]
    have hten : 10 ≤ d.coefficient := by omega
    have hstep := Radix.digits_of_le (by omega) hten
    rw [hd.2] at hstep
    exact hstep
  | case2 d hd => simp

theorem leading_trim {d : Decimal} (h : d.coefficient ≠ 0) : d.trim.leading = d.leading := by
  obtain ⟨hexp, hdigits⟩ := digits_trim h
  rw [leading, leading, hdigits, List.length_append, List.length_replicate]
  omega

theorem trim_of_mod {d : Decimal} (h : d.coefficient ≠ 0) (hmod : d.coefficient % 10 = 0) :
    d.trim = trim ⟨d.coefficient / 10, d.exponent + 1⟩ := by
  rw [trim, if_pos ⟨h, hmod⟩]

theorem trim_of_mod_ne {d : Decimal} (h : d.coefficient % 10 ≠ 0) : d.trim = d := by
  rw [trim, if_neg fun hd => h hd.2]

theorem trim_normalized {k : Nat} (hk : 1 ≤ k) (r : Rat) :
    (normalized k r).trim = significant k r := by
  unfold normalized
  rw [significant_eq]
  dsimp only
  split_ifs with hcarry
  · have hpow : 10 ^ k = 10 ^ (k - 1) * 10 := by rw [← pow_succ, Nat.sub_add_cancel hk]
    have hpos : 0 < 10 ^ (k - 1) := Nat.pow_pos (by omega)
    have hstep := trim_of_mod (d := onGrid (gridExponent k r) r) (by omega) (by omega)
    rw [hstep, hcarry, hpow, Nat.mul_div_cancel _ (by omega)]
  · rfl

end Decimal

end CodeDump
