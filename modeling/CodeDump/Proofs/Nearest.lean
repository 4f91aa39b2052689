import CodeDump.Proofs.Patterns

/-!
# The nearest double

`IsNearest x r` says that no number is nearer to `r` than `x` and that `x` is the even one of two
that are equally near; `IsClosest` says the same of magnitudes. Rounding finds exactly the numbers
that are nearest (`nearest_eq_iff`): on the grid of its own last bit a rational lies within half a
unit of the rounded one, all numbers of a lower exponent are below the first number on this grid,
and those of a higher exponent are on it. So there is one nearest number of a sign, and it is
infinite from the place on where the next power of two is the nearer one.
-/

namespace CodeDump

namespace Double

theorem pow_binaryExponent_le {r : Rat} (hr : 0 < r) :
    (2 : Rat) ^ binaryExponent r ≤ r ∧ r < 2 ^ (binaryExponent r + 1) := by
  have hnum : 0 < r.num := Rat.num_pos.mpr hr
  have hcast : r = (r.num.toNat : Rat) / r.den := by
    have hint : ((r.num.toNat : Int) : Rat) = r.num := by rw [Int.toNat_of_nonneg hnum.le]
    rw [← Int.cast_natCast, hint, Rat.num_div_den]
  have hden : (0 : Rat) < r.den := by exact_mod_cast r.den_pos
  have hne : r.num.toNat ≠ 0 := by omega
  have hnumlow : (2 : Rat) ^ (Nat.log2 r.num.toNat : Int) ≤ r.num.toNat := by
    exact_mod_cast Nat.log2_self_le hne
  have hnumhigh : (r.num.toNat : Rat) < 2 ^ ((Nat.log2 r.num.toNat : Int) + 1) := by
    exact_mod_cast Nat.lt_log2_self
  have hdenlow : (2 : Rat) ^ (Nat.log2 r.den : Int) ≤ r.den := by
    exact_mod_cast Nat.log2_self_le r.den_nz
  have hdenhigh : (r.den : Rat) < 2 ^ ((Nat.log2 r.den : Int) + 1) := by
    exact_mod_cast Nat.lt_log2_self
  unfold binaryExponent
  dsimp only
  generalize (Nat.log2 r.num.toNat : Int) = a at hnumlow hnumhigh ⊢
  generalize (Nat.log2 r.den : Int) = c at hdenlow hdenhigh ⊢
  -- The quotient is within a factor of two of the quotient of the powers.
  have hlow : (2 : Rat) ^ (a - c - 1) < r := by
    rw [hcast, lt_div_iff₀ hden]
    calc (2 : Rat) ^ (a - c - 1) * r.den < 2 ^ (a - c - 1) * 2 ^ (c + 1) :=
          mul_lt_mul_of_pos_left hdenhigh (pow_two_pos _)
      _ = 2 ^ a := by rw [← pow_two_add, show a - c - 1 + (c + 1) = a by omega]
      _ ≤ r.num.toNat := hnumlow
  have hhigh : r < (2 : Rat) ^ (a - c + 1) := by
    rw [hcast, div_lt_iff₀ hden]
    calc (r.num.toNat : Rat) < 2 ^ (a + 1) := hnumhigh
      _ = 2 ^ (a - c + 1) * 2 ^ c := by rw [← pow_two_add, show a - c + 1 + c = a + 1 by omega]
      _ ≤ 2 ^ (a - c + 1) * r.den := mul_le_mul_of_nonneg_left hdenlow (pow_two_pos _).le
  split_ifs with hguess
  · exact ⟨hguess, hhigh⟩
  · exact ⟨hlow.le, by rw [sub_add_cancel]; exact lt_of_not_ge hguess⟩

theorem lt_pow_ulpExponent {r : Rat} (hr : 0 < r) : r < 2 ^ (ulpExponent r + 53) := by
  apply (pow_binaryExponent_le hr).2.trans_le
  apply zpow_le_zpow_right₀ (by norm_num)
  unfold ulpExponent
  omega

theorem ulpExponent_eq_or {r : Rat} (hr : 0 < r) :
    ulpExponent r = -1074 ∨ 2 ^ (ulpExponent r + 52) ≤ r := by
  by_cases h : binaryExponent r - 52 ≤ -1074
  · exact Or.inl (max_eq_right h)
  · right
    have heq : ulpExponent r + 52 = binaryExponent r := by
      unfold ulpExponent
      omega
    rw [heq]
    exact (pow_binaryExponent_le hr).1

/-- The coefficient of a number on the grid of its last bit. -/
def coefficient (r : Rat) : Int := roundHalfEven (r / 2 ^ ulpExponent r)

theorem one_le_abs_sub {m n : Int} (h : m ≠ n) : (1 : Rat) ≤ |(m : Rat) - n| := by
  exact_mod_cast Int.one_le_abs (sub_ne_zero.mpr h)

/-- Two integers are not both within half a unit of a number. -/
theorem one_le_abs_sub_add_abs_sub {m n : Int} (h : m ≠ n) (r : Rat) :
    1 ≤ |r - m| + |r - n| := by
  have hone := one_le_abs_sub h
  have htriangle := abs_sub_le (m : Rat) r n
  rw [abs_sub_comm (m : Rat) r] at htriangle
  linarith

/-- No integer is nearer than the rounded one. -/
theorem abs_sub_roundHalfEven_le_abs_sub (r : Rat) (n : Int) :
    |r - roundHalfEven r| ≤ |r - n| := by
  have hhalf := abs_sub_roundHalfEven_le r
  by_cases h : n = roundHalfEven r
  · rw [h]
  · have hone := one_le_abs_sub_add_abs_sub h r
    linarith

section Rounded

variable {r : Rat} (hr : 0 < r)

include hr

theorem coefficient_le : 0 ≤ coefficient r ∧ coefficient r ≤ 2 ^ 53 := by
  have hpos := pow_two_pos (ulpExponent r)
  have hlow : ((0 : Int) : Rat) ≤ r / 2 ^ ulpExponent r := by
    rw [Int.cast_zero]
    exact (div_pos hr hpos).le
  have hhigh : r / 2 ^ ulpExponent r ≤ ((2 ^ 53 : Int) : Rat) := by
    have hlt := lt_pow_ulpExponent hr
    rw [add_comm, pow_two_add] at hlt
    rw [div_le_iff₀ hpos]
    exact_mod_cast hlt.le
  exact roundHalfEven_bounds hlow hhigh

theorem ulpExponent_eq_or_le_coefficient : ulpExponent r = -1074 ∨ 2 ^ 52 ≤ coefficient r := by
  refine (ulpExponent_eq_or hr).imp_right fun hle => ?_
  have hpos := pow_two_pos (ulpExponent r)
  have hlow : ((2 ^ 52 : Int) : Rat) ≤ r / 2 ^ ulpExponent r := by
    rw [add_comm, pow_two_add] at hle
    rw [le_div_iff₀ hpos]
    exact_mod_cast hle
  exact (roundHalfEven_bounds hlow Rat.le_ceil).1

theorem ulpExponent_le (htop : r < 2 ^ (1024 : Int)) : ulpExponent r ≤ 971 := by
  have hlt := (pow_binaryExponent_le hr).1.trans_lt htop
  rw [zpow_lt_zpow_iff_right₀ (by norm_num)] at hlt
  unfold ulpExponent
  omega

end Rounded

/-- The number has the magnitude that is rounded on the grid, and is even if the coefficient is. -/
structure IsRounded (r : Rat) (x : Double) : Prop where
  magnitude : x.magnitude = coefficient r * 2 ^ ulpExponent r
  even : coefficient r % 2 = 0 → x.significand % 2 = 0

theorem isRounded_nearest (negative : Bool) {r : Rat} (hr : 0 < r) (htop : r < 2 ^ (1024 : Int)) :
    IsRounded r (nearest negative r) := by
  obtain ⟨hnonneg, hle⟩ := coefficient_le hr
  have hnormal := ulpExponent_eq_or_le_coefficient hr
  have hexponent := ulpExponent_le hr htop
  have hlow : -1074 ≤ ulpExponent r := le_max_right _ _
  have hk : (ulpExponent r + 1074).toNat ≤ 2045 := by omega
  have hc : (coefficient r).toNat ≤ 2 ^ 53 := by omega
  have hnormal' : (ulpExponent r + 1074).toNat = 0 ∨ 2 ^ 52 ≤ (coefficient r).toNat := by omega
  have hnearest : nearest negative r = ofMagnitudeBits negative
      ((ulpExponent r + 1074).toNat * fractionBound + (coefficient r).toNat) := by
    have hmin : (ulpExponent r + 1074).toNat * fractionBound + (coefficient r).toNat ≤
        topField * fractionBound := by
      unfold fractionBound topField
      omega
    rw [nearest, magnitudeBits, if_neg hr.not_ge]
    exact congrArg _ (min_eq_left hmin)
  have hcast : ((coefficient r).toNat : Rat) = coefficient r := by
    rw [← Int.cast_natCast, Int.toNat_of_nonneg hnonneg]
  have hgrid : ((ulpExponent r + 1074).toNat : Int) - 1074 = ulpExponent r := by omega
  rw [hnearest]
  refine ⟨?_, fun heven => ?_⟩
  · rw [magnitude_ofMagnitudeBits negative hk hc hnormal', hcast, hgrid]
  · rw [significand_ofMagnitudeBits_mod negative hk hc hnormal']
    omega

namespace IsRounded

variable {r : Rat} {x : Double} (h : IsRounded r x)

include h

theorem abs_sub_eq : |r - x.magnitude| =
    |r / 2 ^ ulpExponent r - coefficient r| * 2 ^ ulpExponent r := by
  rw [h.magnitude, abs_sub_mul (pow_two_pos _)]

/-- The number is on the grid of its own last bit, so it is as near as the rounded integer. -/
theorem abs_sub_le_of_grid (n : Int) : |r - x.magnitude| ≤ |r - n * 2 ^ ulpExponent r| := by
  rw [h.abs_sub_eq, abs_sub_mul (pow_two_pos _)]
  exact mul_le_mul_of_nonneg_right (abs_sub_roundHalfEven_le_abs_sub _ _) (pow_two_pos _).le

section Others

variable (hr : 0 < r) (y : Double)

include hr

/-- On a finer grid all numbers are below the number's own power of two, and this is no nearer than
the rounded number. -/
theorem abs_sub_lt_of_lt (hy : y.exponent < ulpExponent r) :
    |r - x.magnitude| < |r - y.magnitude| := by
  have hy' := y.exponent_ge
  have hpow := (ulpExponent_eq_or hr).resolve_left (by omega)
  have hless := magnitude_lt_of_exponent_lt hy
  have hgrid := h.abs_sub_le_of_grid (2 ^ 52)
  have hcast : ((2 ^ 52 : Int) : Rat) * 2 ^ ulpExponent r = 2 ^ (ulpExponent r + 52) := by
    rw [add_comm, pow_two_add]
    norm_cast
  rw [hcast, abs_of_nonneg (sub_nonneg.mpr hpow)] at hgrid
  rw [abs_of_pos (show 0 < r - y.magnitude by linarith)]
  linarith

theorem abs_sub_magnitude_le : |r - x.magnitude| ≤ |r - y.magnitude| := by
  rcases lt_or_ge y.exponent (ulpExponent r) with hlt | hge
  · exact (h.abs_sub_lt_of_lt hr y hlt).le
  · obtain ⟨n, hn, -⟩ := exists_magnitude_eq_mul hge
    rw [hn]
    exact h.abs_sub_le_of_grid n

/-- Two different numbers on the grid that are equally near are both half a unit away. -/
theorem even_of_tie (hne : y.magnitude ≠ x.magnitude)
    (htie : |r - y.magnitude| = |r - x.magnitude|) : x.significand % 2 = 0 := by
  rcases lt_or_ge y.exponent (ulpExponent r) with hlt | hge
  · exact absurd htie (h.abs_sub_lt_of_lt hr y hlt).ne'
  · obtain ⟨n, hn, -⟩ := exists_magnitude_eq_mul hge
    rw [h.abs_sub_eq, hn, abs_sub_mul (pow_two_pos _)] at htie
    have htie' := mul_right_cancel₀ (pow_two_pos _).ne' htie
    have hdiff : n ≠ coefficient r := by
      rintro rfl
      exact hne (hn.trans h.magnitude.symm)
    have hone := one_le_abs_sub_add_abs_sub hdiff (r / 2 ^ ulpExponent r)
    have hhalf := abs_sub_roundHalfEven_le (r / 2 ^ ulpExponent r)
    rw [htie'] at hone
    apply h.even
    apply roundHalfEven_even
    unfold coefficient at hone
    linarith

/-- A number that is as near as the rounded one, and even if it is another one, is the rounded
one. -/
theorem magnitude_eq_of_near (hnear : |r - y.magnitude| ≤ |r - x.magnitude|)
    (heven : y.magnitude ≠ x.magnitude → y.significand % 2 = 0) :
    y.magnitude = x.magnitude := by
  rcases lt_or_ge y.exponent (ulpExponent r) with hlt | hge
  · exact absurd hnear (h.abs_sub_lt_of_lt hr y hlt).not_ge
  · obtain ⟨n, hn, hmod⟩ := exists_magnitude_eq_mul hge
    rw [h.abs_sub_eq, hn, abs_sub_mul (pow_two_pos _)] at hnear
    have hle := (le_of_mul_le_mul_right hnear (pow_two_pos _)).trans (abs_sub_roundHalfEven_le _)
    by_contra hne
    have hcoefficient := eq_roundHalfEven hle fun _ => hmod (heven hne)
    exact hne (hn.trans (hcoefficient ▸ h.magnitude.symm))

end Others

end IsRounded

theorem isNaN_of_isFinite {x : Double} (h : x.isFinite = true) : x.isNaN = false := by
  have hfield : x.exponentField < topField := of_decide_eq_true h
  rw [isNaN, beq_eq_false_iff_ne.mpr hfield.ne, Bool.false_and]

def zero : Double := ⟨0⟩

def infinity : Double := ⟨9218868437227405312⟩

theorem magnitude_zero : zero.magnitude = 0 := by
  have hsignificand : zero.significand = 0 := by decide
  rw [magnitude, hsignificand, Nat.cast_zero, zero_mul]

theorem magnitude_infinity : infinity.magnitude = 2 ^ (1024 : Int) := by
  have hsignificand : infinity.significand = 2 ^ 52 := by decide
  have hexponent : infinity.exponent = 972 := by decide
  have hcast : ((2 ^ 52 : Nat) : Rat) = 2 ^ (52 : Int) := by norm_cast
  rw [magnitude, hsignificand, hexponent, hcast, ← pow_two_add]
  rfl

theorem magnitude_lt_of_isFinite {x : Double} (h : x.isFinite = true) :
    x.magnitude < 2 ^ (1024 : Int) := by
  have hfield : x.exponentField < 2047 := of_decide_eq_true h
  have hexponent : x.exponent < 972 := by
    unfold exponent
    omega
  exact magnitude_lt_of_exponent_lt hexponent

theorem magnitudeBits_le (r : Rat) : magnitudeBits r ≤ topField * fractionBound := by
  unfold magnitudeBits
  split_ifs
  · exact Nat.zero_le _
  · exact Nat.min_le_right _ _

theorem magnitudeBits_lt (r : Rat) : magnitudeBits r < signBit :=
  (magnitudeBits_le r).trans_lt (by decide)

theorem isNegative_nearest (negative : Bool) (r : Rat) :
    (nearest negative r).isNegative = negative :=
  isNegative_ofMagnitudeBits negative (magnitudeBits_lt r)

theorem isNaN_nearest (negative : Bool) (r : Rat) : (nearest negative r).isNaN = false := by
  have hle := magnitudeBits_le r
  rw [isNaN, nearest, exponentField_ofMagnitudeBits negative (magnitudeBits_lt r),
    fraction_ofMagnitudeBits negative (magnitudeBits_lt r)]
  by_cases h : magnitudeBits r / fractionBound = topField
  · have hfraction : magnitudeBits r % fractionBound = 0 := by
      unfold topField fractionBound at *
      omega
    rw [hfraction]
    exact Bool.and_false _
  · rw [beq_eq_false_iff_ne.mpr h, Bool.false_and]

theorem magnitude_nearest_zero (negative : Bool) : (nearest negative 0).magnitude = 0 := by
  rw [nearest, magnitudeBits, if_pos le_rfl]
  cases negative with
  | true =>
    have hsignificand : (ofMagnitudeBits true 0).significand = 0 := by decide
    rw [magnitude, hsignificand, Nat.cast_zero, zero_mul]
  | false => exact magnitude_zero

/-- From the power of two on that stands for infinity, nothing finite is nearest. -/
theorem isFinite_nearest (negative : Bool) {r : Rat} (h : 2 ^ (1024 : Int) ≤ r) :
    (nearest negative r).isFinite = false := by
  have hr : 0 < r := (pow_two_pos _).trans_le h
  have hlt := h.trans_lt (lt_pow_ulpExponent hr)
  rw [zpow_lt_zpow_iff_right₀ (by norm_num)] at hlt
  have hnormal := (ulpExponent_eq_or_le_coefficient hr).resolve_left (by omega)
  have hbits : magnitudeBits r = topField * fractionBound := by
    rw [magnitudeBits, if_neg hr.not_ge]
    apply min_eq_right
    change _ ≤ (ulpExponent r + 1074).toNat * fractionBound + (coefficient r).toNat
    unfold topField fractionBound
    omega
  rw [isFinite, nearest, exponentField_ofMagnitudeBits negative (magnitudeBits_lt r), hbits]
  rfl

/-- No number has a magnitude nearer to `r`, and only if the significand is even can another one be
as near. Infinity takes part with the power of two where it begins. -/
structure IsClosest (x : Double) (r : Rat) : Prop where
  near : ∀ y : Double, y.isNaN = false → |r - x.magnitude| ≤ |r - y.magnitude|
  even : ∀ y : Double, y.isNaN = false → y.magnitude ≠ x.magnitude →
    |r - y.magnitude| = |r - x.magnitude| → x.significand % 2 = 0

theorem isClosest_zero_iff (x : Double) : x.IsClosest 0 ↔ x.magnitude = 0 := by
  constructor
  · intro h
    have hle := h.near zero (by decide)
    rw [magnitude_zero, sub_zero, abs_zero, zero_sub, abs_neg] at hle
    exact abs_eq_zero.mp (le_antisymm hle (abs_nonneg _))
  · intro h
    refine ⟨fun y _ => ?_, fun y _ hne htie => ?_⟩
    · rw [h, sub_zero, abs_zero]
      exact abs_nonneg _
    · rw [h, sub_zero, abs_zero, zero_sub, abs_neg] at htie
      exact absurd ((abs_eq_zero.mp htie).trans h.symm) hne

theorem isClosest_nearest (negative : Bool) {r : Rat} (hr : 0 ≤ r) (htop : r < 2 ^ (1024 : Int)) :
    (nearest negative r).IsClosest r := by
  rcases hr.eq_or_lt with rfl | hpos
  · exact (isClosest_zero_iff _).mpr (magnitude_nearest_zero negative)
  · have hrounded := isRounded_nearest negative hpos htop
    exact ⟨fun y _ => hrounded.abs_sub_magnitude_le hpos y,
      fun y _ hne htie => hrounded.even_of_tie hpos y hne htie⟩

namespace IsClosest

variable {x : Double} {r : Rat} (h : x.IsClosest r)

include h

/-- There is no other magnitude that is closest. -/
theorem eq_nearest (hr : 0 ≤ r) (htop : r < 2 ^ (1024 : Int)) : x = nearest x.isNegative r := by
  apply eq_of_magnitude _ (isNegative_nearest _ _).symm
  rcases hr.eq_or_lt with rfl | hpos
  · rw [(isClosest_zero_iff x).mp h, magnitude_nearest_zero]
  · have hrounded := isRounded_nearest x.isNegative hpos htop
    have hnear := h.near _ (isNaN_nearest x.isNegative r)
    have hother := hrounded.abs_sub_magnitude_le hpos x
    exact hrounded.magnitude_eq_of_near hpos x hnear fun hne =>
      h.even _ (isNaN_nearest x.isNegative r) (Ne.symm hne) (le_antisymm hother hnear)

theorem lt_pow (hx : x.isFinite = true) : r < 2 ^ (1024 : Int) := by
  by_contra htop
  have hle := h.near infinity (by decide)
  have hlt := magnitude_lt_of_isFinite hx
  rw [magnitude_infinity, abs_of_nonneg (by linarith), abs_of_nonneg (by linarith)] at hle
  linarith

end IsClosest

/-- Rounding finds exactly the closest magnitude. -/
theorem nearest_eq_iff {x : Double} (hx : x.isFinite = true) {r : Rat} (hr : 0 ≤ r) :
    nearest x.isNegative r = x ↔ x.IsClosest r := by
  constructor
  · intro h
    have htop : r < 2 ^ (1024 : Int) := by
      by_contra htop
      have hfinite := isFinite_nearest x.isNegative (not_lt.mp htop)
      rw [h, hx] at hfinite
      exact Bool.noConfusion hfinite
    exact h ▸ isClosest_nearest x.isNegative hr htop
  · intro h
    exact (h.eq_nearest hr (h.lt_pow hx)).symm

def signed (negative : Bool) (r : Rat) : Rat := if negative then -r else r

theorem signed_zero (negative : Bool) : signed negative 0 = 0 := by
  cases negative <;> rfl

theorem value_eq_signed (x : Double) : x.value = signed x.isNegative x.magnitude := rfl

theorem abs_signed (negative : Bool) {r : Rat} (hr : 0 ≤ r) : |signed negative r| = r := by
  cases negative with
  | true => exact (abs_neg r).trans (abs_of_nonneg hr)
  | false => exact abs_of_nonneg hr

theorem abs_signed_sub_signed (negative : Bool) (r m : Rat) :
    |signed negative r - signed negative m| = |r - m| := by
  cases negative with
  | true =>
    change |-r - -m| = |r - m|
    rw [neg_sub_neg, abs_sub_comm]
  | false => rfl

/-- Signs bring no two magnitudes nearer to each other. -/
theorem abs_sub_le_abs_signed_sub (negative negative' : Bool) {r m : Rat} (hr : 0 ≤ r)
    (hm : 0 ≤ m) : |r - m| ≤ |signed negative r - signed negative' m| := by
  have hle := abs_abs_sub_abs_le (signed negative r) (signed negative' m)
  rwa [abs_signed negative hr, abs_signed negative' hm] at hle

/-- Different signs tell the same magnitude apart unless it is zero. -/
theorem eq_zero_of_abs_signed_sub {negative negative' : Bool} {r m : Rat} (hr : 0 ≤ r)
    (hm : 0 ≤ m) (hne : signed negative' m ≠ signed negative m)
    (h : |signed negative r - signed negative' m| = |r - m|) : r = 0 := by
  have hsum : |signed negative r - signed negative' m| = r + m := by
    cases negative <;> cases negative'
    · exact absurd rfl hne
    · change |r - -m| = r + m
      rw [sub_neg_eq_add, abs_of_nonneg (by linarith)]
    · change |-r - m| = r + m
      rw [abs_of_nonpos (by linarith)]
      ring
    · exact absurd rfl hne
  have hzero : m ≠ 0 := by
    rintro rfl
    exact hne (by rw [signed_zero, signed_zero])
  rw [hsum] at h
  have hpos : 0 < m := lt_of_le_of_ne hm (Ne.symm hzero)
  rcases abs_cases (r - m) with ⟨habs, _⟩ | ⟨habs, _⟩ <;> linarith

section WithSign

variable (negative : Bool) (x : Double)

theorem toNat_bits_mod_lt : x.bits.toNat % signBit < signBit := Nat.mod_lt _ (by decide)

theorem isNegative_withSign : (x.withSign negative).isNegative = negative :=
  isNegative_ofMagnitudeBits negative x.toNat_bits_mod_lt

theorem exponentField_withSign : (x.withSign negative).exponentField = x.exponentField := by
  rw [withSign, exponentField_ofMagnitudeBits negative x.toNat_bits_mod_lt]
  unfold exponentField fractionBound signBit
  omega

theorem fraction_withSign : (x.withSign negative).fraction = x.fraction := by
  rw [withSign, fraction_ofMagnitudeBits negative x.toNat_bits_mod_lt]
  unfold fraction fractionBound signBit
  omega

theorem isNaN_withSign : (x.withSign negative).isNaN = x.isNaN := by
  rw [isNaN, exponentField_withSign, fraction_withSign, isNaN]

theorem magnitude_withSign : (x.withSign negative).magnitude = x.magnitude := by
  rw [magnitude, significand, exponent, exponentField_withSign, fraction_withSign]
  rfl

theorem value_withSign : (x.withSign negative).value = signed negative x.magnitude := by
  rw [value_eq_signed, isNegative_withSign, magnitude_withSign]

end WithSign

/-- A number, none is nearer, and only if the significand is even can another one be as near.
Infinity takes part with the power of two where it begins. -/
structure IsNearest (x : Double) (r : Rat) : Prop where
  number : x.isNaN = false
  near : ∀ y : Double, y.isNaN = false → |r - x.value| ≤ |r - y.value|
  even : ∀ y : Double, y.isNaN = false → y.value ≠ x.value →
    |r - y.value| = |r - x.value| → x.significand % 2 = 0

/-- Nearest are the numbers of the same sign that have the closest magnitude. -/
theorem isNearest_signed_iff {x : Double} (hx : x.isNaN = false) {r : Rat} (hr : 0 ≤ r) :
    x.IsNearest (signed x.isNegative r) ↔ x.IsClosest r := by
  constructor
  · intro h
    refine ⟨fun y hy => ?_, fun y hy hne htie => ?_⟩
    · have hle := h.near (y.withSign x.isNegative) ((isNaN_withSign _ _).trans hy)
      rwa [value_withSign, value_eq_signed, abs_signed_sub_signed, abs_signed_sub_signed] at hle
    · apply h.even (y.withSign x.isNegative) ((isNaN_withSign _ _).trans hy)
      · rw [value_withSign, value_eq_signed]
        intro heq
        have habs := congrArg abs heq
        rw [abs_signed _ y.magnitude_nonneg, abs_signed _ x.magnitude_nonneg] at habs
        exact hne habs
      · rwa [value_withSign, value_eq_signed, abs_signed_sub_signed, abs_signed_sub_signed]
  · intro h
    refine ⟨hx, fun y hy => ?_, fun y hy hne htie => ?_⟩
    · rw [value_eq_signed, abs_signed_sub_signed]
      exact (h.near y hy).trans (abs_sub_le_abs_signed_sub _ _ hr y.magnitude_nonneg)
    · rw [value_eq_signed x, abs_signed_sub_signed] at htie
      have hge := abs_sub_le_abs_signed_sub x.isNegative y.isNegative hr y.magnitude_nonneg
      have htie' := le_antisymm (hge.trans_eq htie) (h.near y hy)
      by_cases hmagnitude : y.magnitude = x.magnitude
      · -- Two numbers of one magnitude are equally near only to zero, and zero is nearer.
        rw [value_eq_signed, value_eq_signed, hmagnitude] at hne
        rw [value_eq_signed, hmagnitude] at htie
        have hzero := eq_zero_of_abs_signed_sub hr x.magnitude_nonneg hne htie
        rw [hzero] at h
        rw [(isClosest_zero_iff x).mp h, signed_zero, signed_zero] at hne
        exact absurd rfl hne
      · exact h.even y hy hmagnitude htie'

/-- A rational has one nearest number of each sign. -/
theorem isNearest_iff_eq {x : Double} (hx : x.isFinite = true) {r : Rat} (hr : 0 ≤ r)
    (h : nearest x.isNegative r = x) {y : Double} (hy : y.isNegative = x.isNegative) :
    y.IsNearest (signed x.isNegative r) ↔ y = x := by
  have hclosest := (nearest_eq_iff hx hr).mp h
  constructor
  · intro hnearest
    have hnumber := hnearest.number
    rw [← hy, isNearest_signed_iff hnumber hr] at hnearest
    rw [hnearest.eq_nearest hr (hclosest.lt_pow hx), hy, h]
  · rintro rfl
    exact (isNearest_signed_iff (isNaN_of_isFinite hx) hr).mpr hclosest

/-- What is nearest to a number that is not zero has the sign of this number. -/
theorem IsNearest.eq_signed {x : Double} {r : Rat} (h : x.IsNearest r) (hx : 0 < x.magnitude) :
    r = signed x.isNegative |r| := by
  have hle := h.near zero (by decide)
  have hzero : zero.value = 0 := magnitude_zero
  rw [hzero, sub_zero, value_eq_signed] at hle
  generalize x.isNegative = negative at hle ⊢
  cases negative with
  | true =>
    change |r - -x.magnitude| ≤ |r| at hle
    have hneg : r ≤ 0 := by
      by_contra hpos
      rw [abs_of_pos (by linarith), abs_of_pos (by linarith)] at hle
      linarith
    change r = -|r|
    rw [abs_of_nonpos hneg, neg_neg]
  | false =>
    change |r - x.magnitude| ≤ |r| at hle
    have hpos : 0 ≤ r := by
      by_contra hneg
      rw [abs_of_neg (by linarith), abs_of_neg (by linarith)] at hle
      linarith
    exact (abs_of_nonneg hpos).symm

end Double

end CodeDump
