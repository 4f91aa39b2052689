import CodeDump.Proofs.Rounding

/-!
# Patterns and magnitudes

A pattern is its sign, its exponent field and its fraction, and a number is its sign and its
magnitude: two patterns of one sign and one magnitude are the same. The magnitudes of one exponent
are on a grid, and those of a lower exponent are all below those of a higher one. A coefficient on
such a grid is a pattern again, also the one that is too large by one and carries.
-/

namespace CodeDump

namespace Double

theorem pow_two_pos (e : Int) : (0 : Rat) < 2 ^ e := by positivity

theorem pow_two_add (e f : Int) : (2 : Rat) ^ (e + f) = 2 ^ e * 2 ^ f :=
  zpow_add₀ (by norm_num) e f

section Parts

variable (x y : Double)

theorem toNat_bits :
    x.bits.toNat =
      (if x.isNegative then signBit else 0) + (x.exponentField * fractionBound + x.fraction) := by
  have hlt := x.bits.toNat_lt
  unfold isNegative exponentField fraction signBit fractionBound
  split_ifs with h
  · rw [decide_eq_true_eq] at h
    omega
  · rw [decide_eq_true_eq] at h
    omega

theorem fraction_lt : x.fraction < fractionBound := Nat.mod_lt _ (by decide)

theorem significand_lt : x.significand < 2 ^ 53 := by
  have hfraction := x.fraction_lt
  unfold significand
  split_ifs
  · unfold fractionBound at hfraction
    omega
  · unfold fractionBound at hfraction ⊢
    omega

theorem exponent_ge : -1074 ≤ x.exponent := by
  unfold exponent
  omega

/-- Only the numbers of the lowest exponent have no hidden bit. -/
theorem exponent_eq_or_le_significand : x.exponent = -1074 ∨ 2 ^ 52 ≤ x.significand := by
  unfold exponent significand fractionBound
  split_ifs with h
  · rw [h]
    exact Or.inl rfl
  · exact Or.inr (by omega)

theorem magnitude_nonneg : 0 ≤ x.magnitude := by
  unfold magnitude
  have := pow_two_pos x.exponent
  positivity

variable {x y}

theorem eq_of_parts (hsignificand : x.significand = y.significand)
    (hexponent : x.exponent = y.exponent) (hnegative : x.isNegative = y.isNegative) : x = y := by
  have hx := x.toNat_bits
  have hy := y.toNat_bits
  have hfx := x.fraction_lt
  have hfy := y.fraction_lt
  have hfield : x.exponentField = y.exponentField ∧ x.fraction = y.fraction := by
    unfold exponent at hexponent
    unfold significand fractionBound at hsignificand
    unfold fractionBound at hfx hfy
    split_ifs at hsignificand <;> omega
  rw [hnegative, hfield.1, hfield.2, ← hy] at hx
  obtain ⟨bx⟩ := x
  obtain ⟨bz⟩ := y
  exact congrArg Double.mk (UInt64.toNat_inj.mp hx)

/-- A number of a lower exponent is below the least one of the higher exponent. -/
theorem magnitude_lt_of_exponent_lt {e : Int} (h : x.exponent < e) :
    x.magnitude < 2 ^ (e + 52) := by
  have hsignificand : (x.significand : Rat) < 2 ^ (53 : Int) := by exact_mod_cast x.significand_lt
  have hpos := pow_two_pos x.exponent
  calc x.magnitude = (x.significand : Rat) * 2 ^ x.exponent := rfl
    _ < 2 ^ (53 : Int) * 2 ^ x.exponent := mul_lt_mul_of_pos_right hsignificand hpos
    _ = 2 ^ (x.exponent + 53) := by rw [← pow_two_add, add_comm]
    _ ≤ 2 ^ (e + 52) := zpow_le_zpow_right₀ (by norm_num) (by omega)

/-- A number of a higher exponent has its hidden bit. -/
theorem pow_le_magnitude {e : Int} (he : -1074 ≤ e) (h : e < x.exponent) :
    (2 : Rat) ^ (x.exponent + 52) ≤ x.magnitude := by
  have hsignificand : 2 ^ 52 ≤ x.significand :=
    x.exponent_eq_or_le_significand.resolve_left (by omega)
  have hcast : (2 : Rat) ^ (52 : Int) ≤ x.significand := by exact_mod_cast hsignificand
  rw [add_comm, pow_two_add]
  exact mul_le_mul_of_nonneg_right hcast (pow_two_pos _).le

theorem magnitude_lt_magnitude (h : x.exponent < y.exponent) : x.magnitude < y.magnitude :=
  (magnitude_lt_of_exponent_lt h).trans_le (pow_le_magnitude x.exponent_ge h)

/-- A pattern is determined by its sign and its magnitude. -/
theorem eq_of_magnitude (h : x.magnitude = y.magnitude) (hnegative : x.isNegative = y.isNegative) :
    x = y := by
  have hexponent : x.exponent = y.exponent := by
    rcases lt_trichotomy x.exponent y.exponent with hlt | heq | hgt
    · exact absurd h (magnitude_lt_magnitude hlt).ne
    · exact heq
    · exact absurd h (magnitude_lt_magnitude hgt).ne'
  have hsignificand : x.significand = y.significand := by
    rw [magnitude, magnitude, hexponent] at h
    exact_mod_cast mul_right_cancel₀ (pow_two_pos _).ne' h
  exact eq_of_parts hsignificand hexponent hnegative

/-- A number is on the grid of every exponent up to its own, and even there if it is even. -/
theorem exists_magnitude_eq_mul {e : Int} (h : e ≤ x.exponent) :
    ∃ n : Int, x.magnitude = n * 2 ^ e ∧ (x.significand % 2 = 0 → n % 2 = 0) := by
  have hexponent : x.exponent = ((x.exponent - e).toNat : Int) + e := by omega
  refine ⟨((x.significand * 2 ^ (x.exponent - e).toNat : Nat) : Int), ?_, fun heven => ?_⟩
  · rw [magnitude, hexponent, pow_two_add, zpow_natCast]
    push_cast
    rw [← hexponent, mul_assoc]
  · have hdvd : 2 ∣ x.significand * 2 ^ (x.exponent - e).toNat :=
      (Nat.dvd_of_mod_eq_zero heven).mul_right _
    omega

end Parts

section Patterns

variable (negative : Bool) {b : Nat} (h : b < signBit)

include h

theorem toNat_bits_ofMagnitudeBits :
    (ofMagnitudeBits negative b).bits.toNat = (if negative then signBit else 0) + b := by
  unfold ofMagnitudeBits
  unfold signBit at h ⊢
  rw [UInt64.toNat_ofNat_of_lt']
  · split_ifs <;> omega
  · have hsize : UInt64.size = 2 ^ 64 := rfl
    split_ifs <;> omega

theorem isNegative_ofMagnitudeBits : (ofMagnitudeBits negative b).isNegative = negative := by
  rw [isNegative, toNat_bits_ofMagnitudeBits negative h]
  cases negative with
  | true => exact decide_eq_true (Nat.le_add_right _ _)
  | false => exact decide_eq_false (by rw [if_neg Bool.false_ne_true]; omega)

theorem exponentField_ofMagnitudeBits :
    (ofMagnitudeBits negative b).exponentField = b / fractionBound := by
  rw [exponentField, toNat_bits_ofMagnitudeBits negative h]
  unfold signBit at h ⊢
  unfold fractionBound
  split_ifs <;> omega

theorem fraction_ofMagnitudeBits : (ofMagnitudeBits negative b).fraction = b % fractionBound := by
  rw [fraction, toNat_bits_ofMagnitudeBits negative h]
  unfold signBit fractionBound
  split_ifs <;> omega

end Patterns

/-- A coefficient on the grid of an exponent is a pattern, of which significand and exponent are
those of the coefficient unless this is full and carries. -/
theorem parts_ofMagnitudeBits (negative : Bool) {k c : Nat} (hk : k ≤ 2045) (hc : c ≤ 2 ^ 53)
    (hnormal : k = 0 ∨ 2 ^ 52 ≤ c) :
    let x := ofMagnitudeBits negative (k * fractionBound + c)
    (x.significand = c ∧ x.exponent = k - 1074) ∨
      (c = 2 ^ 53 ∧ x.significand = 2 ^ 52 ∧ x.exponent = k - 1074 + 1) := by
  have hlt : k * fractionBound + c < signBit := by
    unfold fractionBound signBit
    omega
  unfold exponent significand
  dsimp only
  rw [exponentField_ofMagnitudeBits negative hlt, fraction_ofMagnitudeBits negative hlt]
  unfold fractionBound
  rcases Nat.lt_or_ge c (2 ^ 53) with hless | hfull
  · left
    split_ifs <;> omega
  · right
    split_ifs <;> omega

section Coefficients

variable (negative : Bool) {k c : Nat} (hk : k ≤ 2045) (hc : c ≤ 2 ^ 53)
  (hnormal : k = 0 ∨ 2 ^ 52 ≤ c)

include hk hc hnormal

theorem magnitude_ofMagnitudeBits :
    (ofMagnitudeBits negative (k * fractionBound + c)).magnitude = c * 2 ^ ((k : Int) - 1074) := by
  rcases parts_ofMagnitudeBits negative hk hc hnormal with ⟨hs, he⟩ | ⟨rfl, hs, he⟩
  · rw [magnitude, hs, he]
  · rw [magnitude, hs, he, pow_two_add, zpow_one]
    push_cast
    ring

theorem significand_ofMagnitudeBits_mod :
    (ofMagnitudeBits negative (k * fractionBound + c)).significand % 2 = c % 2 := by
  rcases parts_ofMagnitudeBits negative hk hc hnormal with ⟨hs, _⟩ | ⟨rfl, hs, _⟩
  · rw [hs]
  · rw [hs]
    omega

end Coefficients

end Double

end CodeDump
