import CodeDump.Proofs.Nearest

/-!
# The shortest decimal

The decimals for which a number is the nearest one lie around this number without a gap. So if a
decimal of some digits is among them, one of the two next to the number on the grid of so many
digits is, and only these have to be looked at. Any other number is away by more than the unit of
the seventeenth digit, so that the search ends there at the latest. What it finds reads back, and
no decimal that reads back has fewer digits.
-/

namespace CodeDump

theorem Radix.length_digits_le {b : Nat} (hb : 2 ≤ b) {n k : Nat} (hk : 1 ≤ k) (h : n < b ^ k) :
    (digits b n).length ≤ k := by
  by_cases hn : n = 0
  · rw [hn, digits_of_lt (by omega)]
    exact hk
  · have hpow := (pow_length_digits_le hb hn).trans_lt h
    have hlt := (Nat.pow_lt_pow_iff_right (by omega)).mp hpow
    omega

theorem Tie.choose_cases (tie : Tie) (low high : Decimal) :
    tie.choose low high = low ∨ tie.choose low high = high := by
  cases tie with
  | upper => exact Or.inr rfl
  | even => exact ite_eq_or_eq _ _ _

namespace Decimal

theorem value_nonneg (d : Decimal) : 0 ≤ d.value :=
  mul_nonneg (Nat.cast_nonneg _) (pow_ten_pos _).le

theorem decimalExponent_eq (k : Nat) (r : Rat) : decimalExponent r = gridExponent k r + k - 1 := by
  unfold gridExponent
  omega

/-- Without its trailing zeros, a coefficient that is at most a power of ten has no more digits than
the numbers below this power. -/
theorem length_digits_trim_le {d : Decimal} (hd : d.coefficient ≠ 0) {k : Nat} (hk : 1 ≤ k)
    (h : d.coefficient ≤ 10 ^ k) : d.trim.digits.length ≤ k := by
  have hle {d : Decimal} (hd : d.coefficient ≠ 0) (h : d.coefficient < 10 ^ k) :
      d.trim.digits.length ≤ k := by
    obtain ⟨-, hdigits⟩ := digits_trim hd
    have hlen := Radix.length_digits_le (b := 10) (by omega) hk h
    rw [← digits, hdigits, List.length_append] at hlen
    omega
  rcases h.eq_or_lt with heq | hlt
  · have hpow : 10 ^ k = 10 ^ (k - 1) * 10 := by rw [← pow_succ, Nat.sub_add_cancel hk]
    have hpos : 0 < 10 ^ (k - 1) := Nat.pow_pos (by omega)
    rw [trim_of_mod hd (by omega)]
    apply hle
    · dsimp only
      omega
    · dsimp only
      omega
  · exact hle hd hlt

end Decimal

namespace Double

namespace IsClosest

variable {x : Double} {r : Rat} (h : x.IsClosest r)

include h

/-- On the way to what it is closest to, a number stays the closest one. -/
theorem of_between {w : Rat} (hw : |r - w| + |w - x.magnitude| ≤ |r - x.magnitude|) :
    x.IsClosest w := by
  have htriangle (y : Double) := abs_sub_le r w y.magnitude
  refine ⟨fun y hy => ?_, fun y hy hne htie => h.even y hy hne (le_antisymm ?_ (h.near y hy))⟩
  · linarith [h.near y hy, htriangle y]
  · linarith [htriangle y]

theorem of_le_of_le {w : Rat} (hr : r ≤ w) (hw : w ≤ x.magnitude) : x.IsClosest w := by
  apply h.of_between
  rw [abs_of_nonpos (by linarith), abs_of_nonpos (by linarith), abs_of_nonpos (by linarith)]
  linarith

theorem of_ge_of_ge {w : Rat} (hr : w ≤ r) (hw : x.magnitude ≤ w) : x.IsClosest w := by
  apply h.of_between
  rw [abs_of_nonneg (by linarith), abs_of_nonneg (by linarith), abs_of_nonneg (by linarith)]
  linarith

end IsClosest

section Gap

variable {x y : Double}

/-- The gap to a number of a lower exponent is least for a power of two. -/
theorem magnitude_div_le_sub (h : y.exponent < x.exponent) :
    x.magnitude / 2 ^ 53 ≤ x.magnitude - y.magnitude := by
  have hunit := pow_two_pos (x.exponent - 1)
  have hy : y.magnitude ≤ (2 ^ 53 - 1) * 2 ^ (x.exponent - 1) := by
    have hsignificand : (y.significand : Rat) ≤ 2 ^ 53 - 1 := by
      have hle : y.significand + 1 ≤ 2 ^ 53 := y.significand_lt
      have hcast : (y.significand : Rat) + 1 ≤ 2 ^ 53 := by exact_mod_cast hle
      linarith
    have hexponent : (2 : Rat) ^ y.exponent ≤ 2 ^ (x.exponent - 1) :=
      zpow_le_zpow_right₀ (by norm_num) (by omega)
    exact mul_le_mul hsignificand hexponent (pow_two_pos _).le (by norm_num)
  have hx : 2 ^ 53 * 2 ^ (x.exponent - 1) ≤ x.magnitude := by
    have hle := pow_le_magnitude y.exponent_ge h
    rwa [show x.exponent + 52 = 53 + (x.exponent - 1) by omega, pow_two_add] at hle
  linarith

/-- Another number is away by a part of the number that depends on the precision alone. -/
theorem magnitude_div_le_abs_sub (hne : y.magnitude ≠ x.magnitude) :
    x.magnitude / 2 ^ 53 ≤ |x.magnitude - y.magnitude| := by
  rcases lt_or_ge y.exponent x.exponent with hlt | hge
  · exact (magnitude_div_le_sub hlt).trans (le_abs_self _)
  · obtain ⟨m, hm, -⟩ := exists_magnitude_eq_mul (le_refl x.exponent)
    obtain ⟨n, hn, -⟩ := exists_magnitude_eq_mul hge
    have hpos := pow_two_pos x.exponent
    have hdiff : m ≠ n := by
      rintro rfl
      exact hne (hn.trans hm.symm)
    have hsignificand : (x.significand : Rat) ≤ 2 ^ 53 := by exact_mod_cast x.significand_lt.le
    calc x.magnitude / 2 ^ 53 ≤ 2 ^ x.exponent := by
          rw [div_le_iff₀ (by norm_num), mul_comm]
          exact mul_le_mul_of_nonneg_right hsignificand hpos.le
      _ ≤ |(m : Rat) - n| * 2 ^ x.exponent :=
          le_mul_of_one_le_left hpos.le (one_le_abs_sub hdiff)
      _ = |x.magnitude - y.magnitude| := by rw [hm, hn, ← sub_mul, abs_mul, abs_of_pos hpos]

theorem isClosest_of_abs_sub_lt {w : Rat} (h : |w - x.magnitude| < x.magnitude / 2 ^ 54) :
    x.IsClosest w := by
  have hlt (y : Double) (hne : y.magnitude ≠ x.magnitude) :
      |w - x.magnitude| < |w - y.magnitude| := by
    have hgap := magnitude_div_le_abs_sub hne
    have htriangle := abs_sub_le x.magnitude w y.magnitude
    rw [abs_sub_comm x.magnitude w] at htriangle
    linarith
  refine ⟨fun y _ => ?_, fun y _ hne htie => absurd htie (hlt y hne).ne'⟩
  by_cases heq : y.magnitude = x.magnitude
  · rw [heq]
  · exact (hlt y heq).le

end Gap

theorem reads_iff {x : Double} (hx : x.isFinite = true) (d : Decimal) :
    x.reads d = true ↔ x.IsClosest d.value := by
  rw [reads, beq_iff_eq]
  exact nearest_eq_iff hx d.value_nonneg

/-- The last decimal with `k` digits up to the number. -/
def below (x : Double) (k : Nat) : Decimal :=
  ⟨(x.magnitude / 10 ^ Decimal.gridExponent k x.magnitude).floor.toNat,
    Decimal.gridExponent k x.magnitude⟩

/-- The first decimal with `k` digits beyond the number. -/
def above (x : Double) (k : Nat) : Decimal :=
  ⟨(x.below k).coefficient + 1, Decimal.gridExponent k x.magnitude⟩

/-- Only one of the two decimals next to a number can be found, and it reads back. -/
theorem reads_of_neighbour? {tie : Tie} {x : Double} {k : Nat} {d : Decimal}
    (h : x.neighbour? tie k = some d) :
    x.reads d = true ∧ (d = x.below k ∨ d = x.above k) := by
  dsimp only [neighbour?] at h
  split at h
  · next hlow hhigh =>
    have hd : d = x.below k ∨ d = x.above k := by
      rw [← Option.some.inj h]
      split_ifs
      · exact Or.inl rfl
      · exact Or.inr rfl
      · exact Tie.choose_cases _ _ _
    refine ⟨?_, hd⟩
    rcases hd with rfl | rfl
    · exact hlow
    · exact hhigh
  · next hlow _ =>
    cases h
    exact ⟨hlow, Or.inl rfl⟩
  · next _ hhigh =>
    cases h
    exact ⟨hhigh, Or.inr rfl⟩
  · cases h

/-- Nothing is found only if neither of the two decimals next to the number reads back. -/
theorem reads_eq_false_of_neighbour? {tie : Tie} {x : Double} {k : Nat}
    (h : x.neighbour? tie k = none) :
    x.reads (x.below k) = false ∧ x.reads (x.above k) = false := by
  dsimp only [neighbour?] at h
  split at h
  · cases h
  · cases h
  · cases h
  · next hlow hhigh => exact ⟨hlow, hhigh⟩

theorem value_above_sub_value_below (x : Double) (k : Nat) :
    (x.above k).value - (x.below k).value = 10 ^ Decimal.gridExponent k x.magnitude := by
  rw [Decimal.value, Decimal.value, above, below]
  push_cast
  ring

/-- Every decimal on the grid is on one side of the two. -/
theorem le_value_below_or_value_above_le (x : Double) (k : Nat) (n : Int) :
    n * 10 ^ Decimal.gridExponent k x.magnitude ≤ (x.below k).value ∨
      (x.above k).value ≤ n * 10 ^ Decimal.gridExponent k x.magnitude := by
  have hpos := Decimal.pow_ten_pos (Decimal.gridExponent k x.magnitude)
  rcases lt_or_ge ((x.below k).coefficient : Int) n with hlt | hge
  · right
    have hcast : (((x.below k).coefficient + 1 : Nat) : Rat) ≤ n := by exact_mod_cast hlt
    exact mul_le_mul_of_nonneg_right hcast hpos.le
  · left
    have hcast : (n : Rat) ≤ ((x.below k).coefficient : Nat) := by exact_mod_cast hge
    exact mul_le_mul_of_nonneg_right hcast hpos.le

section Neighbours

variable {x : Double} (hx : 0 < x.magnitude) {k : Nat}

include hx

theorem coefficient_below : ((x.below k).coefficient : Int) =
    (x.magnitude / 10 ^ Decimal.gridExponent k x.magnitude).floor := by
  apply Int.toNat_of_nonneg
  rw [Rat.le_floor_iff, Int.cast_zero]
  exact (div_pos hx (Decimal.pow_ten_pos _)).le

theorem value_below_le : (x.below k).value ≤ x.magnitude := by
  have hle := Rat.floor_le (x.magnitude / 10 ^ Decimal.gridExponent k x.magnitude)
  rw [← coefficient_below hx, le_div_iff₀ (Decimal.pow_ten_pos _), Int.cast_natCast] at hle
  exact hle

theorem lt_value_above : x.magnitude < (x.above k).value := by
  have hlt := Rat.lt_floor_add_one (x.magnitude / 10 ^ Decimal.gridExponent k x.magnitude)
  rw [← coefficient_below hx, div_lt_iff₀ (Decimal.pow_ten_pos _)] at hlt
  exact_mod_cast hlt

/-- The power of ten of the first digit is on the grid. -/
theorem pow_le_value_below (hk : 1 ≤ k) :
    (10 : Rat) ^ (Decimal.gridExponent k x.magnitude + k - 1) ≤ (x.below k).value := by
  have hexp : Decimal.gridExponent k x.magnitude + k - 1 =
      ((k - 1 : Nat) : Int) + Decimal.gridExponent k x.magnitude := by omega
  have hcast : (((10 ^ (k - 1) : Nat) : Int) : Rat) = 10 ^ ((k - 1 : Nat) : Int) := by norm_cast
  have hplace := Decimal.pow_decimalExponent_le hx
  rw [Decimal.decimalExponent_eq k] at hplace
  rcases le_value_below_or_value_above_le x k (10 ^ (k - 1) : Nat) with hle | hge
  · rwa [hcast, ← Decimal.pow_ten_add, ← hexp] at hle
  · rw [hcast, ← Decimal.pow_ten_add, ← hexp] at hge
    exact absurd (hge.trans hplace) (lt_value_above hx).not_ge

theorem coefficient_above_le : (x.above k).coefficient ≤ 10 ^ k := by
  have hlt : x.magnitude / 10 ^ Decimal.gridExponent k x.magnitude < ((10 ^ k : Nat) : Int) := by
    rw [div_lt_iff₀ (Decimal.pow_ten_pos _), Int.cast_natCast, Nat.cast_pow, ← zpow_natCast]
    have hhigh := Decimal.lt_pow_decimalExponent hx
    rw [Decimal.decimalExponent_eq k, sub_add_cancel, add_comm, Decimal.pow_ten_add] at hhigh
    exact_mod_cast hhigh
  have hfloor := Rat.floor_lt_iff.mpr hlt
  rw [← coefficient_below hx] at hfloor
  exact_mod_cast hfloor

theorem coefficient_of_neighbour? (hk : 1 ≤ k) {tie : Tie} {d : Decimal}
    (h : x.neighbour? tie k = some d) : d.coefficient ≠ 0 ∧ d.coefficient ≤ 10 ^ k := by
  have hlow := Decimal.one_le_floor_div hk hx
  have hhigh := coefficient_above_le hx (k := k)
  rw [← coefficient_below hx] at hlow
  change (x.below k).coefficient + 1 ≤ 10 ^ k at hhigh
  rcases (reads_of_neighbour? h).2 with rfl | rfl
  · omega
  · exact ⟨Nat.succ_ne_zero _, hhigh⟩

/-- If any decimal with so many digits reads back, one of the two next to the number does. -/
theorem isClosest_below_or_above (hk : 1 ≤ k) {c : Nat} (hc : c < 10 ^ k) {e : Int}
    (h : x.IsClosest (c * 10 ^ e)) :
    x.IsClosest (x.below k).value ∨ x.IsClosest (x.above k).value := by
  rcases lt_or_ge e (Decimal.gridExponent k x.magnitude) with hlt | hge
  · -- On a finer grid the decimals with so few digits are all below the first one on this grid.
    left
    apply h.of_le_of_le _ (value_below_le hx)
    have hcast : (c : Rat) ≤ 10 ^ (k : Int) := by exact_mod_cast hc.le
    calc (c : Rat) * 10 ^ e ≤ 10 ^ (k : Int) * 10 ^ e :=
          mul_le_mul_of_nonneg_right hcast (Decimal.pow_ten_pos e).le
      _ = 10 ^ (k + e) := (Decimal.pow_ten_add _ _).symm
      _ ≤ 10 ^ (Decimal.gridExponent k x.magnitude + k - 1) :=
          zpow_le_zpow_right₀ (by norm_num) (by omega)
      _ ≤ (x.below k).value := pow_le_value_below hx hk
  · have hgrid : (c : Rat) * 10 ^ e =
        ((c * 10 ^ (e - Decimal.gridExponent k x.magnitude).toNat : Nat) : Int) *
          10 ^ Decimal.gridExponent k x.magnitude := by
      have hexp : e = ((e - Decimal.gridExponent k x.magnitude).toNat : Int) +
        Decimal.gridExponent k x.magnitude := by omega
      nth_rewrite 1 [hexp]
      rw [Decimal.pow_ten_add, zpow_natCast]
      push_cast
      ring
    rw [hgrid] at h
    rcases le_value_below_or_value_above_le x k _ with hle | hge
    · exact Or.inl (h.of_le_of_le hle (value_below_le hx))
    · exact Or.inr (h.of_ge_of_ge hge (lt_value_above hx).le)

/-- The nearer of the two decimals with seventeen digits is nearer than any other number. -/
theorem isClosest_seventeen :
    x.IsClosest (x.below 17).value ∨ x.IsClosest (x.above 17).value := by
  have hlow := value_below_le hx (k := 17)
  have hhigh := lt_value_above hx (k := 17)
  have hunit := value_above_sub_value_below x 17
  have hsmall : (10 : Rat) ^ Decimal.gridExponent 17 x.magnitude * 10 ^ 16 ≤ x.magnitude := by
    have hle := (pow_le_value_below hx (show 1 ≤ 17 by omega)).trans hlow
    rw [show Decimal.gridExponent 17 x.magnitude + (17 : Nat) - 1 =
      Decimal.gridExponent 17 x.magnitude + 16 by omega, Decimal.pow_ten_add] at hle
    exact_mod_cast hle
  rcases le_total (x.magnitude - (x.below 17).value) ((x.above 17).value - x.magnitude) with h | h
  · left
    apply isClosest_of_abs_sub_lt
    rw [abs_of_nonpos (by linarith)]
    linarith
  · right
    apply isClosest_of_abs_sub_lt
    rw [abs_of_nonneg (by linarith)]
    linarith

end Neighbours

theorem findSome?_range_eq_some {α : Type} {f : Nat → Option α} {n : Nat} {a : α}
    (h : (List.range n).findSome? f = some a) :
    ∃ k < n, f k = some a ∧ ∀ j < k, f j = none := by
  induction n with
  | zero => cases h
  | succ n ih =>
    rw [List.range_succ, List.findSome?_append] at h
    cases hn : (List.range n).findSome? f with
    | some b =>
      rw [hn] at h
      obtain ⟨k, hk, hfound, hnone⟩ := ih (hn.trans h)
      exact ⟨k, by omega, hfound, hnone⟩
    | none =>
      rw [hn, Option.none_or, List.findSome?_singleton] at h
      rw [List.findSome?_eq_none_iff] at hn
      exact ⟨n, by omega, h, fun j hj => hn j (List.mem_range.mpr hj)⟩

section Search

variable (tie : Tie) {x : Double} (hfinite : x.isFinite = true)

include hfinite

theorem exists_neighbour? {k : Nat}
    (h : x.IsClosest (x.below k).value ∨ x.IsClosest (x.above k).value) :
    ∃ d, x.neighbour? tie k = some d := by
  cases hnone : x.neighbour? tie k with
  | some d => exact ⟨d, rfl⟩
  | none =>
    obtain ⟨hlow, hhigh⟩ := reads_eq_false_of_neighbour? hnone
    rw [← reads_iff hfinite, ← reads_iff hfinite, hlow, hhigh] at h
    simp at h

variable (hx : 0 < x.magnitude)

include hx

/-- The search ends with the least number of digits for which there is something to find. -/
theorem exists_shortest :
    ∃ k d, k < 17 ∧ x.shortest tie = d.trim ∧ x.neighbour? tie (k + 1) = some d ∧
      ∀ j < k, x.neighbour? tie (j + 1) = none := by
  obtain ⟨d, hd⟩ := exists_neighbour? tie hfinite (isClosest_seventeen hx)
  cases hfound : (List.range 17).findSome? fun k => x.neighbour? tie (k + 1) with
  | some d =>
    obtain ⟨k, hk, hsome, hnone⟩ := findSome?_range_eq_some hfound
    refine ⟨k, d, hk, ?_, hsome, hnone⟩
    rw [shortest, hfound, Option.getD_some]
  | none =>
    have hnone := List.findSome?_eq_none_iff.mp hfound 16 (by decide)
    rw [hd] at hnone
    cases hnone

theorem isClosest_shortest : x.IsClosest (x.shortest tie).value := by
  obtain ⟨k, d, -, hshortest, hd, -⟩ := exists_shortest tie hfinite hx
  rw [hshortest, Decimal.value_trim]
  exact (reads_iff hfinite d).mp (reads_of_neighbour? hd).1

theorem coefficient_shortest_mod : (x.shortest tie).coefficient % 10 ≠ 0 := by
  obtain ⟨k, d, -, hshortest, hd, -⟩ := exists_shortest tie hfinite hx
  rw [hshortest]
  exact Decimal.coefficient_trim_mod (coefficient_of_neighbour? hx (Nat.le_add_left 1 k) hd).1

/-- No decimal that reads back has fewer digits. -/
theorem length_digits_shortest_le {c : Nat} {e : Int} (h : x.IsClosest (c * 10 ^ e)) :
    (x.shortest tie).digits.length ≤ (Radix.digits 10 c).length := by
  obtain ⟨k, d, hk, hshortest, hd, hnone⟩ := exists_shortest tie hfinite hx
  obtain ⟨hne, hle⟩ := coefficient_of_neighbour? hx (Nat.le_add_left 1 k) hd
  rw [hshortest]
  apply (Decimal.length_digits_trim_le hne (Nat.le_add_left 1 k) hle).trans
  have hpos : 0 < (Radix.digits 10 c).length := List.length_pos_of_ne_nil (Radix.digits_ne_nil 10 c)
  by_contra hlt
  have hneighbour := isClosest_below_or_above hx hpos
    (Radix.lt_pow_length_digits (by omega) c) h
  obtain ⟨d', hd'⟩ := exists_neighbour? tie hfinite hneighbour
  have hearlier := hnone ((Radix.digits 10 c).length - 1) (by omega)
  rw [Nat.sub_add_cancel hpos, hd'] at hearlier
  cases hearlier

end Search

end Double

end CodeDump
