import Mathlib.Tactic.IntervalCases
import CodeDump.Number.Numeral

/-!
# Numerals read back

The digits of a number are below the base, so each of them is read back from its character and
the whole text from its characters. All characters of a digit text are figures, which is what a
reader of mixed text needs to know to find where a numeral ends.
-/

namespace CodeDump.Radix

theorem digit_lt {b : Nat} (hb : 2 ≤ b) (n : Nat) : ∀ d ∈ digits b n, d < b := by
  induction n using Nat.strongRecOn with
  | ind n ih =>
    by_cases h : n < b
    · rw [digits_of_lt h]
      intro d hd
      rw [List.mem_singleton.mp hd]
      exact h
    · rw [digits_of_le hb (by omega)]
      intro d hd
      rcases List.mem_append.mp hd with hd | hd
      · exact ih _ (Nat.div_lt_self (by omega) (by omega)) d hd
      · rw [List.mem_singleton.mp hd]
        exact Nat.mod_lt _ (by omega)

theorem digits_ne_nil (b n : Nat) : digits b n ≠ [] := by
  rw [digits]
  split <;> simp

theorem digitsText_ne_nil (b n : Nat) : digitsText b n ≠ [] := by
  simpa [digitsText] using digits_ne_nil b n

/-- Only zero starts with a zero. -/
theorem eq_zero_of_head?_digits {b : Nat} (hb : 2 ≤ b) (n : Nat)
    (h : (digits b n).head? = some 0) : n = 0 := by
  induction n using Nat.strongRecOn with
  | ind n ih =>
    by_cases hn : n < b
    · rw [digits_of_lt hn] at h
      exact Option.some.inj h
    · obtain ⟨d, ds, hds⟩ := List.exists_cons_of_ne_nil (digits_ne_nil b (n / b))
      rw [digits_of_le hb (by omega), hds] at h
      have hdiv := ih (n / b) (Nat.div_lt_self (by omega) (by omega)) (by rw [hds]; exact h)
      have hlt := (Nat.div_eq_zero_iff_lt (by omega)).mp hdiv
      omega

/-- Holds for every character that a digit can be shown as. -/
def isFigure (c : Char) : Bool := "0123456789abcdef*".toList.contains c

theorem isFigure_digitChar (d : Nat) : isFigure (Nat.digitChar d) = true := by
  by_cases h : d < 16
  · interval_cases d <;> decide
  · rw [Nat.digitChar_eq_star.mpr (by omega)]
    decide

theorem isFigure_of_mem_map {ds : List Nat} {c : Char} (h : c ∈ ds.map Nat.digitChar) :
    isFigure c = true := by
  obtain ⟨d, _, rfl⟩ := List.mem_map.mp h
  exact isFigure_digitChar d

theorem digitValue?_digitChar {b d : Nat} (hb : b ≤ 16) (hd : d < b) :
    digitValue? b (Nat.digitChar d) = some d := by
  have h : d < 16 := by omega
  interval_cases d <;> exact if_pos hd

theorem mapM_digitValue? {b : Nat} (hb : b ≤ 16) (ds : List Nat) (h : ∀ d ∈ ds, d < b) :
    (ds.map Nat.digitChar).mapM (digitValue? b) = some ds := by
  induction ds with
  | nil => rfl
  | cons d ds ih =>
    have hd := digitValue?_digitChar hb (h d List.mem_cons_self)
    have hds := ih fun e he => h e (List.mem_cons_of_mem d he)
    simp [hd, hds]

/-- The digits of a number have its value. -/
theorem value?_digitsText {b : Nat} (hb : 2 ≤ b) (hb' : b ≤ 16) (n : Nat) :
    value? b (digitsText b n) = some n := by
  rw [value?, if_neg (by simpa using digitsText_ne_nil b n), digitsText,
    mapM_digitValue? hb' _ (digit_lt hb n), Option.map_some, ofDigits_digits hb]

theorem value?_decimal (n : Nat) : value? 10 (decimal n).toList = some n := by
  rw [decimal, String.toList_ofList]
  exact value?_digitsText (by omega) (by omega) n

theorem value?_hexadecimal (n : Nat) : value? 16 (hexadecimal n).toList = some n := by
  rw [hexadecimal, String.toList_ofList]
  exact value?_digitsText (by omega) (by omega) n

end CodeDump.Radix
