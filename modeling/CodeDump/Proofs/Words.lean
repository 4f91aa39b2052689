import Mathlib.Data.List.TakeWhile
import CodeDump.Print.Listing
import CodeDump.Proofs.Numerals

/-!
# Words and the characters they lack

A reader of a line cuts it at characters that cannot occur in what it is reading. `Free c s`
says that the text `s` lacks the character `c`; it is settled for a text by its parts. `words`
are what stands between the spaces of a text, `before` and `behind` are the two sides of the
first place where a character stands.
-/

namespace CodeDump

def Free (c : Char) (s : String) : Prop := c ∉ s.toList

instance (c : Char) (s : String) : Decidable (Free c s) :=
  inferInstanceAs (Decidable (c ∉ s.toList))

section Free

variable {c : Char}

@[simp] theorem free_append (s t : String) : Free c (s ++ t) ↔ Free c s ∧ Free c t := by
  simp [Free]

@[simp] theorem free_join (ss : List String) : Free c (String.join ss) ↔ ∀ s ∈ ss, Free c s := by
  simp [Free]

theorem join_singleton (s : String) : String.join [s] = s := by
  rw [String.join_cons, String.join_nil, String.append_empty]

theorem free_empty : Free c "" := by simp [Free]

theorem free_of_all {p : Char → Bool} (h : p c = false) {s : String}
    (hs : s.toList.all p = true) : Free c s :=
  fun hc => Bool.noConfusion (h.symm.trans (List.all_eq_true.mp hs c hc))

theorem free_spaces (h : c ≠ ' ') (n : Nat) : Free c (Piece.spaces n) := by
  rw [Free, Piece.spaces, String.toList_ofList, List.mem_replicate]
  exact fun hx => h hx.2

theorem free_padRight (h : c ≠ ' ') (width : Nat) (s : String) (hs : Free c s) :
    Free c (Radix.padRight width s) :=
  (free_append _ _).mpr ⟨hs, free_spaces h _⟩

theorem free_digits (h : Radix.isFigure c = false) (ds : List Nat) :
    Free c (String.ofList (ds.map Nat.digitChar)) := by
  apply free_of_all h
  rw [String.toList_ofList, List.all_eq_true]
  exact fun x hx => Radix.isFigure_of_mem_map hx

theorem free_decimal (h : Radix.isFigure c = false) (n : Nat) : Free c (Radix.decimal n) :=
  free_digits h _

theorem free_hexadecimal (h : Radix.isFigure c = false) (n : Nat) : Free c (Radix.hexadecimal n) :=
  free_digits h _

/-- Holds for every character of the general text of a number. -/
def isNumeralChar (c : Char) : Bool := Radix.isFigure c || "in-+.".toList.contains c

theorem free_general (h : isNumeralChar c = false) (x : Double) : Free c x.general := by
  have ha : Radix.isFigure c = false := by
    simp only [isNumeralChar, Bool.or_eq_false_iff] at h
    exact h.1
  have hexp (e : Int) : Free c (paddedExponent e) := by
    simp only [paddedExponent, free_append]
    refine ⟨⟨?_, ?_⟩, free_decimal ha _⟩ <;> split <;> exact free_of_all h (by decide)
  have hnum (n : Numeral) : Free c (n.text paddedExponent) := by
    simp only [Numeral.text, free_append]
    refine ⟨⟨⟨?_, free_digits ha _⟩, ?_⟩, ?_⟩
    · split <;> exact free_of_all h (by decide)
    · split
      · exact free_empty
      · exact (free_append _ _).mpr ⟨free_of_all h (by decide), free_digits ha _⟩
    · split
      · exact free_empty
      · exact (free_append _ _).mpr ⟨free_of_all h (by decide), hexp _⟩
  unfold Double.general
  split
  · exact free_of_all h (by decide)
  · split
    · split <;> exact free_of_all h (by decide)
    · exact hnum _

end Free

/-- What stands in front of the first `c`. -/
def before (c : Char) (cs : List Char) : List Char := cs.takeWhile (· != c)

/-- The first `c` and what stands behind it. -/
def behind (c : Char) (cs : List Char) : List Char := cs.dropWhile (· != c)

theorem before_append {c : Char} {cs : List Char} (h : c ∉ cs) (rest : List Char) :
    before c (cs ++ c :: rest) = cs := by
  have hne : ∀ x ∈ cs, (x != c) = true := fun x hx => bne_iff_ne.mpr fun he => h (he ▸ hx)
  rw [before, List.takeWhile_append_of_pos hne]
  simp

theorem behind_append {c : Char} {cs : List Char} (h : c ∉ cs) (rest : List Char) :
    behind c (cs ++ c :: rest) = c :: rest := by
  have hne : ∀ x ∈ cs, (x != c) = true := fun x hx => bne_iff_ne.mpr fun he => h (he ▸ hx)
  rw [behind, List.dropWhile_append_of_pos hne]
  simp

theorem before_eq_self {c : Char} {cs : List Char} (h : c ∉ cs) : before c cs = cs :=
  List.takeWhile_eq_self_iff.mpr fun _ hx => bne_iff_ne.mpr fun he => h (he ▸ hx)

theorem behind_eq_nil {c : Char} {cs : List Char} (h : c ∉ cs) : behind c cs = [] :=
  List.dropWhile_eq_nil_iff.mpr fun _ hx => bne_iff_ne.mpr fun he => h (he ▸ hx)

def words (cs : List Char) : List (List Char) := (cs.splitOn ' ').filter (· != [])

@[simp] theorem words_nil : words [] = [] := rfl

theorem words_append_space (cs rest : List Char) :
    words (cs ++ ' ' :: rest) = words cs ++ words rest := by
  rw [words, List.splitOn_append_cons_self, List.filter_append]
  rfl

@[simp] theorem words_space (rest : List Char) : words (' ' :: rest) = words rest :=
  words_append_space [] rest

theorem words_word {w : List Char} (hw : w ≠ []) (h : ' ' ∉ w) : words w = [w] := by
  rw [words, List.splitOn_eq_singleton h]
  simp [hw]

theorem eq_of_mem_words {cs w : List Char} (h : ' ' ∉ cs) (hw : w ∈ words cs) : w = cs := by
  rw [words, List.splitOn_eq_singleton h] at hw
  exact List.mem_singleton.mp (List.mem_filter.mp hw).1

@[simp] theorem words_replicate (n : Nat) : words (List.replicate n ' ') = [] := by
  induction n with
  | zero => rfl
  | succ n ih => rw [List.replicate_succ, words_space, ih]

/-- What can follow a word: nothing or a space. -/
def Led (cs : List Char) : Prop := cs = [] ∨ ∃ rest, cs = ' ' :: rest

theorem led_nil : Led [] := Or.inl rfl

theorem led_space (rest : List Char) : Led (' ' :: rest) := Or.inr ⟨rest, rfl⟩

theorem led_replicate (n : Nat) : Led (List.replicate n ' ') := by
  cases n with
  | zero => exact led_nil
  | succ n => exact led_space _

theorem words_append (cs : List Char) {rest : List Char} (h : Led rest) :
    words (cs ++ rest) = words cs ++ words rest := by
  rcases h with rfl | ⟨rest, rfl⟩
  · simp
  · rw [words_append_space, words_space]

theorem words_append_of_trailed {cs : List Char} (h : cs.getLast? = some ' ') (rest : List Char) :
    words (cs ++ rest) = words cs ++ words rest := by
  obtain ⟨front, rfl⟩ := List.getLast?_eq_some_iff.mp h
  rw [List.append_assoc, List.singleton_append, words_append_space, words_append_space, words_nil,
    List.append_nil]

theorem words_padded {w : List Char} (hw : w ≠ []) (h : ' ' ∉ w) (n : Nat) :
    words (w ++ List.replicate n ' ') = [w] := by
  rw [words_append w (led_replicate n), words_word hw h, words_replicate, List.append_nil]

end CodeDump
