import Mathlib.Algebra.Ring.Nat
import Mathlib.Data.List.Induction
import CodeDump.Source.Input

/-!
# Lines and columns

The place of an offset is the line and the column in which the bytes before it end. One more byte
moves it to the next column, or to the first column of the next line if the byte is a line feed; so
places go up in lexicographic order as offsets do, and no two offsets have one place. The starts of
the lines lead back: the start of the line and the column together are the offset.

Places are counted without a bound. The words that are shown hold them as long as the offset itself
is short of the largest word.
-/

namespace CodeDump.Input

/-- Where lines start: at zero and behind every line feed. -/
def lineStarts (data : List UInt8) : List Nat :=
  0 :: ((List.range data.length).filter fun j => data[j]? == some 10).map (· + 1)

/-- The line and the column in which bytes end. -/
def place (before : List UInt8) : Nat × Nat := (before.count 10 + 1, (lastLine before).length + 1)

/-- The place behind one more byte. -/
def advance (p : Nat × Nat) (b : UInt8) : Nat × Nat :=
  if b = 10 then (p.1 + 1, 1) else (p.1, p.2 + 1)

/-- An earlier line, or an earlier column of the same line. -/
def Precedes (p q : Nat × Nat) : Prop := p.1 < q.1 ∨ p.1 = q.1 ∧ p.2 < q.2

theorem lastLine_append_singleton (before : List UInt8) (b : UInt8) :
    lastLine (before ++ [b]) = if b = 10 then [] else lastLine before ++ [b] := by
  unfold lastLine
  rw [List.reverse_append, List.reverse_singleton, List.singleton_append]
  by_cases hb : b = 10
  · rw [List.takeWhile_cons_of_neg (by simpa using hb), if_pos hb, List.reverse_nil]
  · rw [List.takeWhile_cons_of_pos (by simpa using hb), if_neg hb, List.reverse_cons]

theorem place_append_singleton (before : List UInt8) (b : UInt8) :
    place (before ++ [b]) = advance (place before) b := by
  unfold place advance
  rw [lastLine_append_singleton, List.count_append]
  by_cases hb : b = 10
  · simp [hb]
  · simp [hb]

theorem lineStarts_append_singleton (before : List UInt8) (b : UInt8) :
    lineStarts (before ++ [b]) =
      lineStarts before ++ if b = 10 then [before.length + 1] else [] := by
  have hold : (List.range before.length).filter (fun j => (before ++ [b])[j]? == some 10) =
      (List.range before.length).filter fun j => before[j]? == some 10 := by
    apply List.filter_congr
    intro j hj
    rw [List.getElem?_append_left (List.mem_range.mp hj)]
  unfold lineStarts
  rw [List.length_append, List.length_singleton, List.range_succ, List.filter_append, hold,
    List.map_append, List.cons_append]
  congr 2
  by_cases hb : b = 10
  · simp [hb]
  · simp [hb]

theorem precedes_advance (p : Nat × Nat) (b : UInt8) : Precedes p (advance p b) := by
  unfold advance
  by_cases hb : b = 10
  · rw [if_pos hb]
    exact Or.inl (Nat.lt_succ_self _)
  · rw [if_neg hb]
    exact Or.inr ⟨rfl, Nat.lt_succ_self _⟩

theorem length_lastLine_le (before : List UInt8) : (lastLine before).length ≤ before.length := by
  have hle : (before.reverse.takeWhile (· != 10)).length ≤ before.reverse.length :=
    (List.takeWhile_sublist _).length_le
  rw [lastLine, List.length_reverse]
  rwa [List.length_reverse] at hle

/-- Where the line starts in which bytes end. -/
def lastStart (before : List UInt8) : Nat := before.length - (lastLine before).length

theorem lastStart_append_singleton (before : List UInt8) (b : UInt8) :
    lastStart (before ++ [b]) = if b = 10 then before.length + 1 else lastStart before := by
  have hle := length_lastLine_le before
  unfold lastStart
  rw [lastLine_append_singleton]
  by_cases hb : b = 10
  · simp [hb]
  · simp [hb]

/-- The last start stands behind a line feed or at the beginning, and no line feed follows it. -/
structure IsLastStart (before : List UInt8) (start : Nat) : Prop where
  le : start ≤ before.length
  behind : start = 0 ∨ before[start - 1]? = some 10
  none_after : ∀ j, start ≤ j → before[j]? ≠ some 10

theorem isLastStart_lastStart (before : List UInt8) : IsLastStart before (lastStart before) := by
  induction before using List.reverseRecOn with
  | nil => exact ⟨Nat.le_refl 0, Or.inl rfl, fun j _ => by simp⟩
  | append_singleton before b ih =>
    rw [lastStart_append_singleton]
    by_cases hb : b = 10
    · rw [if_pos hb]
      refine ⟨by simp, Or.inr ?_, fun j hj => ?_⟩
      · rw [Nat.add_sub_cancel, List.getElem?_concat_length, hb]
      · rw [List.getElem?_eq_none (by simpa using hj)]
        exact Option.some_ne_none 10 |>.symm
    · rw [if_neg hb]
      refine ⟨Nat.le_trans ih.le (by simp), ih.behind.imp_right fun hfeed => ?_, fun j hj => ?_⟩
      · obtain ⟨hlt, -⟩ := List.getElem?_eq_some_iff.mp hfeed
        rw [List.getElem?_append_left hlt, hfeed]
      · rcases Nat.lt_trichotomy j before.length with hlt | rfl | hgt
        · rw [List.getElem?_append_left hlt]
          exact ih.none_after j hj
        · rw [List.getElem?_concat_length]
          exact fun heq => hb (Option.some.inj heq)
        · rw [List.getElem?_eq_none (by rw [List.length_append]; exact hgt)]
          exact Option.some_ne_none 10 |>.symm

theorem length_lineStarts (before : List UInt8) :
    (lineStarts before).length = before.count 10 + 1 := by
  induction before using List.reverseRecOn with
  | nil => rfl
  | append_singleton before b ih =>
    rw [lineStarts_append_singleton, List.length_append, ih, List.count_append]
    by_cases hb : b = 10
    · simp [hb]
    · simp [hb]

/-- The last line is the one whose number is the number of line feeds. -/
theorem getElem?_lineStarts (before : List UInt8) :
    (lineStarts before)[before.count 10]? = some (lastStart before) := by
  induction before using List.reverseRecOn with
  | nil => rfl
  | append_singleton before b ih =>
    have hlen := length_lineStarts before
    rw [lineStarts_append_singleton, lastStart_append_singleton, List.count_append]
    by_cases hb : b = 10
    · rw [if_pos hb, if_pos hb, hb, List.count_singleton_self, ← hlen,
        List.getElem?_concat_length]
    · rw [if_neg hb, if_neg hb, List.append_nil, List.count_singleton, if_neg (by simpa using hb),
        Nat.add_zero, ih]

theorem Precedes.trans {p q r : Nat × Nat} (h : Precedes p q) (h' : Precedes q r) :
    Precedes p r := by
  unfold Precedes at *
  omega

theorem precedes_place_append (before : List UInt8) {more : List UInt8} (h : more ≠ []) :
    Precedes (place before) (place (before ++ more)) := by
  induction more using List.reverseRecOn with
  | nil => exact absurd rfl h
  | append_singleton more b ih =>
    have hlast := precedes_advance (place (before ++ more)) b
    rw [← List.append_assoc, place_append_singleton]
    by_cases hmore : more = []
    · rw [hmore, List.append_nil] at hlast ⊢
      exact hlast
    · exact (ih hmore).trans hlast

theorem lineStarts_append (before more : List UInt8) :
    ∃ later, lineStarts (before ++ more) = lineStarts before ++ later := by
  induction more using List.reverseRecOn with
  | nil => exact ⟨[], by simp⟩
  | append_singleton more b ih =>
    obtain ⟨later, hlater⟩ := ih
    rw [← List.append_assoc, lineStarts_append_singleton, hlater, List.append_assoc]
    exact ⟨_, rfl⟩

section Offsets

variable {data : List UInt8} {o o₁ o₂ : Nat}

theorem precedes_place_take (hlt : o₁ < o₂) (hle : o₂ ≤ data.length) :
    Precedes (place (data.take o₁)) (place (data.take o₂)) := by
  have hsplit : data.take o₂ = data.take o₁ ++ (data.take o₂).drop o₁ := by
    have htake : data.take o₁ = (data.take o₂).take o₁ := by
      rw [List.take_take, Nat.min_eq_left (Nat.le_of_lt hlt)]
    rw [htake, List.take_append_drop]
  have hne : (data.take o₂).drop o₁ ≠ [] := by
    apply List.ne_nil_of_length_pos
    rw [List.length_drop, List.length_take]
    omega
  rw [hsplit]
  exact precedes_place_append _ hne

theorem precedes_place_iff (h₁ : o₁ ≤ data.length) (h₂ : o₂ ≤ data.length) :
    Precedes (place (data.take o₁)) (place (data.take o₂)) ↔ o₁ < o₂ := by
  refine ⟨fun h => ?_, fun hlt => precedes_place_take hlt h₂⟩
  rcases Nat.lt_trichotomy o₁ o₂ with hlt | heq | hgt
  · exact hlt
  · rw [heq] at h
    unfold Precedes at h
    omega
  · have hback := precedes_place_take hgt h₁
    unfold Precedes at h hback
    omega

/-- Neither number of a place exceeds the offset by more than one. -/
theorem place_take_le (h : o ≤ data.length) :
    (place (data.take o)).1 ≤ o + 1 ∧ (place (data.take o)).2 ≤ o + 1 := by
  have hlen : (data.take o).length = o := List.length_take_of_le h
  have hcount : (data.take o).count 10 ≤ (data.take o).length := List.count_le_length
  have hline := length_lastLine_le (data.take o)
  dsimp only [place]
  omega

end Offsets

/-- What the place of an offset says: the number of line feeds in front of it, and how far it is
from the start of its line, which is the one that the line's number gives. -/
structure Locates (data : List UInt8) (offset line column start : Nat) : Prop where
  line_eq : line = 1 + (data.take offset).count 10
  isLastStart : IsLastStart (data.take offset) start
  column_eq : column = 1 + (offset - start)
  start_eq : (lineStarts data)[line - 1]? = some start
  recovered : start + (column - 1) = offset

theorem locates_place {data : List UInt8} {offset : Nat} (h : offset ≤ data.length) :
    Locates data offset (place (data.take offset)).1 (place (data.take offset)).2
      (lastStart (data.take offset)) := by
  have hlen : (data.take offset).length = offset := List.length_take_of_le h
  have hline := length_lastLine_le (data.take offset)
  have hstart : lastStart (data.take offset) + (lastLine (data.take offset)).length = offset := by
    unfold lastStart
    omega
  obtain ⟨later, hlater⟩ := lineStarts_append (data.take offset) (data.drop offset)
  rw [List.take_append_drop] at hlater
  refine ⟨Nat.add_comm _ _, isLastStart_lastStart _, ?_, ?_, hstart⟩
  · dsimp only [place]
    omega
  · have hlast := getElem?_lineStarts (data.take offset)
    obtain ⟨hlt, -⟩ := List.getElem?_eq_some_iff.mp hlast
    dsimp only [place]
    rw [Nat.add_sub_cancel, hlater, List.getElem?_append_left hlt, hlast]

section Shown

variable {i : Input} {data : List UInt8} (h : i.data = some data) {offset : Nat}

include h

theorem lineCol_of_le (hle : offset ≤ data.length) :
    i.lineCol offset = some
      (UInt32.ofNat (place (data.take offset)).1, UInt32.ofNat (place (data.take offset)).2) := by
  rw [lineCol, h]
  exact if_pos hle

theorem lineCol_of_lt (hlt : data.length < offset) : i.lineCol offset = none := by
  rw [lineCol, h]
  exact if_neg (Nat.not_le.mpr hlt)

theorem le_of_lineCol {p : UInt32 × UInt32} (hp : i.lineCol offset = some p) :
    offset ≤ data.length := by
  by_contra hgt
  rw [lineCol_of_lt h (Nat.not_le.mp hgt)] at hp
  cases hp

/-- An offset short of the largest word has a place that two words hold. -/
theorem toNat_of_lineCol {p : UInt32 × UInt32} (hp : i.lineCol offset = some p)
    (hword : offset < 2 ^ 32 - 1) : (p.1.toNat, p.2.toNat) = place (data.take offset) := by
  have hle := le_of_lineCol h hp
  have hbound := place_take_le hle
  have hsize : UInt32.size = 2 ^ 32 := rfl
  rw [lineCol_of_le h hle] at hp
  rw [← Option.some.inj hp, UInt32.toNat_ofNat_of_lt' (by omega),
    UInt32.toNat_ofNat_of_lt' (by omega)]

end Shown

theorem lineCol_append {i j : Input} {data more : List UInt8} (h : i.data = some data)
    (hmore : j.data = some (data ++ more)) {offset : Nat} (hle : offset ≤ data.length) :
    j.lineCol offset = i.lineCol offset := by
  have hle' : offset ≤ (data ++ more).length := by
    rw [List.length_append]
    omega
  rw [lineCol_of_le h hle, lineCol_of_le hmore hle', List.take_append_of_le_length hle]

/-- The places of an open input are coordinates of its offsets: each offset up to the end has the
place that its line feeds give, from which it is recovered; places go up exactly as offsets do;
more bytes at the end change none of them; and there is no place behind the end. -/
theorem lineCol_coordinates {i : Input} {data : List UInt8} (h : i.data = some data) :
    (∀ offset ≤ data.length, offset < 2 ^ 32 - 1 → ∃ p start, i.lineCol offset = some p ∧
        Locates data offset p.1.toNat p.2.toNat start) ∧
      (∀ o₁ o₂ p₁ p₂, o₁ < 2 ^ 32 - 1 → o₂ < 2 ^ 32 - 1 → i.lineCol o₁ = some p₁ →
        i.lineCol o₂ = some p₂ →
          (p₁ = p₂ ↔ o₁ = o₂) ∧ (p₁.1 < p₂.1 ∨ p₁.1 = p₂.1 ∧ p₁.2 < p₂.2 ↔ o₁ < o₂)) ∧
      i.lineCol 0 = some (1, 1) ∧
      (∀ (j : Input) (more : List UInt8), j.data = some (data ++ more) → ∀ offset ≤ data.length,
        j.lineCol offset = i.lineCol offset) ∧
      ∀ offset, data.length < offset → i.lineCol offset = none := by
  have horder (o₁ o₂ : Nat) (p₁ p₂ : UInt32 × UInt32) (hw₁ : o₁ < 2 ^ 32 - 1)
      (hw₂ : o₂ < 2 ^ 32 - 1) (h₁ : i.lineCol o₁ = some p₁) (h₂ : i.lineCol o₂ = some p₂) :
      p₁.1 < p₂.1 ∨ p₁.1 = p₂.1 ∧ p₁.2 < p₂.2 ↔ o₁ < o₂ := by
    rw [← precedes_place_iff (le_of_lineCol h h₁) (le_of_lineCol h h₂),
      ← toNat_of_lineCol h h₁ hw₁, ← toNat_of_lineCol h h₂ hw₂, Precedes,
      UInt32.lt_iff_toNat_lt, UInt32.lt_iff_toNat_lt, UInt32.toNat_inj]
  refine ⟨fun offset hle hword => ?_, fun o₁ o₂ p₁ p₂ hw₁ hw₂ h₁ h₂ => ⟨?_, ?_⟩, ?_, ?_, ?_⟩
  · have hp := lineCol_of_le h hle
    have hlocates := locates_place hle
    rw [← toNat_of_lineCol h hp hword] at hlocates
    exact ⟨_, _, hp, hlocates⟩
  · refine ⟨fun heq => ?_, fun heq => Option.some.inj (by rw [← h₁, ← h₂, heq])⟩
    have hlt := horder o₁ o₂ p₁ p₂ hw₁ hw₂ h₁ h₂
    have hgt := horder o₂ o₁ p₂ p₁ hw₂ hw₁ h₂ h₁
    rw [heq] at hlt hgt
    have hirrefl : ¬ (p₂.1 < p₂.1 ∨ p₂.1 = p₂.1 ∧ p₂.2 < p₂.2) := by simp
    have hle := mt hlt.mpr hirrefl
    have hge := mt hgt.mpr hirrefl
    omega
  · exact horder o₁ o₂ p₁ p₂ hw₁ hw₂ h₁ h₂
  · exact lineCol_of_le h (Nat.zero_le _)
  · exact fun j more hmore offset hle => lineCol_append h hmore hle
  · exact fun offset hlt => lineCol_of_lt h hlt

/-- The offset behind a line feed that itself stands behind one, and the line feed in front. -/
theorem lineCol_coordinates_blank_line :
    let data : List UInt8 := [97, 98, 10, 99, 100, 101, 10, 10, 102]
    let i : Input := ⟨"a.co", some data⟩
    i.lineCol 7 = some (3, 1) ∧ i.lineCol 8 = some (4, 1) ∧ lineStarts data = [0, 3, 7, 8] ∧
      (((3, 1) : UInt32 × UInt32) = (4, 1) ↔ 7 = 8) ∧
      ∃ p start, i.lineCol 8 = some p ∧ Locates data 8 p.1.toNat p.2.toNat start := by
  intro data i
  have hfeed : i.lineCol 7 = some (3, 1) := by decide
  have hbehind : i.lineCol 8 = some (4, 1) := by decide
  obtain ⟨hplaces, horder, -⟩ := lineCol_coordinates (show i.data = some data from rfl)
  exact ⟨hfeed, hbehind, by decide, (horder 7 8 _ _ (by decide) (by decide) hfeed hbehind).1,
    hplaces 8 (by decide) (by decide)⟩

end CodeDump.Input
