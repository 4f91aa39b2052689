import CodeDump.Json.Reader
import CodeDump.Json.Writer
import CodeDump.Proofs.Decimals

/-!
# JSON text reads back

The compact text of a JSON value is read back to that value. This holds of `Proper` values: their
numerals are well-formed, and their strings have characters. Every
scanner is shown to read exactly what the writer wrote and to leave the rest, whatever the rest
is; only a numeral needs to know that it does not go on there, which is what `Ends` says.

The scanners of values are given a bound on their calls. Three calls for each character are
enough, and that is the bound `parse?` starts with.
-/

namespace CodeDump

mutual

/-- The numerals of a value are proper, and its strings and keys have characters. -/
def Json.Proper (j : Json) : Prop :=
  match j with
  | .null | .bool _ => True
  | .number n => n.Proper
  | .string s => s.isSome = true
  | .array items => Json.AllProper items
  | .object members => Member.AllProper members
termination_by structural j

def Json.AllProper (js : List Json) : Prop :=
  match js with
  | [] => True
  | j :: rest => Json.Proper j ∧ Json.AllProper rest
termination_by structural js

def Member.Proper (m : Member) : Prop :=
  match m with
  | ⟨key, value⟩ => key.isSome = true ∧ Json.Proper value
termination_by structural m

def Member.AllProper (ms : List Member) : Prop :=
  match ms with
  | [] => True
  | m :: rest => Member.Proper m ∧ Member.AllProper rest
termination_by structural ms

end

namespace Json.Reader

/-- What can follow a value in a text. -/
def Ends (cs : List Char) : Prop :=
  cs = [] ∨ ∃ c rest, (c = ',' ∨ c = ']' ∨ c = '\x7d') ∧ cs = c :: rest

theorem ends_nil : Ends [] := Or.inl rfl

theorem ends_comma (rest : List Char) : Ends (',' :: rest) := Or.inr ⟨',', rest, by simp, rfl⟩

theorem ends_bracket (rest : List Char) : Ends (']' :: rest) := Or.inr ⟨']', rest, by simp, rfl⟩

theorem ends_brace (rest : List Char) : Ends ('\x7d' :: rest) :=
  Or.inr ⟨'\x7d', rest, by simp, rfl⟩

theorem Ends.cases {cs : List Char} (h : Ends cs) :
    cs = [] ∨ (∃ rest, cs = ',' :: rest) ∨ (∃ rest, cs = ']' :: rest) ∨
      ∃ rest, cs = '\x7d' :: rest := by
  rcases h with rfl | ⟨c, rest, rfl | rfl | rfl, rfl⟩
  · exact Or.inl rfl
  · exact Or.inr (Or.inl ⟨rest, rfl⟩)
  · exact Or.inr (Or.inr (Or.inl ⟨rest, rfl⟩))
  · exact Or.inr (Or.inr (Or.inr ⟨rest, rfl⟩))

/-- No digit comes first. -/
def NoDigit (cs : List Char) : Prop := ∀ c ∈ cs.head?, isDigit c = false

theorem noDigit_cons {c : Char} (h : isDigit c = false) (rest : List Char) :
    NoDigit (c :: rest) := by
  intro x hx
  cases hx
  exact h

theorem Ends.noDigit {cs : List Char} (h : Ends cs) : NoDigit cs := by
  rcases h.cases with rfl | ⟨rest, rfl⟩ | ⟨rest, rfl⟩ | ⟨rest, rfl⟩
  · intro c hc
    cases hc
  all_goals exact noDigit_cons (by decide) rest

def figures (ds : List Nat) : List Char := ds.map Nat.digitChar

theorem toList_decimal (n : Nat) : (Radix.decimal n).toList = figures (Radix.digits 10 n) :=
  String.toList_ofList

theorem isDigit_digitChar {d : Nat} (h : d < 10) : isDigit (Nat.digitChar d) = true := by
  interval_cases d <;> decide

theorem digitChar_sub {d : Nat} (h : d < 10) : (Nat.digitChar d).toNat - '0'.toNat = d := by
  interval_cases d <;> rfl

theorem isDigit_of_mem_figures {ds : List Nat} (h : ∀ d ∈ ds, d < 10) :
    ∀ c ∈ figures ds, isDigit c = true := by
  intro c hc
  obtain ⟨d, hd, rfl⟩ := List.mem_map.mp hc
  exact isDigit_digitChar (h d hd)

theorem digitsOf_figures {ds : List Nat} (h : ∀ d ∈ ds, d < 10) : digitsOf (figures ds) = ds := by
  rw [digitsOf, figures, List.map_map]
  conv_rhs => rw [← List.map_id ds]
  apply List.map_congr_left
  intro d hd
  exact digitChar_sub (h d hd)

theorem digits_figures {ds : List Nat} (hne : ds ≠ []) (h : ∀ d ∈ ds, d < 10) {rest : List Char}
    (hr : NoDigit rest) : digits (figures ds ++ rest) = some (ds, rest) := by
  have hfig := isDigit_of_mem_figures h
  have hrest : rest.takeWhile isDigit = [] ∧ rest.dropWhile isDigit = rest := by
    cases rest with
    | nil => exact ⟨rfl, rfl⟩
    | cons c rest =>
      have hc : isDigit c = false := hr c rfl
      simp [hc]
  have htake : (figures ds ++ rest).takeWhile isDigit = figures ds := by
    rw [List.takeWhile_append_of_pos hfig, hrest.1, List.append_nil]
  have hdrop : (figures ds ++ rest).dropWhile isDigit = rest := by
    rw [List.dropWhile_append_of_pos hfig, hrest.2]
  have hnil : figures ds ≠ [] := by simpa [figures] using hne
  unfold digits
  rw [htake, hdrop]
  split
  · rename_i heq
    exact absurd heq hnil
  · rw [digitsOf_figures h]

theorem whole_figures {n : Numeral} (h : n.Proper) {rest : List Char} (hr : NoDigit rest) :
    whole (figures n.whole ++ rest) = some (n.whole, rest) := by
  rw [whole, digits_figures h.whole_ne_nil h.whole_lt hr]
  split
  · rename_i d ds r heq
    have hw : n.whole = 0 :: d :: ds := congrArg Prod.fst (Option.some.inj heq)
    have hlen := h.leading (by rw [hw]; rfl)
    rw [hw] at hlen
    simp at hlen
  · rfl

/-- The characters behind the whole digits. -/
def fractionChars (ds : List Nat) : List Char := if ds.isEmpty then [] else '.' :: figures ds

def exponentChars : Option Int → List Char
  | none => []
  | some e => 'e' :: (signedExponent e).toList

theorem toList_textWith (exponentText : Int → String) (n : Numeral) :
    (n.text exponentText).toList =
      (if n.negative then ['-'] else []) ++ (figures n.whole ++ (fractionChars n.fraction ++
        n.exponent.elim [] fun e => 'e' :: (exponentText e).toList)) := by
  have hsign : (if n.negative then "-" else "").toList = if n.negative then ['-'] else [] := by
    cases n.negative <;> rfl
  have hfrac : (if n.fraction.isEmpty then "" else "." ++ Numeral.digitsText n.fraction).toList =
      fractionChars n.fraction := by
    cases hf : n.fraction.isEmpty <;>
      simp [fractionChars, hf, Numeral.digitsText, figures, String.toList_append]
  rw [Numeral.text, String.toList_append, String.toList_append, String.toList_append, hsign, hfrac,
    Numeral.digitsText, String.toList_ofList, List.append_assoc, List.append_assoc]
  cases n.exponent with
  | none => rfl
  | some e =>
    simp only [String.toList_append]
    rfl

theorem toList_text (n : Numeral) :
    (n.text signedExponent).toList =
      (if n.negative then ['-'] else []) ++
        (figures n.whole ++ (fractionChars n.fraction ++ exponentChars n.exponent)) := by
  rw [toList_textWith]
  cases n.exponent <;> rfl

theorem exponent_signed (e : Int) {rest : List Char} (hr : Ends rest) :
    exponent (exponentChars (some e) ++ rest) = some (some e, rest) := by
  have hdigits : digits ((Radix.decimal e.natAbs).toList ++ rest) =
      some (Radix.digits 10 e.natAbs, rest) := by
    rw [Radix.decimal, String.toList_ofList]
    exact digits_figures (Radix.digits_ne_nil 10 _) (Radix.digit_lt (by omega) _) hr.noDigit
  by_cases he : e < 0
  · have hsign : exponentChars (some e) ++ rest =
        'e' :: '-' :: ((Radix.decimal e.natAbs).toList ++ rest) := by
      simp [exponentChars, signedExponent, he, String.toList_append]
    rw [hsign]
    simp only [exponent, exponentDigits, true_or, if_true, hdigits, Option.map_some,
      Radix.ofDigits_digits (show 2 ≤ 10 by omega)]
    rw [show -(e.natAbs : Int) = e by omega]
  · have hsign : exponentChars (some e) ++ rest =
        'e' :: '+' :: ((Radix.decimal e.natAbs).toList ++ rest) := by
      simp [exponentChars, signedExponent, he, String.toList_append]
    rw [hsign]
    simp only [exponent, exponentDigits, true_or, if_true, hdigits, Option.map_some,
      Radix.ofDigits_digits (show 2 ≤ 10 by omega), Bool.false_eq_true, if_false]
    rw [show (e.natAbs : Int) = e by omega]

theorem exponent_chars (e : Option Int) {rest : List Char} (hr : Ends rest) :
    exponent (exponentChars e ++ rest) = some (e, rest) := by
  cases e with
  | some e => exact exponent_signed e hr
  | none =>
    rcases hr.cases with rfl | ⟨rest, rfl⟩ | ⟨rest, rfl⟩ | ⟨rest, rfl⟩
    all_goals rfl

theorem noDigit_exponent (e : Option Int) {rest : List Char} (hr : Ends rest) :
    NoDigit (exponentChars e ++ rest) := by
  cases e with
  | none => exact hr.noDigit
  | some e => exact noDigit_cons (by decide) _

theorem fraction_chars {ds : List Nat} (h : ∀ d ∈ ds, d < 10) (e : Option Int) {rest : List Char}
    (hr : Ends rest) :
    fraction (fractionChars ds ++ (exponentChars e ++ rest)) =
      some (ds, exponentChars e ++ rest) := by
  cases ds with
  | nil =>
    cases e with
    | some e => rfl
    | none =>
      rcases hr.cases with rfl | ⟨rest, rfl⟩ | ⟨rest, rfl⟩ | ⟨rest, rfl⟩
      all_goals rfl
  | cons d ds =>
    change digits (figures (d :: ds) ++ (exponentChars e ++ rest)) = _
    exact digits_figures (List.cons_ne_nil d ds) h (noDigit_exponent e hr)

theorem noDigit_fraction (ds : List Nat) (e : Option Int) {rest : List Char} (hr : Ends rest) :
    NoDigit (fractionChars ds ++ (exponentChars e ++ rest)) := by
  cases ds with
  | nil => exact noDigit_exponent e hr
  | cons d ds => exact noDigit_cons (by decide) _

theorem unsigned_chars {n : Numeral} (h : n.Proper) {rest : List Char} (hr : Ends rest) :
    unsigned n.negative
        (figures n.whole ++ (fractionChars n.fraction ++ (exponentChars n.exponent ++ rest))) =
      some (n, rest) := by
  have hw := whole_figures h (noDigit_fraction n.fraction n.exponent hr)
  have hf := fraction_chars h.fraction_lt n.exponent hr
  have he := exponent_chars n.exponent hr
  simp only [unsigned, hw, hf, he, Option.bind_eq_bind, Option.bind_some]
  rfl

/-- A numeral is read back from its text. -/
theorem numeral_text {n : Numeral} (h : n.Proper) {rest : List Char} (hr : Ends rest) :
    numeral ((n.text signedExponent).toList ++ rest) = some (n, rest) := by
  have hread := unsigned_chars h hr
  rw [toList_text, List.append_assoc, List.append_assoc, List.append_assoc]
  cases hneg : n.negative with
  | true =>
    rw [hneg] at hread
    exact hread
  | false =>
    rw [hneg] at hread
    obtain ⟨d, ds, hds⟩ := List.exists_cons_of_ne_nil h.whole_ne_nil
    have hd : d < 10 := h.whole_lt d (by rw [hds]; exact List.mem_cons_self)
    rw [hds, figures, List.map_cons, List.cons_append] at hread ⊢
    simp only [Bool.false_eq_true, if_false, List.nil_append]
    have hminus : Nat.digitChar d ≠ '-' := by interval_cases d <;> decide
    unfold numeral
    split
    · rename_i heq
      exact absurd (List.cons.inj heq).1 hminus
    · exact hread

theorem marks_simple {e c : Char} (h : simpleEscape? e = some c) (rest : List Char) :
    marks ('\\' :: e :: rest) = (marks rest).map fun r => (.char c :: r.1, r.2) := by
  have hu : e ≠ 'u' := by
    rintro rfl
    cases h
  rw [marks, h]
  · cases marks rest <;> rfl
  · intro _ _ _ _ _ he _
    exact hu he

theorem marks_plain {c : Char} (hq : c ≠ '"') (hb : c ≠ '\\') (hc : ¬ c.toNat < 32)
    (rest : List Char) : marks (c :: rest) = (marks rest).map fun r => (.char c :: r.1, r.2) := by
  rw [marks, if_neg (not_or.mpr ⟨hc, hb⟩)]
  · exact hq
  · intro _ _ _ _ _ he _
    exact hb he
  · intro _ _ he _
    exact hb he

theorem value?_control {n : Nat} (h : n < 32) :
    Radix.value? 16 ['0', '0', Nat.digitChar (n / 16), Nat.digitChar (n % 16)] = some n := by
  have hdigits : ∀ d ∈ [0, 0, n / 16, n % 16], d < 16 := by simp; omega
  have hread := Radix.mapM_digitValue? (show 16 ≤ 16 by omega) _ hdigits
  have hvalue : Radix.ofDigits 16 [0, 0, n / 16, n % 16] = n := by
    simp [Radix.ofDigits]
    omega
  rw [Radix.value?, if_neg (by simp)]
  exact (congrArg (Option.map (Radix.ofDigits 16)) hread).trans (congrArg some hvalue)

theorem markOfUnit_control {c : Char} (h : c.toNat < 32) : markOfUnit c.toNat = .char c := by
  have hhigh : isHigh c.toNat = false := by simp [isHigh]; omega
  have hlow : isLow c.toNat = false := by simp [isLow]; omega
  rw [markOfUnit, hhigh, hlow, Bool.or_self, if_neg Bool.false_ne_true, Char.ofNat_toNat]

theorem marks_control {c : Char} (h : c.toNat < 32) (rest : List Char) :
    marks ('\\' :: 'u' :: '0' :: '0' :: Nat.digitChar (c.toNat / 16) ::
        Nat.digitChar (c.toNat % 16) :: rest) =
      (marks rest).map fun r => (.char c :: r.1, r.2) := by
  rw [marks, value?_control h]
  cases marks rest with
  | none => rfl
  | some r => exact congrArg (fun m => some (m :: r.1, r.2)) (markOfUnit_control h)

/-- Every character is read back from its escape. -/
theorem marks_escapeChar (c : Char) (rest : List Char) :
    marks (escapeChar c ++ rest) = (marks rest).map fun r => (.char c :: r.1, r.2) := by
  unfold escapeChar
  split_ifs with hquote hslash hback htab hfeed hform hreturn hcontrol
  · exact marks_simple (by rw [hquote]; rfl) rest
  · exact marks_simple (by rw [hslash]; rfl) rest
  · exact marks_simple (by rw [hback]; rfl) rest
  · exact marks_simple (by rw [htab]; rfl) rest
  · exact marks_simple (by rw [hfeed]; rfl) rest
  · exact marks_simple (by rw [hform]; rfl) rest
  · exact marks_simple (by rw [hreturn]; rfl) rest
  · exact marks_control hcontrol rest
  · exact marks_plain hquote hslash hcontrol rest

theorem marks_flatMap (cs rest : List Char) :
    marks (cs.flatMap escapeChar ++ '"' :: rest) = some (cs.map .char, rest) := by
  induction cs with
  | nil => rfl
  | cons c cs ih =>
    rw [List.flatMap_cons, List.append_assoc, marks_escapeChar, ih]
    rfl

theorem joinMarks_map_char (cs : List Char) : joinMarks (cs.map .char) = some cs := by
  induction cs with
  | nil => rfl
  | cons c cs ih =>
    rw [List.map_cons, joinMarks, ih]
    rfl

theorem stringBody_escaped (s : String) (rest : List Char) :
    stringBody (s.toList.flatMap escapeChar ++ '"' :: rest) = some (some s, rest) := by
  rw [stringBody, marks_flatMap, Option.map_some, joinMarks_map_char, Option.map_some,
    String.ofList_toList]

theorem skipBlank_cons {c : Char} (h : isBlank c = false) (cs : List Char) :
    skipBlank (c :: cs) = c :: cs := by
  rw [skipBlank, List.dropWhile_cons_of_neg (by rw [h]; exact Bool.false_ne_true)]

theorem Ends.skipBlank {cs : List Char} (h : Ends cs) : skipBlank cs = cs := by
  rcases h.cases with rfl | ⟨rest, rfl⟩ | ⟨rest, rfl⟩ | ⟨rest, rfl⟩
  all_goals rfl

theorem value_string (fuel : Nat) (cs : List Char) :
    value (fuel + 1) ('"' :: cs) = (stringBody cs).map fun r => (.string r.1, r.2) := rfl

theorem value_negative (fuel : Nat) (cs : List Char) :
    value (fuel + 1) ('-' :: cs) = (numeral ('-' :: cs)).map fun r => (.number r.1, r.2) := rfl

theorem value_digit (fuel : Nat) {d : Nat} (h : d < 10) (cs : List Char) :
    value (fuel + 1) (Nat.digitChar d :: cs) =
      (numeral (Nat.digitChar d :: cs)).map fun r => (.number r.1, r.2) := by
  interval_cases d <;> rfl

theorem value_array (fuel : Nat) {c : Char} (hb : isBlank c = false) (hc : c ≠ ']')
    (cs : List Char) :
    value (fuel + 1) ('[' :: c :: cs) = (items fuel (c :: cs)).map fun r => (.array r.1, r.2) := by
  have hopen : isBlank '[' = false := by decide
  simp [value, skipBlank_cons hopen, skipBlank_cons hb, hc]

theorem value_object (fuel : Nat) {c : Char} (hb : isBlank c = false) (hc : c ≠ '\x7d')
    (cs : List Char) :
    value (fuel + 1) ('\x7b' :: c :: cs) =
      (members fuel (c :: cs)).map fun r => (.object r.1, r.2) := by
  have hopen : isBlank '\x7b' = false := by decide
  simp [value, skipBlank_cons hopen, skipBlank_cons hb, hc]

theorem exists_text_cons {n : Numeral} (h : n.Proper) :
    ∃ c cs, (n.text signedExponent).toList = c :: cs ∧
      (c = '-' ∨ ∃ d < 10, c = Nat.digitChar d) := by
  rw [toList_text]
  cases n.negative with
  | true => exact ⟨'-', _, rfl, Or.inl rfl⟩
  | false =>
    obtain ⟨d, ds, hds⟩ := List.exists_cons_of_ne_nil h.whole_ne_nil
    have hd : d < 10 := h.whole_lt d (by rw [hds]; exact List.mem_cons_self)
    rw [hds]
    exact ⟨Nat.digitChar d, _, rfl, Or.inr ⟨d, hd, rfl⟩⟩

theorem value_number (fuel : Nat) {n : Numeral} (h : n.Proper) {rest : List Char}
    (hr : Ends rest) :
    value (fuel + 1) ((n.text signedExponent).toList ++ rest) = some (.number n, rest) := by
  have hread := numeral_text h hr
  obtain ⟨c, cs, hcs, rfl | ⟨d, hd, rfl⟩⟩ := exists_text_cons h
  · rw [hcs, List.cons_append] at hread ⊢
    rw [value_negative, hread]
    rfl
  · rw [hcs, List.cons_append] at hread ⊢
    rw [value_digit fuel hd, hread]
    rfl

/-- A value starts with a character that neither is blank nor closes a bracket. -/
theorem exists_chars_cons (j : Json) (h : j.Proper) :
    ∃ c cs, j.chars = c :: cs ∧ isBlank c = false ∧ c ≠ ']' := by
  match j with
  | .null => exact ⟨'n', _, rfl, by decide, by decide⟩
  | .bool true => exact ⟨'t', _, rfl, by decide, by decide⟩
  | .bool false => exact ⟨'f', _, rfl, by decide, by decide⟩
  | .string s => exact ⟨'"', _, rfl, by decide, by decide⟩
  | .array items => exact ⟨'[', _, rfl, by decide, by decide⟩
  | .object members => exact ⟨'\x7b', _, rfl, by decide, by decide⟩
  | .number n =>
    obtain ⟨c, cs, hcs, rfl | ⟨d, hd, rfl⟩⟩ := exists_text_cons h
    · exact ⟨'-', cs, hcs, by decide, by decide⟩
    · refine ⟨Nat.digitChar d, cs, hcs, ?_, ?_⟩
      · interval_cases d <;> decide
      · interval_cases d <;> decide

theorem quoted_append (s : String) (rest : List Char) :
    quoted (some s) ++ rest = '"' :: (s.toList.flatMap escapeChar ++ '"' :: rest) := by
  simp [quoted]

theorem itemsChars_cons (j k : Json) (js : List Json) :
    itemsChars (j :: k :: js) = j.chars ++ ',' :: itemsChars (k :: js) := by
  rw [itemsChars]
  simp

theorem membersChars_cons (m k : Member) (ms : List Member) :
    membersChars (m :: k :: ms) = memberChars m ++ ',' :: membersChars (k :: ms) := by
  rw [membersChars]
  simp

mutual

theorem value_chars (j : Json) (h : j.Proper) (fuel : Nat) (hf : 3 * j.chars.length ≤ fuel)
    {rest : List Char} (hr : Ends rest) : value fuel (j.chars ++ rest) = some (j, rest) := by
  have hpos : 0 < j.chars.length := by
    obtain ⟨c, cs, hcs, -, -⟩ := exists_chars_cons j h
    rw [hcs]
    exact Nat.succ_pos _
  obtain ⟨fuel, rfl⟩ : ∃ k, fuel = k + 1 := ⟨fuel - 1, by omega⟩
  match j with
  | .null => rfl
  | .bool true => rfl
  | .bool false => rfl
  | .number n => exact value_number fuel h hr
  | .string none => cases h
  | .string (some s) =>
    rw [Json.chars, quoted_append, value_string, stringBody_escaped]
    rfl
  | .array js =>
    by_cases hnil : js = []
    · subst hnil
      rfl
    · have hlen : (Json.array js).chars.length = (itemsChars js).length + 2 := by
        simp [Json.chars]
      have hread := items_chars js hnil h fuel (by omega) rest
      obtain ⟨k, ks, rfl⟩ := List.exists_cons_of_ne_nil hnil
      obtain ⟨c, cs, hcs, hb, hc⟩ := exists_chars_cons k h.1
      have hitems : ∃ cs, itemsChars (k :: ks) ++ ']' :: rest = c :: cs := by
        rw [itemsChars, hcs]
        exact ⟨_, rfl⟩
      obtain ⟨cs', hcs'⟩ := hitems
      have htext : (Json.array (k :: ks)).chars ++ rest =
          '[' :: (itemsChars (k :: ks) ++ ']' :: rest) := by
        simp [Json.chars]
      rw [htext, hcs', value_array fuel hb hc, ← hcs', hread]
      rfl
  | .object ms =>
    by_cases hnil : ms = []
    · subst hnil
      rfl
    · have hlen : (Json.object ms).chars.length = (membersChars ms).length + 2 := by
        simp [Json.chars]
      have hread := members_chars ms hnil h fuel (by omega) rest
      obtain ⟨⟨key, k⟩, ks, rfl⟩ := List.exists_cons_of_ne_nil hnil
      have hmembers : ∃ cs, membersChars (⟨key, k⟩ :: ks) ++ '\x7d' :: rest = '"' :: cs := by
        rw [membersChars, memberChars, quoted]
        exact ⟨_, rfl⟩
      obtain ⟨cs', hcs'⟩ := hmembers
      have htext : (Json.object (⟨key, k⟩ :: ks)).chars ++ rest =
          '\x7b' :: (membersChars (⟨key, k⟩ :: ks) ++ '\x7d' :: rest) := by
        simp [Json.chars]
      rw [htext, hcs', value_object fuel (by decide) (by decide), ← hcs', hread]
      rfl
termination_by structural j

theorem items_chars (js : List Json) (hne : js ≠ []) (h : Json.AllProper js) (fuel : Nat)
    (hf : 3 * (itemsChars js).length + 1 ≤ fuel) (rest : List Char) :
    items fuel (itemsChars js ++ ']' :: rest) = some (js, rest) := by
  obtain ⟨fuel, rfl⟩ : ∃ k, fuel = k + 1 := ⟨fuel - 1, by omega⟩
  match js with
  | [] => exact absurd rfl hne
  | [j] =>
    have htext : itemsChars [j] = j.chars := by simp [itemsChars]
    rw [htext] at hf ⊢
    have hread := value_chars j h.1 fuel (by omega) (ends_bracket rest)
    rw [items, hread]
    rfl
  | j :: k :: js =>
    rw [itemsChars_cons, List.length_append, List.length_cons] at hf
    have hread := value_chars j h.1 fuel (by omega)
      (ends_comma (itemsChars (k :: js) ++ ']' :: rest))
    have hrest := items_chars (k :: js) (List.cons_ne_nil k js) h.2 fuel (by omega) rest
    rw [itemsChars_cons, List.append_assoc, List.cons_append, items, hread]
    simp only [(ends_comma (itemsChars (k :: js) ++ ']' :: rest)).skipBlank, hrest]
    rfl
termination_by structural js

theorem member_chars (m : Member) (h : m.Proper) (fuel : Nat)
    (hf : 3 * (memberChars m).length ≤ fuel) {rest : List Char} (hr : Ends rest) :
    member fuel (memberChars m ++ rest) = some (m, rest) := by
  match m with
  | ⟨none, j⟩ => cases h.1
  | ⟨some key, j⟩ =>
    have hlen : (memberChars ⟨some key, j⟩).length =
        (quoted (some key)).length + (j.chars.length + 1) := by
      simp [memberChars]
    obtain ⟨fuel, rfl⟩ : ∃ k, fuel = k + 1 := ⟨fuel - 1, by omega⟩
    have hread := value_chars j h.2 fuel (by omega) hr
    have htext : memberChars ⟨some key, j⟩ ++ rest =
        '"' :: (key.toList.flatMap escapeChar ++ '"' :: ':' :: (j.chars ++ rest)) := by
      rw [memberChars, List.append_assoc, List.append_assoc, quoted_append]
      rfl
    rw [htext, member, skipBlank_cons (by decide)]
    simp only [stringBody_escaped, skipBlank_cons (show isBlank ':' = false by decide), hread]
    rfl
termination_by structural m

theorem members_chars (ms : List Member) (hne : ms ≠ []) (h : Member.AllProper ms) (fuel : Nat)
    (hf : 3 * (membersChars ms).length + 1 ≤ fuel) (rest : List Char) :
    members fuel (membersChars ms ++ '\x7d' :: rest) = some (ms, rest) := by
  obtain ⟨fuel, rfl⟩ : ∃ k, fuel = k + 1 := ⟨fuel - 1, by omega⟩
  match ms with
  | [] => exact absurd rfl hne
  | [m] =>
    have htext : membersChars [m] = memberChars m := by simp [membersChars]
    rw [htext] at hf ⊢
    have hread := member_chars m h.1 fuel (by omega) (ends_brace rest)
    rw [members, hread]
    rfl
  | m :: k :: ms =>
    rw [membersChars_cons, List.length_append, List.length_cons] at hf
    have hread := member_chars m h.1 fuel (by omega)
      (ends_comma (membersChars (k :: ms) ++ '\x7d' :: rest))
    have hrest := members_chars (k :: ms) (List.cons_ne_nil k ms) h.2 fuel (by omega) rest
    rw [membersChars_cons, List.append_assoc, List.cons_append, members, hread]
    simp only [(ends_comma (membersChars (k :: ms) ++ '\x7d' :: rest)).skipBlank, hrest]
    rfl
termination_by structural ms

end

end Json.Reader

/-- Every proper value is read back from its compact text. -/
theorem Json.parse?_render {j : Json} (h : j.Proper) : parse? j.render = some j := by
  have hread := Reader.value_chars j h (Reader.enough j.chars) (by unfold Reader.enough; omega)
    Reader.ends_nil
  rw [List.append_nil] at hread
  rw [parse?, render, String.toList_ofList, hread]
  rfl

end CodeDump
