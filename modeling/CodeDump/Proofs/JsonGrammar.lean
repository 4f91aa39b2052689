import CodeDump.Proofs.JsonText

/-!
# Every spelling of a JSON value is read

`Spells j t` is the grammar of JSON: the text `t` spells the value `j`. Blanks may stand in front
of every token, a character of a string may be escaped in each of its ways, and an exponent has
either mark, any sign and any leading zeros. The reader takes every such text for the value that it
spells, and the compact text is one of them.

As with compact texts, every scanner is shown to stop where the spelling stops, whatever comes
then. Only a numeral needs to know that it does not go on there, which is what `Halts` says.
-/

namespace CodeDump.Json

open Reader

def Blank (t : List Char) : Prop := ∀ c ∈ t, c ∈ [' ', '\t', '\n', '\r']

inductive SpellsMark : Mark → List Char → Prop
  | plain {c : Char} : 32 ≤ c.toNat → c ≠ '"' → c ≠ '\\' → SpellsMark (.char c) [c]
  | short {e c : Char} : simpleEscape? e = some c → SpellsMark (.char c) ['\\', e]
  | unit {a b c d : Char} {u : Nat} : Radix.value? 16 [a, b, c, d] = some u →
      SpellsMark (markOfUnit u) ['\\', 'u', a, b, c, d]

inductive SpellsMarks : List Mark → List Char → Prop
  | nil : SpellsMarks [] []
  | cons {m : Mark} {t : List Char} {ms : List Mark} {u : List Char} : SpellsMark m t →
      SpellsMarks ms u → SpellsMarks (m :: ms) (t ++ u)

inductive SpellsString : Option String → List Char → Prop
  | quoted {ms : List Mark} {t : List Char} : SpellsMarks ms t →
      SpellsString ((joinMarks ms).map String.ofList) ('"' :: (t ++ ['"']))

/-- At least one digit. -/
def Digits (ds : List Nat) : Prop := ds ≠ [] ∧ ∀ d ∈ ds, d < 10

inductive SpellsExponent : Option Int → List Char → Prop
  | none : SpellsExponent none []
  | unsigned {mark : Char} {ds : List Nat} : mark = 'e' ∨ mark = 'E' → Digits ds →
      SpellsExponent (some (Radix.ofDigits 10 ds)) (mark :: figures ds)
  | plus {mark : Char} {ds : List Nat} : mark = 'e' ∨ mark = 'E' → Digits ds →
      SpellsExponent (some (Radix.ofDigits 10 ds)) (mark :: '+' :: figures ds)
  | minus {mark : Char} {ds : List Nat} : mark = 'e' ∨ mark = 'E' → Digits ds →
      SpellsExponent (some (-(Radix.ofDigits 10 ds : Int))) (mark :: '-' :: figures ds)

inductive SpellsNumeral : Numeral → List Char → Prop
  | mk {n : Numeral} {t : List Char} : n.Proper → SpellsExponent n.exponent t →
      SpellsNumeral n ((if n.negative then ['-'] else []) ++
        (figures n.whole ++ (fractionChars n.fraction ++ t)))

mutual

/-- The text spells the value, with blanks in front of it and inside. -/
inductive Spells : Json → List Char → Prop
  | null {b : List Char} : Blank b → Spells .null (b ++ ['n', 'u', 'l', 'l'])
  | true {b : List Char} : Blank b → Spells (.bool true) (b ++ ['t', 'r', 'u', 'e'])
  | false {b : List Char} : Blank b → Spells (.bool false) (b ++ ['f', 'a', 'l', 's', 'e'])
  | number {b : List Char} {n : Numeral} {t : List Char} : Blank b → SpellsNumeral n t →
      Spells (.number n) (b ++ t)
  | string {b : List Char} {s : Option String} {t : List Char} : Blank b → SpellsString s t →
      Spells (.string s) (b ++ t)
  | noItems {b c : List Char} : Blank b → Blank c → Spells (.array []) (b ++ '[' :: (c ++ [']']))
  | array {b : List Char} {js : List Json} {t : List Char} : Blank b → SpellsItems js t →
      Spells (.array js) (b ++ '[' :: (t ++ [']']))
  | noMembers {b c : List Char} : Blank b → Blank c →
      Spells (.object []) (b ++ '\x7b' :: (c ++ ['\x7d']))
  | object {b : List Char} {ms : List Member} {t : List Char} : Blank b → SpellsMembers ms t →
      Spells (.object ms) (b ++ '\x7b' :: (t ++ ['\x7d']))

/-- At least one item. -/
inductive SpellsItems : List Json → List Char → Prop
  | last {j : Json} {t b : List Char} : Spells j t → Blank b → SpellsItems [j] (t ++ b)
  | more {j : Json} {t b : List Char} {js : List Json} {u : List Char} : Spells j t → Blank b →
      SpellsItems js u → SpellsItems (j :: js) (t ++ (b ++ ',' :: u))

inductive SpellsMember : Member → List Char → Prop
  | mk {b : List Char} {key : Option String} {t c : List Char} {j : Json} {u : List Char} :
      Blank b → SpellsString key t → Blank c → Spells j u →
        SpellsMember ⟨key, j⟩ (b ++ (t ++ (c ++ ':' :: u)))

/-- At least one member. -/
inductive SpellsMembers : List Member → List Char → Prop
  | last {m : Member} {t b : List Char} : SpellsMember m t → Blank b → SpellsMembers [m] (t ++ b)
  | more {m : Member} {t b : List Char} {ms : List Member} {u : List Char} : SpellsMember m t →
      Blank b → SpellsMembers ms u → SpellsMembers (m :: ms) (t ++ (b ++ ',' :: u))

end

theorem blank_nil : Blank [] := by simp [Blank]

theorem Blank.isBlank {b : List Char} (h : Blank b) : ∀ c ∈ b, isBlank c = Bool.true := by
  intro c hc
  have hmem := h c hc
  simp only [List.mem_cons, List.not_mem_nil, or_false] at hmem
  rcases hmem with rfl | rfl | rfl | rfl <;> rfl

theorem Blank.skipBlank {b : List Char} (h : Blank b) (t : List Char) :
    skipBlank (b ++ t) = skipBlank t := List.dropWhile_append_of_pos h.isBlank

theorem marks_unit {a b c d : Char} {u : Nat} (h : Radix.value? 16 [a, b, c, d] = some u)
    (rest : List Char) :
    marks ('\\' :: 'u' :: a :: b :: c :: d :: rest) =
      (marks rest).map fun r => (markOfUnit u :: r.1, r.2) := by
  rw [marks, h]
  cases marks rest <;> rfl

theorem SpellsMark.marks_append {m : Mark} {t : List Char} (h : SpellsMark m t)
    (rest : List Char) : marks (t ++ rest) = (marks rest).map fun r => (m :: r.1, r.2) := by
  cases h with
  | plain hc hq hb => exact marks_plain hq hb (by omega) rest
  | short he => exact marks_simple he rest
  | unit hu => exact marks_unit hu rest

theorem SpellsMarks.marks_append {ms : List Mark} {t : List Char} (h : SpellsMarks ms t)
    (rest : List Char) : marks (t ++ '"' :: rest) = some (ms, rest) := by
  induction h with
  | nil => rfl
  | cons hm _ ih =>
    rw [List.append_assoc, hm.marks_append, ih]
    rfl

/-- A string begins with its quote, and what is behind it is read as the string. -/
theorem SpellsString.stringBody_append {s : Option String} {t : List Char}
    (h : SpellsString s t) (rest : List Char) :
    ∃ u, t ++ rest = '"' :: u ∧ stringBody u = some (s, rest) := by
  obtain ⟨hms⟩ := h
  rename_i ms t
  refine ⟨t ++ '"' :: rest, by simp, ?_⟩
  rw [stringBody, hms.marks_append]
  rfl

/-- A numeral does not go on. -/
def Halts (t : List Char) : Prop :=
  ∀ c ∈ t.head?, isDigit c = Bool.false ∧ c ≠ '.' ∧ c ≠ 'e' ∧ c ≠ 'E'

theorem Halts.noDigit {t : List Char} (h : Halts t) : NoDigit t := fun c hc => (h c hc).1

/-- Neither a blank nor a comma or a closing bracket goes on with a numeral. -/
theorem Blank.halts {b : List Char} (h : Blank b) {t : List Char} (ht : Halts t) :
    Halts (b ++ t) := by
  cases b with
  | nil => exact ht
  | cons c b =>
    intro x hx
    cases hx
    have hmem := h c List.mem_cons_self
    simp only [List.mem_cons, List.not_mem_nil, or_false] at hmem
    rcases hmem with rfl | rfl | rfl | rfl <;> decide

theorem halts_of_ends {t : List Char} (h : Ends t) : Halts t := by
  rcases h.cases with rfl | ⟨rest, rfl⟩ | ⟨rest, rfl⟩ | ⟨rest, rfl⟩
  · intro c hc
    cases hc
  all_goals
    intro c hc
    cases hc
    decide

theorem exists_figures_cons {ds : List Nat} (h : Digits ds) :
    ∃ c cs, figures ds = c :: cs ∧ c ≠ '-' ∧ c ≠ '+' := by
  obtain ⟨d, ds, rfl⟩ := List.exists_cons_of_ne_nil h.1
  have hd : d < 10 := h.2 d List.mem_cons_self
  refine ⟨Nat.digitChar d, figures ds, rfl, ?_, ?_⟩
  · interval_cases d <;> decide
  · interval_cases d <;> decide

theorem exponentDigits_figures (negative : Bool) {ds : List Nat} (h : Digits ds)
    {rest : List Char} (hr : NoDigit rest) :
    exponentDigits negative (figures ds ++ rest) =
      some (some (if negative then -(Radix.ofDigits 10 ds : Int) else Radix.ofDigits 10 ds),
        rest) := by
  rw [exponentDigits, digits_figures h.1 h.2 hr]
  rfl

theorem SpellsExponent.exponent_append {e : Option Int} {t : List Char}
    (h : SpellsExponent e t) {rest : List Char} (hr : Halts rest) :
    exponent (t ++ rest) = some (e, rest) := by
  cases h with
  | none =>
    cases rest with
    | nil => rfl
    | cons c rest =>
      obtain ⟨-, -, he, hE⟩ := hr c rfl
      exact if_neg (not_or.mpr ⟨he, hE⟩)
  | unsigned hm hd =>
    obtain ⟨c, cs, hcs, hminus, hplus⟩ := exists_figures_cons hd
    rw [List.cons_append, exponent, if_pos hm]
    · exact exponentDigits_figures .false hd hr.noDigit
    · intro ds heq
      rw [hcs] at heq
      exact hminus (List.cons.inj heq).1
    · intro ds heq
      rw [hcs] at heq
      exact hplus (List.cons.inj heq).1
  | plus hm hd => exact (if_pos hm).trans (exponentDigits_figures .false hd hr.noDigit)
  | minus hm hd => exact (if_pos hm).trans (exponentDigits_figures .true hd hr.noDigit)

/-- What follows the digits of a numeral neither is a digit nor begins with a point. -/
theorem SpellsExponent.head_append {e : Option Int} {t : List Char} (h : SpellsExponent e t)
    {rest : List Char} (hr : Halts rest) :
    ∀ c ∈ (t ++ rest).head?, isDigit c = Bool.false ∧ c ≠ '.' := by
  cases h with
  | none =>
    intro c hc
    exact ⟨(hr c hc).1, (hr c hc).2.1⟩
  | unsigned hm _ | plus hm _ | minus hm _ =>
    intro c hc
    cases hc
    rcases hm with rfl | rfl <;> decide

theorem SpellsExponent.fraction_append {e : Option Int} {t : List Char} (h : SpellsExponent e t)
    {ds : List Nat} (hd : ∀ d ∈ ds, d < 10) {rest : List Char} (hr : Halts rest) :
    fraction (fractionChars ds ++ (t ++ rest)) = some (ds, t ++ rest) := by
  have hhead := h.head_append hr
  cases ds with
  | nil =>
    change fraction (t ++ rest) = _
    unfold fraction
    split
    · rename_i heq
      rw [heq] at hhead
      exact absurd rfl (hhead '.' rfl).2
    · rfl
  | cons d ds =>
    change digits (figures (d :: ds) ++ (t ++ rest)) = _
    exact digits_figures (List.cons_ne_nil d ds) hd fun c hc => (hhead c hc).1

theorem SpellsExponent.noDigit_append {e : Option Int} {t : List Char} (h : SpellsExponent e t)
    (ds : List Nat) {rest : List Char} (hr : Halts rest) :
    NoDigit (fractionChars ds ++ (t ++ rest)) := by
  cases ds with
  | nil => exact fun c hc => (h.head_append hr c hc).1
  | cons d ds => exact noDigit_cons (by decide) _

theorem SpellsNumeral.numeral_append {n : Numeral} {t : List Char} (h : SpellsNumeral n t)
    {rest : List Char} (hr : Halts rest) : numeral (t ++ rest) = some (n, rest) := by
  obtain ⟨hn, he⟩ := h
  rename_i t
  have hread : unsigned n.negative
      (figures n.whole ++ (fractionChars n.fraction ++ (t ++ rest))) = some (n, rest) := by
    have hw := whole_figures hn (he.noDigit_append n.fraction hr)
    have hf := he.fraction_append hn.fraction_lt hr
    simp only [unsigned, hw, hf, he.exponent_append hr, Option.bind_eq_bind, Option.bind_some]
    rfl
  rw [List.append_assoc, List.append_assoc, List.append_assoc]
  cases hneg : n.negative with
  | true =>
    rw [hneg] at hread
    exact hread
  | false =>
    rw [hneg] at hread
    obtain ⟨c, cs, hcs, hminus, -⟩ := exists_figures_cons ⟨hn.whole_ne_nil, hn.whole_lt⟩
    rw [hcs] at hread ⊢
    simp only [Bool.false_eq_true, if_false, List.nil_append]
    unfold numeral
    split
    · rename_i heq
      exact absurd (List.cons.inj heq).1 hminus
    · exact hread

theorem SpellsNumeral.exists_cons {n : Numeral} {t : List Char} (h : SpellsNumeral n t) :
    ∃ c cs, t = c :: cs ∧ (c = '-' ∨ ∃ d < 10, c = Nat.digitChar d) := by
  obtain ⟨hn, -⟩ := h
  cases n.negative with
  | true => exact ⟨'-', _, rfl, Or.inl rfl⟩
  | false =>
    obtain ⟨d, ds, hds⟩ := List.exists_cons_of_ne_nil hn.whole_ne_nil
    have hd : d < 10 := hn.whole_lt d (by rw [hds]; exact List.mem_cons_self)
    rw [hds]
    exact ⟨Nat.digitChar d, _, rfl, Or.inr ⟨d, hd, rfl⟩⟩

/-- Behind its blanks a value begins with a character that closes no bracket. -/
theorem Spells.skipBlank_append {j : Json} {t : List Char} (h : Spells j t) (rest : List Char) :
    ∃ c cs, skipBlank (t ++ rest) = c :: cs ∧ c ≠ ']' := by
  cases h with
  | null hb | true hb | false hb | noItems hb _ | array hb _ | noMembers hb _ | object hb _ =>
    rw [List.append_assoc, hb.skipBlank]
    exact ⟨_, _, skipBlank_cons (by decide) _, by decide⟩
  | string hb hs =>
    rw [List.append_assoc, hb.skipBlank]
    obtain ⟨u, hu, -⟩ := hs.stringBody_append rest
    rw [hu]
    exact ⟨_, _, skipBlank_cons (by decide) _, by decide⟩
  | number hb hn =>
    rw [List.append_assoc, hb.skipBlank]
    obtain ⟨c, cs, rfl, rfl | ⟨d, hd, rfl⟩⟩ := hn.exists_cons
    · exact ⟨_, _, skipBlank_cons (by decide) _, by decide⟩
    · refine ⟨_, _, skipBlank_cons ?_ _, ?_⟩
      · interval_cases d <;> decide
      · interval_cases d <;> decide

theorem Spells.length_pos {j : Json} {t : List Char} (h : Spells j t) : 0 < t.length := by
  obtain ⟨c, cs, hcs, -⟩ := h.skipBlank_append []
  cases t with
  | nil => cases hcs
  | cons _ _ => exact Nat.succ_pos _

theorem SpellsItems.skipBlank_append {js : List Json} {t : List Char} (h : SpellsItems js t)
    (rest : List Char) : ∃ c cs, skipBlank (t ++ rest) = c :: cs ∧ c ≠ ']' := by
  cases h with
  | last hj _ | more hj _ _ =>
    rw [List.append_assoc]
    exact hj.skipBlank_append _

theorem SpellsMembers.skipBlank_append {ms : List Member} {t : List Char}
    (h : SpellsMembers ms t) (rest : List Char) :
    ∃ c cs, skipBlank (t ++ rest) = c :: cs ∧ c ≠ '\x7d' := by
  cases h with
  | last hm _ | more hm _ _ =>
    obtain ⟨hb, hkey, -, -⟩ := hm
    rw [List.append_assoc, List.append_assoc, hb.skipBlank, List.append_assoc]
    obtain ⟨u, hu, -⟩ := hkey.stringBody_append _
    rw [hu]
    exact ⟨_, _, skipBlank_cons (by decide) _, by decide⟩

/-- Blanks in front of a value are skipped. -/
theorem Blank.value_append {b : List Char} (h : Blank b) (fuel : Nat) (t : List Char) :
    value (fuel + 1) (b ++ t) = value (fuel + 1) t := by
  rw [value, value, h.skipBlank]

theorem value_items (fuel : Nat) {t : List Char}
    (h : ∃ c cs, skipBlank t = c :: cs ∧ c ≠ ']') :
    value (fuel + 1) ('[' :: t) = (items fuel t).map fun r => (.array r.1, r.2) := by
  obtain ⟨c, cs, hcs, hc⟩ := h
  have hopen : isBlank '[' = Bool.false := by decide
  simp [value, skipBlank_cons hopen, hcs, hc]

theorem value_members (fuel : Nat) {t : List Char}
    (h : ∃ c cs, skipBlank t = c :: cs ∧ c ≠ '\x7d') :
    value (fuel + 1) ('\x7b' :: t) = (members fuel t).map fun r => (.object r.1, r.2) := by
  obtain ⟨c, cs, hcs, hc⟩ := h
  have hopen : isBlank '\x7b' = Bool.false := by decide
  simp [value, skipBlank_cons hopen, hcs, hc]

mutual

theorem Spells.value_append {j : Json} {t : List Char} (h : Spells j t) (fuel : Nat)
    (hf : 3 * t.length ≤ fuel) {rest : List Char} (hr : Halts rest) :
    value fuel (t ++ rest) = some (j, rest) := by
  have hpos := h.length_pos
  obtain ⟨fuel, rfl⟩ : ∃ k, fuel = k + 1 := ⟨fuel - 1, by omega⟩
  match h with
  | .null hb | .true hb | .false hb =>
    rw [List.append_assoc, hb.value_append]
    rfl
  | .number hb hn =>
    rw [List.append_assoc, hb.value_append]
    have hread := hn.numeral_append hr
    obtain ⟨c, cs, rfl, rfl | ⟨d, hd, rfl⟩⟩ := hn.exists_cons
    · rw [List.cons_append] at hread ⊢
      rw [value_negative, hread]
      rfl
    · rw [List.cons_append] at hread ⊢
      rw [value_digit fuel hd, hread]
      rfl
  | .string hb hs =>
    obtain ⟨u, hu, hread⟩ := hs.stringBody_append rest
    rw [List.append_assoc, hb.value_append, hu, value_string, hread]
    rfl
  | .noItems hb hc =>
    rw [List.append_assoc, hb.value_append, List.cons_append, List.append_assoc, value,
      skipBlank_cons (by decide)]
    simp only [hc.skipBlank]
    rfl
  | .array hb hjs =>
    rw [List.length_append, List.length_cons, List.length_append] at hf
    have hread := hjs.items_append fuel (by omega) rest
    rw [List.append_assoc, hb.value_append, List.cons_append, List.append_assoc,
      value_items fuel (hjs.skipBlank_append _)]
    exact congrArg _ hread
  | .noMembers hb hc =>
    rw [List.append_assoc, hb.value_append, List.cons_append, List.append_assoc, value,
      skipBlank_cons (by decide)]
    simp only [hc.skipBlank]
    rfl
  | .object hb hms =>
    rw [List.length_append, List.length_cons, List.length_append] at hf
    have hread := hms.members_append fuel (by omega) rest
    rw [List.append_assoc, hb.value_append, List.cons_append, List.append_assoc,
      value_members fuel (hms.skipBlank_append _)]
    exact congrArg _ hread
termination_by structural h

theorem SpellsItems.items_append {js : List Json} {t : List Char} (h : SpellsItems js t)
    (fuel : Nat) (hf : 3 * t.length + 1 ≤ fuel) (rest : List Char) :
    items fuel (t ++ ']' :: rest) = some (js, rest) := by
  obtain ⟨fuel, rfl⟩ : ∃ k, fuel = k + 1 := ⟨fuel - 1, by omega⟩
  match h with
  | .last hj hb =>
    rw [List.length_append] at hf
    have hread := hj.value_append fuel (by omega) (hb.halts (halts_of_ends (ends_bracket rest)))
    rw [List.append_assoc, items, hread]
    simp only [hb.skipBlank]
    rfl
  | .more (u := u) hj hb hjs =>
    rw [List.length_append, List.length_append, List.length_cons] at hf
    have hread := hj.value_append fuel (by omega)
      (hb.halts (halts_of_ends (ends_comma (u ++ ']' :: rest))))
    have hrest := hjs.items_append fuel (by omega) rest
    rw [List.append_assoc, List.append_assoc, List.cons_append, items, hread]
    simp only [hb.skipBlank, (ends_comma (u ++ ']' :: rest)).skipBlank, hrest]
    rfl
termination_by structural h

theorem SpellsMember.member_append {m : Member} {t : List Char} (h : SpellsMember m t)
    (fuel : Nat) (hf : 3 * t.length ≤ fuel) {rest : List Char} (hr : Halts rest) :
    member fuel (t ++ rest) = some (m, rest) := by
  match h with
  | .mk (b := b) (t := t) (c := c) (u := u) hb hkey hc hj =>
    simp only [List.length_append, List.length_cons] at hf
    obtain ⟨fuel, rfl⟩ : ∃ k, fuel = k + 1 := ⟨fuel - 1, by omega⟩
    have hread := hj.value_append fuel (by omega) hr
    obtain ⟨v, hv, hbody⟩ := hkey.stringBody_append (c ++ ':' :: (u ++ rest))
    have htext : b ++ (t ++ (c ++ ':' :: u)) ++ rest = b ++ '"' :: v := by
      rw [← hv]
      simp
    rw [htext, member, hb.skipBlank, skipBlank_cons (by decide)]
    simp only [hbody, hc.skipBlank, skipBlank_cons (show isBlank ':' = Bool.false by decide), hread]
    rfl
termination_by structural h

theorem SpellsMembers.members_append {ms : List Member} {t : List Char} (h : SpellsMembers ms t)
    (fuel : Nat) (hf : 3 * t.length + 1 ≤ fuel) (rest : List Char) :
    members fuel (t ++ '\x7d' :: rest) = some (ms, rest) := by
  obtain ⟨fuel, rfl⟩ : ∃ k, fuel = k + 1 := ⟨fuel - 1, by omega⟩
  match h with
  | .last hm hb =>
    rw [List.length_append] at hf
    have hread := hm.member_append fuel (by omega) (hb.halts (halts_of_ends (ends_brace rest)))
    rw [List.append_assoc, members, hread]
    simp only [hb.skipBlank]
    rfl
  | .more (u := u) hm hb hms =>
    rw [List.length_append, List.length_append, List.length_cons] at hf
    have hread := hm.member_append fuel (by omega)
      (hb.halts (halts_of_ends (ends_comma (u ++ '\x7d' :: rest))))
    have hrest := hms.members_append fuel (by omega) rest
    rw [List.append_assoc, List.append_assoc, List.cons_append, members, hread]
    simp only [hb.skipBlank, (ends_comma (u ++ '\x7d' :: rest)).skipBlank, hrest]
    rfl
termination_by structural h

end

/-- A text that spells a value, with blanks behind it, is read as the value. -/
theorem Spells.parse? {j : Json} {t : List Char} (h : Spells j t) {b : List Char} (hb : Blank b) :
    parse? (String.ofList (t ++ b)) = some j := by
  have hread := h.value_append (Reader.enough (t ++ b))
    (by rw [Reader.enough, List.length_append]; omega)
    (hb.halts (halts_of_ends ends_nil))
  have hskip : skipBlank b = [] := by
    have hall := hb.skipBlank []
    rwa [List.append_nil] at hall
  rw [List.append_nil] at hread
  rw [Json.parse?, String.toList_ofList, hread]
  simp only [hskip]
  rfl

theorem spellsMark_escapeChar (c : Char) : SpellsMark (.char c) (escapeChar c) := by
  unfold escapeChar
  split_ifs with hquote hslash hback htab hfeed hform hreturn hcontrol
  · exact .short (by rw [hquote]; rfl)
  · exact .short (by rw [hslash]; rfl)
  · exact .short (by rw [hback]; rfl)
  · exact .short (by rw [htab]; rfl)
  · exact .short (by rw [hfeed]; rfl)
  · exact .short (by rw [hform]; rfl)
  · exact .short (by rw [hreturn]; rfl)
  · rw [← markOfUnit_control hcontrol]
    exact .unit (value?_control hcontrol)
  · exact .plain (by omega) hquote hslash

theorem spellsMarks_flatMap (cs : List Char) :
    SpellsMarks (cs.map .char) (cs.flatMap escapeChar) := by
  induction cs with
  | nil => exact .nil
  | cons c cs ih => exact .cons (spellsMark_escapeChar c) ih

theorem spellsString_quoted (s : String) : SpellsString (some s) (quoted (some s)) := by
  have h := SpellsString.quoted (spellsMarks_flatMap s.toList)
  rwa [joinMarks_map_char, Option.map_some, String.ofList_toList] at h

theorem spellsExponent_chars (e : Option Int) : SpellsExponent e (exponentChars e) := by
  cases e with
  | none => exact .none
  | some e =>
    have hd : Digits (Radix.digits 10 e.natAbs) :=
      ⟨Radix.digits_ne_nil 10 _, Radix.digit_lt (by omega) _⟩
    have hvalue := Radix.ofDigits_digits (show 2 ≤ 10 by omega) e.natAbs
    have hchars := toList_decimal e.natAbs
    by_cases he : e < 0
    · have h := SpellsExponent.minus (Or.inl rfl) hd
      rw [hvalue, show -(e.natAbs : Int) = e by omega] at h
      simpa [exponentChars, signedExponent, he, String.toList_append, hchars] using h
    · have h := SpellsExponent.plus (Or.inl rfl) hd
      rw [hvalue, show (e.natAbs : Int) = e by omega] at h
      simpa [exponentChars, signedExponent, he, String.toList_append, hchars] using h

theorem spellsNumeral_text {n : Numeral} (h : n.Proper) :
    SpellsNumeral n (n.text signedExponent).toList := by
  rw [toList_text]
  exact .mk h (spellsExponent_chars n.exponent)

mutual

theorem spells_chars (j : Json) (h : j.Proper) : Spells j j.chars := by
  match j with
  | .null => exact .null blank_nil
  | .bool true => exact .true blank_nil
  | .bool false => exact .false blank_nil
  | .number n => exact .number blank_nil (spellsNumeral_text h)
  | .string none => cases h
  | .string (some s) => exact .string (b := []) blank_nil (spellsString_quoted s)
  | .array [] => exact .noItems blank_nil blank_nil
  | .array (k :: ks) => exact .array blank_nil (spellsItems_chars (k :: ks) (by simp) h)
  | .object [] => exact .noMembers blank_nil blank_nil
  | .object (m :: ms) => exact .object blank_nil (spellsMembers_chars (m :: ms) (by simp) h)
termination_by structural j

theorem spellsItems_chars (js : List Json) (hne : js ≠ []) (h : Json.AllProper js) :
    SpellsItems js (itemsChars js) := by
  match js with
  | [] => exact absurd rfl hne
  | [j] =>
    have hlast := SpellsItems.last (spells_chars j h.1) blank_nil
    simpa [itemsChars] using hlast
  | j :: k :: js =>
    rw [itemsChars_cons]
    exact .more (spells_chars j h.1) blank_nil (spellsItems_chars (k :: js) (by simp) h.2)
termination_by structural js

theorem spellsMember_chars (m : Member) (h : m.Proper) : SpellsMember m (memberChars m) := by
  match m with
  | ⟨none, j⟩ => cases h.1
  | ⟨some key, j⟩ =>
    rw [memberChars, List.append_assoc]
    exact .mk blank_nil (spellsString_quoted key) blank_nil (spells_chars j h.2)
termination_by structural m

theorem spellsMembers_chars (ms : List Member) (hne : ms ≠ []) (h : Member.AllProper ms) :
    SpellsMembers ms (membersChars ms) := by
  match ms with
  | [] => exact absurd rfl hne
  | [m] =>
    have hlast := SpellsMembers.last (spellsMember_chars m h.1) blank_nil
    simpa [membersChars] using hlast
  | m :: k :: ms =>
    rw [membersChars_cons]
    exact .more (spellsMember_chars m h.1) blank_nil (spellsMembers_chars (k :: ms) (by simp) h.2)
termination_by structural ms

end

end CodeDump.Json
