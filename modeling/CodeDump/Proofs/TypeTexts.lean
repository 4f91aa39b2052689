import CodeDump.Proofs.Nesting

/-!
# Texts of structural types

A type without names, fields and parameters is written with keywords, sigils and brackets and
nothing between them. These `Mark`s are a prefix code, the length of an array being part of the
bracket that closes it, so a text determines its marks. The marks in turn determine the type: the
first of them says which form it has, except that a reference and a slice both begin with an
ampersand. They are told apart by what comes next and, where an array is referred to, by the length
at the end.
-/

namespace CodeDump

/-- A part of a type's text. -/
inductive Mark
  | prim (p : Prim)
  | unknown
  | pointer
  | optional
  | reference (isMut : Bool)
  | bracket
  /-- A closing bracket with the length in front of it, unless it is zero. -/
  | close (length : UInt64)
  deriving DecidableEq

namespace Mark

def text : Mark → String
  | prim p => p.keyword
  | unknown => "unknown"
  | pointer => "*"
  | optional => "?"
  | reference isMut => if isMut then "mut&" else "&"
  | bracket => "["
  | close length =>
      (if length = 0 then "" else " " ++ Radix.decimal length.toNat) ++ "]"

def chars (m : Mark) : List Char := m.text.toList

def isClose : Mark → Bool
  | close _ => true
  | _ => false

def prims : List Prim :=
  [.void, .bool, .i8, .i16, .i32, .i64, .int, .u8, .u16, .u32, .u64, .uint, .f32, .f64]

/-- All marks that close nothing. -/
def openers : List Mark :=
  prims.map prim ++ [unknown, pointer, optional, reference true, reference false, bracket]

theorem mem_openers {m : Mark} (h : m.isClose = false) : m ∈ openers := by
  cases m with
  | prim p => cases p <;> decide
  | reference isMut => cases isMut <;> decide
  | close length => cases h
  | unknown | pointer | optional | bracket => decide

theorem chars_close_zero : (close 0).chars = [']'] := by decide

theorem chars_close_of_ne {length : UInt64} (h : length ≠ 0) :
    (close length).chars = ' ' :: ((Radix.decimal length.toNat).toList ++ [']']) := by
  simp [chars, text, h]

theorem bracket_not_mem_decimal (n : Nat) : ']' ∉ (Radix.decimal n).toList :=
  free_decimal (by decide) n

theorem close_append_inj {n m : UInt64} {r r' : List Char}
    (h : (close n).chars ++ r = (close m).chars ++ r') : n = m ∧ r = r' := by
  by_cases hn : n = 0 <;> by_cases hm : m = 0
  · rw [hn, hm] at h ⊢
    exact ⟨rfl, List.append_cancel_left h⟩
  · rw [hn, chars_close_zero, chars_close_of_ne hm] at h
    simp at h
  · rw [hm, chars_close_zero, chars_close_of_ne hn] at h
    simp at h
  · rw [chars_close_of_ne hn, chars_close_of_ne hm, List.cons_append, List.cons_append,
      List.append_assoc, List.append_assoc, List.cons.injEq] at h
    have hbefore := congrArg (before ']') h.2
    have hbehind := congrArg (behind ']') h.2
    rw [List.singleton_append, List.singleton_append, before_append (bracket_not_mem_decimal _),
      before_append (bracket_not_mem_decimal _)] at hbefore
    rw [List.singleton_append, List.singleton_append, behind_append (bracket_not_mem_decimal _),
      behind_append (bracket_not_mem_decimal _), List.cons.injEq] at hbehind
    have hvalue := congrArg (Radix.value? 10) hbefore
    rw [Radix.value?_decimal, Radix.value?_decimal, Option.some.injEq] at hvalue
    exact ⟨UInt64.toNat_inj.mp hvalue, hbehind.2⟩

theorem eq_of_prefix_of_mem_openers :
    ∀ a ∈ openers, ∀ b ∈ openers, a.chars <+: b.chars → a = b := by
  decide

/-- A closing mark begins with a character that no other mark begins with. -/
theorem head?_chars_openers : ∀ a ∈ openers, a.chars.head? ≠ some ' ' ∧
    a.chars.head? ≠ some ']' ∧ a.chars ≠ [] := by
  decide

theorem head?_chars_close (length : UInt64) :
    (close length).chars.head? = some ' ' ∨ (close length).chars.head? = some ']' := by
  by_cases h : length = 0
  · rw [h, chars_close_zero]
    exact Or.inr rfl
  · rw [chars_close_of_ne h]
    exact Or.inl rfl

theorem chars_ne_nil (m : Mark) : m.chars ≠ [] := by
  cases h : m.isClose with
  | false => exact (head?_chars_openers m (mem_openers h)).2.2
  | true =>
    cases m with
    | close length =>
      intro he
      have hhead := head?_chars_close length
      rw [he] at hhead
      simp at hhead
    | _ => cases h

theorem head?_chars_append (m : Mark) (r : List Char) : (m.chars ++ r).head? = m.chars.head? :=
  List.head?_append_of_ne_nil _ m.chars_ne_nil

theorem close_append_ne {a : Mark} (ha : a.isClose = false) (length : UInt64)
    (r r' : List Char) : a.chars ++ r ≠ (close length).chars ++ r' := by
  intro h
  have hhead := congrArg List.head? h
  rw [head?_chars_append, head?_chars_append] at hhead
  obtain ⟨hspace, hbracket, -⟩ := head?_chars_openers a (mem_openers ha)
  rcases head?_chars_close length with hclose | hclose
  · exact hspace (hhead.trans hclose)
  · exact hbracket (hhead.trans hclose)

/-- No mark begins like another one goes on. -/
theorem chars_append_inj {a b : Mark} {r r' : List Char}
    (h : a.chars ++ r = b.chars ++ r') : a = b ∧ r = r' := by
  cases ha : a.isClose <;> cases hb : b.isClose
  · have hpre : a.chars <+: b.chars ++ r' := ⟨r, h⟩
    have heq : a = b := by
      rcases List.prefix_or_prefix_of_prefix hpre (List.prefix_append _ _) with hab | hba
      · exact eq_of_prefix_of_mem_openers a (mem_openers ha) b (mem_openers hb) hab
      · exact (eq_of_prefix_of_mem_openers b (mem_openers hb) a (mem_openers ha) hba).symm
    subst heq
    exact ⟨rfl, List.append_cancel_left h⟩
  · cases b with
    | close m => exact absurd h (close_append_ne ha m r r')
    | _ => cases hb
  · cases a with
    | close n => exact absurd h.symm (close_append_ne hb n r' r)
    | _ => cases ha
  · cases a with
    | close n =>
      cases b with
      | close m =>
        obtain ⟨hn, hr⟩ := close_append_inj h
        exact ⟨congrArg close hn, hr⟩
      | _ => cases hb
    | _ => cases ha

/-- The beginning of a text of marks is a text of the first marks only. -/
theorem prefix_of_flatMap_chars {as bs : List Mark}
    (h : as.flatMap chars <+: bs.flatMap chars) : as <+: bs := by
  induction as generalizing bs with
  | nil => exact List.nil_prefix
  | cons a as ih =>
    obtain ⟨rest, hrest⟩ := h
    cases bs with
    | nil =>
      rw [List.flatMap_cons, List.flatMap_nil, List.append_assoc, List.append_eq_nil_iff] at hrest
      exact absurd hrest.1 a.chars_ne_nil
    | cons b bs =>
      rw [List.flatMap_cons, List.flatMap_cons, List.append_assoc] at hrest
      obtain ⟨rfl, htail⟩ := chars_append_inj hrest
      exact (List.prefix_cons_inj a).mpr (ih ⟨rest, htail⟩)

end Mark

namespace Ty

def isUnsized : Ty → Bool
  | array _ length => length == 0
  | _ => false

/-- Made of primitive and unknown types by pointers, optionals, references, slices and arrays, where
no reference is directly to an unsized array. -/
def isStructural (t : Ty) : Bool :=
  match t with
  | .prim _ | .unknown => true
  | .pointer elem | .optional elem | .slice elem _ | .array elem _ => isStructural elem
  | .reference elem _ => !elem.isUnsized && isStructural elem
  | .struct _ _ | .func _ _ | .named _ _ | .unresolved _ => false
termination_by structural t

/-- The marks of a structural type. -/
def marks (t : Ty) : List Mark :=
  match t with
  | .prim p => [.prim p]
  | .unknown => [.unknown]
  | .pointer elem => .pointer :: marks elem
  | .optional elem => .optional :: marks elem
  | .reference elem isMut => .reference isMut :: marks elem
  | .slice elem isMut => .reference isMut :: .bracket :: (marks elem ++ [.close 0])
  | .array elem length => .bracket :: (marks elem ++ [.close length])
  | .struct _ _ | .func _ _ | .named _ _ | .unresolved _ => []
termination_by structural t

section Text

variable (s : Settings) (level : Nat) {depth : Nat} (hd : depth ≠ 0)

include hd

theorem chars_pieces_of_isStructural (t : Ty) (h : t.isStructural = true) :
    Piece.chars (t.pieces s level depth) = t.marks.flatMap Mark.chars := by
  match t with
  | .prim _ | .unknown => simp [pieces, hd, marks, Mark.chars, Mark.text]
  | .pointer elem | .optional elem =>
    have helem := chars_pieces_of_isStructural elem h
    simp [pieces, hd, marks, Mark.chars, Mark.text, helem]
  | .reference elem isMut =>
    rw [isStructural, Bool.and_eq_true] at h
    have helem := chars_pieces_of_isStructural elem h.2
    cases isMut <;> simp [pieces, hd, marks, Mark.chars, Mark.text, helem]
  | .slice elem isMut =>
    have helem := chars_pieces_of_isStructural elem h
    cases isMut <;> simp [pieces, hd, marks, Mark.chars, Mark.text, helem]
  | .array elem length =>
    have helem := chars_pieces_of_isStructural elem h
    by_cases hl : length = 0 <;> simp [pieces, hd, marks, Mark.chars, Mark.text, helem, hl]
termination_by structural t

end Text

theorem marks_array_append (elem : Ty) (length : UInt64) (r : List Mark) :
    (array elem length).marks ++ r = .bracket :: (elem.marks ++ .close length :: r) := by
  simp [marks]

theorem marks_slice_append (elem : Ty) (isMut : Bool) (r : List Mark) :
    (slice elem isMut).marks ++ r =
      .reference isMut :: .bracket :: (elem.marks ++ .close 0 :: r) := by
  simp [marks]

/-- The form of a type whose marks begin with `m`, and what its marks and `r` leave of `rest`. -/
def BeginsWith (t : Ty) (r rest : List Mark) : Mark → Prop
  | .prim p => t = .prim p ∧ rest = r
  | .unknown => t = .unknown ∧ rest = r
  | .pointer => ∃ elem, t = .pointer elem ∧ elem.isStructural = true ∧ rest = elem.marks ++ r
  | .optional => ∃ elem, t = .optional elem ∧ elem.isStructural = true ∧ rest = elem.marks ++ r
  | .reference isMut =>
      (∃ elem, t = .reference elem isMut ∧ elem.isUnsized = false ∧ elem.isStructural = true ∧
        rest = elem.marks ++ r) ∨
      ∃ elem, t = .slice elem isMut ∧ elem.isStructural = true ∧
        rest = .bracket :: (elem.marks ++ .close 0 :: r)
  | .bracket => ∃ elem length, t = .array elem length ∧ elem.isStructural = true ∧
      rest = elem.marks ++ .close length :: r
  | .close _ => False

theorem beginsWith_of_marks {t : Ty} (ht : t.isStructural = true) {m : Mark}
    {r rest : List Mark} (h : t.marks ++ r = m :: rest) : t.BeginsWith r rest m := by
  cases t with
  | struct name fields | func params result | named name elem | unresolved name => cases ht
  | prim p | unknown =>
    cases h
    exact ⟨rfl, rfl⟩
  | pointer elem | optional elem =>
    cases h
    exact ⟨elem, rfl, ht, rfl⟩
  | reference elem isMut =>
    rw [isStructural, Bool.and_eq_true, Bool.not_eq_true'] at ht
    cases h
    exact Or.inl ⟨elem, rfl, ht.1, ht.2, rfl⟩
  | slice elem isMut =>
    rw [marks_slice_append] at h
    cases h
    exact Or.inr ⟨elem, rfl, ht, rfl⟩
  | array elem length =>
    rw [marks_array_append] at h
    cases h
    exact ⟨elem, length, rfl, ht, rfl⟩

/-- Two types whose marks are the same as far as both go are the same type. -/
theorem marks_append_inj (t u : Ty) (ht : t.isStructural = true) (hu : u.isStructural = true)
    {r r' : List Mark} (h : t.marks ++ r = u.marks ++ r') : t = u ∧ r = r' := by
  match t with
  | .prim _ | .unknown =>
    obtain ⟨rfl, rfl⟩ := beginsWith_of_marks hu h.symm
    exact ⟨rfl, rfl⟩
  | .pointer elem | .optional elem =>
    obtain ⟨elem', rfl, hu, h⟩ := beginsWith_of_marks hu h.symm
    obtain ⟨rfl, rfl⟩ := marks_append_inj elem elem' ht hu h
    exact ⟨rfl, rfl⟩
  | .array elem length =>
    rw [marks_array_append] at h
    obtain ⟨elem', length', rfl, hu, h⟩ := beginsWith_of_marks hu h.symm
    obtain ⟨rfl, hclose⟩ := marks_append_inj elem elem' ht hu h
    cases hclose
    exact ⟨rfl, rfl⟩
  | .reference elem isMut =>
    rw [isStructural, Bool.and_eq_true, Bool.not_eq_true'] at ht
    obtain ⟨hsized, ht⟩ := ht
    rcases beginsWith_of_marks hu h.symm with ⟨elem', rfl, -, hu, h⟩ | ⟨elem', rfl, hu, h⟩
    · obtain ⟨rfl, rfl⟩ := marks_append_inj elem elem' ht hu h
      exact ⟨rfl, rfl⟩
    · -- A reference to an array without a length would look like the slice.
      have harray : elem.marks ++ r = (array elem' 0).marks ++ r' := by
        rw [marks_array_append]
        exact h
      obtain ⟨rfl, -⟩ := marks_append_inj elem (array elem' 0) ht hu harray
      cases hsized
  | .slice elem isMut =>
    rw [marks_slice_append] at h
    rcases beginsWith_of_marks hu h.symm with ⟨elem', rfl, hsized, hu, h⟩ | ⟨elem', rfl, hu, h⟩
    · obtain ⟨elem', length, rfl, hu, h⟩ := beginsWith_of_marks hu h.symm
      obtain ⟨rfl, hclose⟩ := marks_append_inj elem elem' ht hu h
      cases hclose
      cases hsized
    · rw [List.cons.injEq] at h
      obtain ⟨rfl, hclose⟩ := marks_append_inj elem elem' ht hu h.2
      cases hclose
      exact ⟨rfl, rfl⟩
termination_by structural t

end Ty

namespace Ty

/-- The text that a structural type is rendered as, at any depth and under any settings. -/
theorem toList_of_dumpRun {t : Ty} (h : t.isStructural = true) {mem : Memory} {s : Settings}
    {depth : Nat} {x : String} (hx : dumpRun mem s (t.run s depth) = .ok x) :
    x.toList = t.marks.flatMap Mark.chars := by
  have hd : max depth 1 ≠ 0 := by omega
  rw [((dumpRun_eq_ok_iff mem s _ x).mp hx).2, run, (t.anchored_pieces s 0 _).toList_layout]
  exact chars_pieces_of_isStructural s 0 hd t h

/-- Two structural types are rendered as one text only if they are equal, and the text of one never
goes on behind that of another. Depths and settings may differ. -/
theorem structural_text_unique {t u : Ty} (ht : t.isStructural = true)
    (hu : u.isStructural = true) {mem mem' : Memory} {s s' : Settings} {depth depth' : Nat}
    {x y : String} (hx : dumpRun mem s (t.run s depth) = .ok x)
    (hy : dumpRun mem' s' (u.run s' depth') = .ok y) :
    (x = y ↔ t = u) ∧ (x.toList <+: y.toList → x = y) := by
  have hx' := toList_of_dumpRun ht hx
  have hy' := toList_of_dumpRun hu hy
  have hpre (h : x.toList <+: y.toList) : t = u := by
    rw [hx', hy'] at h
    obtain ⟨rest, hrest⟩ := Mark.prefix_of_flatMap_chars h
    have hmarks : t.marks ++ rest = u.marks ++ [] := by rw [hrest, List.append_nil]
    exact (marks_append_inj t u ht hu hmarks).1
  have htext (h : t = u) : x = y := by
    rw [← String.toList_inj, hx', hy', h]
  have hsame (h : x = y) : t = u := hpre (h ▸ List.prefix_rfl)
  exact ⟨⟨hsame, htext⟩, fun h => htext (hpre h)⟩

/-- A reference to an array of four, and a slice: the texts part at the end. -/
theorem structural_text_unique_sized :
    let t : Ty := .reference (.array (.pointer (.prim .u8)) 4) true
    let u : Ty := .slice (.pointer (.prim .u8)) true
    t.isStructural = true ∧ u.isStructural = true ∧
      dumpRun .standard .default (t.run .default 1) = .ok "mut&[*u8 4]" ∧
      dumpRun .standard .default (u.run .default 3) = .ok "mut&[*u8]" ∧
      ¬ "mut&[*u8]".toList <+: "mut&[*u8 4]".toList := by
  intro t u
  have ht : t.isStructural = true := rfl
  have hu : u.isStructural = true := rfl
  have hx : dumpRun .standard .default (t.run .default 1) = .ok "mut&[*u8 4]" := by
    decide +kernel
  have hy : dumpRun .standard .default (u.run .default 3) = .ok "mut&[*u8]" := by
    decide +kernel
  obtain ⟨hsame, hpre⟩ := structural_text_unique hu ht hy hx
  have hne : u ≠ t := Ty.noConfusion
  exact ⟨ht, hu, hx, hy, fun h => hne (hsame.mp (hpre h))⟩

end Ty

end CodeDump
