import CodeDump.Proofs.Decimals
import CodeDump.Proofs.Rendering
import CodeDump.Proofs.Words

/-!
# How runs nest

The same part of a tree is printed at different levels, so its run is a function of the level.
`Piece.Formed` says how such runs are put together: from texts that open and close nothing, by
setting one run behind another, by brackets around a run, and by braces around lines that are one
level deeper. Line starts stand nowhere else. Nodes without units, and types, are formed in this
way at every depth, and what is said of all formed runs need not look at a tree again.
-/

namespace CodeDump

namespace Quoted

/-- A character that neither ends a string nor escapes the next one, and breaks no line. -/
def isPlain (c : Char) : Bool := c != '"' && c != '\\' && c != '\n'

theorem toNat_ofNat (b : UInt8) : (Char.ofNat b.toNat).toNat = b.toNat := by
  have hlt : b.toNat < 256 := b.toNat_lt
  rw [Char.ofNat, dif_pos (Or.inl (by omega))]
  rfl

theorem isPlain_ofNat {b : UInt8} (hq : b ≠ 0x22) (hb : b ≠ 0x5c) (hlow : 0x20 ≤ b) :
    isPlain (Char.ofNat b.toNat) = true := by
  have hne (n : Nat) (hn : b.toNat ≠ n) (d : Char) (hd : d.toNat = n) : Char.ofNat b.toNat ≠ d := by
    intro h
    rw [← h, toNat_ofNat] at hd
    exact hn hd
  have hge : 0x20 ≤ b.toNat := UInt8.le_iff_toNat_le.mp hlow
  have hq' : b.toNat ≠ 0x22 := fun h => hq (UInt8.toNat_inj.mp h)
  have hb' : b.toNat ≠ 0x5c := fun h => hb (UInt8.toNat_inj.mp h)
  simp only [isPlain, Bool.and_eq_true, bne_iff_ne]
  exact ⟨⟨hne 0x22 hq' _ rfl, hne 0x5c hb' _ rfl⟩, hne 0x0a (by omega) _ rfl⟩

theorem isPlain_digitChar (d : Nat) : isPlain (Nat.digitChar d) = true := by
  have hall : "0123456789abcdef*".toList.all isPlain = true := by decide
  exact List.all_eq_true.mp hall _ (List.contains_iff_mem.mp (Radix.isFigure_digitChar d))

/-- A byte is shown as it is, or by a backslash and a character that may be followed by plain
ones. -/
theorem escape_cases (b : UInt8) :
    (∃ c, isPlain c = true ∧ escape b = [c]) ∨
      ∃ c rest, c ≠ '\n' ∧ (∀ d ∈ rest, isPlain d = true) ∧ escape b = '\\' :: c :: rest := by
  unfold escape
  split_ifs with h₁ h₂ h₃ h₄ h₅ h₆
  · exact Or.inr ⟨'"', [], by decide, List.forall_mem_nil _, rfl⟩
  · exact Or.inr ⟨'\\', [], by decide, List.forall_mem_nil _, rfl⟩
  · exact Or.inr ⟨'n', [], by decide, List.forall_mem_nil _, rfl⟩
  · exact Or.inr ⟨'r', [], by decide, List.forall_mem_nil _, rfl⟩
  · exact Or.inr ⟨'t', [], by decide, List.forall_mem_nil _, rfl⟩
  · exact Or.inl ⟨_, isPlain_ofNat h₁ h₂ h₆.1, rfl⟩
  · refine Or.inr ⟨'x', hexByte b, by decide, ?_, rfl⟩
    simp [hexByte, isPlain_digitChar]

theorem ne_newline_of_isPlain {c : Char} (h : isPlain c = true) : c ≠ '\n' := by
  rintro rfl
  cases h

theorem newline_not_mem_escape (b : UInt8) : '\n' ∉ escape b := by
  rcases escape_cases b with ⟨c, hc, heq⟩ | ⟨c, rest, hc, hrest, heq⟩
  · rw [heq, List.mem_singleton]
    exact (ne_newline_of_isPlain hc).symm
  · rw [heq, List.mem_cons, List.mem_cons, not_or, not_or]
    exact ⟨by decide, hc.symm, fun h => ne_newline_of_isPlain (hrest _ h) rfl⟩

/-- A line feed in a string literal is escaped. -/
theorem free_text (bytes : List UInt8) : Free '\n' (text bytes) := by
  have hbody : '\n' ∉ body bytes := by
    rw [body, List.mem_flatMap]
    rintro ⟨b, _, hb⟩
    exact newline_not_mem_escape b hb
  simp [Free, text, hbody]

end Quoted

namespace Piece

/-- The characters of a run behind other text. -/
def chars (ps : Run) : List Char := (layoutFrom true ps).toList

@[simp] theorem chars_nil : chars [] = [] := rfl

@[simp] theorem chars_cons (p : Piece) (ps : Run) :
    chars (p :: ps) = (p.shown true).toList ++ chars ps := by
  rw [chars, layoutFrom_cons, Bool.true_or, String.toList_append, chars]

@[simp] theorem chars_append (ps qs : Run) : chars (ps ++ qs) = chars ps ++ chars qs := by
  induction ps with
  | nil => rfl
  | cons p ps ih => rw [List.cons_append, chars_cons, chars_cons, ih, List.append_assoc]

@[simp] theorem shown_text (started : Bool) (s : String) : (text s).shown started = s := by
  simp [shown, writes]

@[simp] theorem shown_elided (started : Bool) (s : String) : (elided s).shown started = s := by
  simp [shown, writes]

@[simp] theorem toList_shown_line (n : Nat) :
    ((line n).shown true).toList = '\n' :: List.replicate n ' ' := by
  have hspaces : (List.replicate n " ").flatMap String.toList = List.replicate n ' ' := by
    induction n with
    | zero => rfl
    | succ n ih => rw [List.replicate_succ, List.flatMap_cons, ih, List.replicate_succ]; rfl
  simp [shown, writes, hspaces]

theorem layoutFrom_append (started : Bool) (ps qs : Run) :
    layoutFrom started (ps ++ qs) =
      layoutFrom started ps ++ layoutFrom (started || layoutFrom started ps != "") qs := by
  induction ps generalizing started with
  | nil => simp
  | cons p ps ih =>
    rw [List.cons_append, layoutFrom_cons, layoutFrom_cons, ih, String.append_assoc]
    have hbne (t u : String) : (t ++ u != "") = (t != "" || u != "") := by
      rw [Bool.eq_iff_iff, Bool.or_eq_true, bne_iff_ne, bne_iff_ne, bne_iff_ne, ne_eq,
        String.append_eq_empty_iff, not_and_or]
    rw [hbne, Bool.or_assoc]

theorem layoutFrom_true_append (ps qs : Run) :
    layoutFrom true (ps ++ qs) = layoutFrom true ps ++ layoutFrom true qs := by
  rw [layoutFrom_append, Bool.true_or]

@[simp] theorem layoutFrom_true_text_cons (s : String) (ps : Run) :
    layoutFrom true (text s :: ps) = s ++ layoutFrom true ps := by
  rw [layoutFrom_cons, shown_text, Bool.true_or]

/-- Nothing in the run depends on whether any text precedes it. -/
def Anchored (ps : Run) : Prop := layoutFrom false ps = layoutFrom true ps

theorem Anchored.toList_layout {ps : Run} (h : Anchored ps) : (layout ps).toList = chars ps := by
  rw [layout, h, chars]

theorem Anchored.append {ps qs : Run} (hp : Anchored ps) (hq : Anchored qs) :
    Anchored (ps ++ qs) := by
  rw [Anchored, layoutFrom_append, layoutFrom_append, hp, Bool.true_or, Bool.false_or]
  cases h : layoutFrom true ps != "" with
  | true => rfl
  | false => rw [hq]

theorem Anchored.text_singleton (s : String) : Anchored [text s] := by
  simp [Anchored, layoutFrom_cons]

theorem Anchored.elided_singleton (s : String) : Anchored [elided s] := by
  simp [Anchored, layoutFrom_cons]

/-- A text that is not empty anchors all that follows. -/
theorem Anchored.text_cons {s : String} (h : s ≠ "") (ps : Run) : Anchored (text s :: ps) := by
  have hbne : (s != "") = true := bne_iff_ne.mpr h
  simp [Anchored, layoutFrom_cons, hbne]

/-- Neither white space nor a bracket nor a double quote. -/
def isInk (c : Char) : Bool := !c.isWhitespace && !"()[]\x7b\x7d\"".toList.contains c

/-- Ink or a space. -/
def isInert (c : Char) : Bool := isInk c || c == ' '

/-- Inert characters of which the first is ink. -/
def isWord (s : String) : Bool := s.toList.all isInert && s.toList.head?.any isInk

theorem isInert_of_isInk {c : Char} (h : isInk c = true) : isInert c = true := by
  rw [isInert, h, Bool.true_or]

/-- A text that is not empty and all of ink is a word. -/
theorem isWord_of_ink {s : String} (hne : s ≠ "") (h : s.toList.all isInk = true) :
    isWord s = true := by
  have hinert : s.toList.all isInert = true :=
    List.all_eq_true.mpr fun c hc => isInert_of_isInk (List.all_eq_true.mp h c hc)
  rw [isWord, hinert, Bool.true_and]
  cases hs : s.toList with
  | nil => exact absurd (String.toList_eq_nil_iff.mp hs) hne
  | cons c cs =>
    rw [hs, List.all_cons, Bool.and_eq_true] at h
    exact h.1

theorem isInk_of_isFigure {c : Char} (h : Radix.isFigure c = true) : isInk c = true := by
  have hall : "0123456789abcdef*".toList.all isInk = true := by decide
  exact List.all_eq_true.mp hall c (List.contains_iff_mem.mp h)

/-- The texts that stand for themselves: names, words and other inert texts, quoted strings and
the mark of an absent part. The flag says that the text begins with a word. -/
inductive Neutral (name : String → Bool) : Bool → String → Prop
  | name {n : String} (h : name n = true) : Neutral name true n
  | word {t : String} (h : isWord t = true := by decide) : Neutral name true t
  | inert {t : String} (h : t.toList.all isInert = true := by decide) : Neutral name false t
  | quoted (bytes : List UInt8) : Neutral name true (Quoted.text bytes)
  | absent : Neutral name true absentText

theorem Neutral.free {name : String → Bool} (hname : ∀ n, name n = true → Free '\n' n)
    {led : Bool} {t : String} (h : Neutral name led t) : Free '\n' t := by
  have hinert {t : String} (h : t.toList.all isInert = true) : Free '\n' t :=
    free_of_all (show isInert '\n' = false by decide) h
  cases h with
  | name h => exact hname t h
  | word h =>
    rw [isWord, Bool.and_eq_true] at h
    exact hinert h.1
  | inert h => exact hinert h
  | quoted bytes => exact Quoted.free_text bytes
  | absent => decide

/-- The opening and closing texts around a run of the same level. -/
def enclosures : List (String × String) :=
  [("(", ")"), ("(", ") "), ("[", "]"), ("&[", "]"), ("mut&[", "]")]

/-- Each run on a line of its own. -/
def linesOf (width : Nat) (fs : List (Nat → Run)) (level : Nat) : Run :=
  fs.flatMap fun f => line (level * width) :: f level

/-- Lines one level deeper than the braces around them, and the start of the closing line. -/
def bodyOf (width : Nat) (fs : List (Nat → Run)) (level : Nat) : Run :=
  linesOf width fs (level + 1) ++ if fs.isEmpty then [] else [line (level * width)]

/-- The runs of parts of trees by level, for a class of names and a width of a level. The flag
says that the run begins with a word. -/
inductive Formed (name : String → Bool) (width : Nat) : Bool → (Nat → Run) → Prop
  | nil : Formed name width false fun _ => []
  | text {led : Bool} {t : String} (h : Neutral name led t) :
      Formed name width led fun _ => [.text t]
  | elided {led : Bool} {t : String} (h : Neutral name led t) :
      Formed name width led fun _ => [.elided t]
  | later {f : Nat → Run} (h : Formed name width true f) : Formed name width false f
  | append {a b : Bool} {f g : Nat → Run} (hf : Formed name width a f)
      (hg : Formed name width b g) : Formed name width a fun level => f level ++ g level
  | enclosed {a : Bool} {o c : String} {f : Nat → Run} (hf : Formed name width a f)
      (h : (o, c) ∈ enclosures := by decide) :
      Formed name width true fun level => [.text o] ++ f level ++ [.text c]
  | collapsed : Formed name width true fun _ => [.text "\x7b", .elided "...", .text "\x7d"]
  | braced {fs : List (Nat → Run)} (h : ∀ f ∈ fs, Formed name width true f) :
      Formed name width true fun level =>
        [.text "\x7b"] ++ bodyOf width fs level ++ [.text "\x7d"]

namespace Formed

variable {name : String → Bool} {width : Nat}

theorem congr {led : Bool} {f g : Nat → Run} (hg : Formed name width led g)
    (h : ∀ level, f level = g level) : Formed name width led f := by
  rw [show f = g from funext h]
  exact hg

theorem word {t : String} (h : isWord t = true := by decide) :
    Formed name width true fun _ => [.text t] :=
  text (.word h)

theorem inert {t : String} (h : t.toList.all isInert = true := by decide) :
    Formed name width false fun _ => [.text t] :=
  text (.inert h)

/-- A name and the space behind it. -/
theorem label {n : String} (h : name n = true) :
    Formed name width true fun _ => [.text n, .text " "] :=
  .append (.text (.name h)) inert

theorem separator (last : Bool) :
    Formed name width false fun _ => if last then [] else [.text ", "] := by
  cases last with
  | true => exact nil
  | false => exact inert

theorem anchored {led : Bool} {f : Nat → Run} (h : Formed name width led f) (level : Nat) :
    Anchored (f level) := by
  induction h generalizing level with
  | nil => rfl
  | text _ => exact .text_singleton _
  | elided _ => exact .elided_singleton _
  | later _ ih => exact ih level
  | append _ _ ihf ihg => exact (ihf level).append (ihg level)
  | enclosed _ h _ =>
    have hne : ∀ e ∈ enclosures, e.1 ≠ "" := by decide
    exact .text_cons (hne _ h) _
  | collapsed => exact .text_cons (by decide) _
  | braced _ _ => exact .text_cons (by decide) _

end Formed

theorem chars_linesOf_cons (width : Nat) (f : Nat → Run) (fs : List (Nat → Run)) (level : Nat) :
    chars (linesOf width (f :: fs) level) =
      '\n' :: (List.replicate (level * width) ' ' ++ chars (f level)) ++
        chars (linesOf width fs level) := by
  simp [linesOf]

/-- The first of several lines at the start of a text has no line break in front of it. -/
theorem toList_layout_linesOf (width : Nat) {f : Nat → Run} (hf : Anchored (f 0))
    (hne : layout (f 0) ≠ "") (fs : List (Nat → Run)) :
    (layout (linesOf width (f :: fs) 0)).toList =
      chars (f 0) ++ chars (linesOf width fs 0) := by
  have hstart : linesOf width (f :: fs) 0 = line 0 :: (f 0 ++ linesOf width fs 0) := by
    simp [linesOf]
  have hblank : (line 0).shown false = "" := rfl
  have hbne : (layoutFrom false (f 0) != "") = true := bne_iff_ne.mpr hne
  rw [hstart, layout, layoutFrom_cons, hblank, String.empty_append, Bool.false_or,
    bne_self_eq_false, layoutFrom_append, hbne, Bool.false_or, String.toList_append,
    ← hf.toList_layout]
  rfl

end Piece

section Plain

variable (p : String → Bool)

mutual

/-- All names are in the class `p` and no unit is inside. The type of an integer is not looked at,
since it is never printed. -/
def Ty.plain (t : Ty) : Bool :=
  match t with
  | .prim _ | .unknown => true
  | .struct name fields => name.all p && Binding.allPlain fields
  | .func params result => Binding.allPlain params && result.plain
  | .array elem _ | .slice elem _ | .pointer elem | .reference elem _ | .optional elem =>
      elem.plain
  | .named name elem => p name && elem.plain
  | .unresolved name => p name
termination_by structural t

def TypeRef.plain (r : TypeRef) : Bool :=
  match r with
  | ⟨_, t⟩ => t.plain
termination_by structural r

def TypeRef.plainOr (r : Option TypeRef) : Bool :=
  match r with
  | none => true
  | some r => r.plain
termination_by structural r

def Binding.plain (b : Binding) : Bool :=
  match b with
  | ⟨name, ty, init⟩ => p name && TypeRef.plainOr ty && Node.plainOr init
termination_by structural b

def Binding.allPlain (bs : List Binding) : Bool :=
  match bs with
  | [] => true
  | b :: rest => b.plain && Binding.allPlain rest
termination_by structural bs

def FunDef.plain (f : FunDef) : Bool :=
  match f with
  | ⟨name, params, result, body⟩ =>
      p name && Binding.allPlain params && result.plain && Node.plainOr body
termination_by structural f

def Node.plain (n : Node) : Bool :=
  match n with
  | .bad | .comment _ | .boolLit _ | .intLit _ _ | .floatLit _ | .strLit _ => true
  | .unit _ => false
  | .typeDef t | .typeNode t => t.plain
  | .binding _ b => b.plain
  | .func f => f.plain
  | .block items | .arrayLit items => Node.allPlain items
  | .call callee args => callee.plain && Node.allPlain args
  | .construct t arg => t.plain && Node.plainOr arg
  | .member base name => base.plain && p name
  | .branch cond yes no => cond.plain && yes.plain && Node.plainOr no
  | .loop start cond step body =>
      Node.plainOr start && Node.plainOr cond && Node.plainOr step && body.plain
  | .ident name => p name
  | .ret value => Node.plainOr value
  | .deref arg | .prefixed _ arg | .postfixed _ arg => arg.plain
  | .assign _ left right | .binary _ left right => left.plain && right.plain
termination_by structural n

def Node.plainOr (n : Option Node) : Bool :=
  match n with
  | none => true
  | some n => n.plain
termination_by structural n

def Node.allPlain (ns : List Node) : Bool :=
  match ns with
  | [] => true
  | n :: rest => n.plain && Node.allPlain rest
termination_by structural ns

end

theorem Node.allPlain_iff (ns : List Node) :
    Node.allPlain p ns = true ↔ ∀ n ∈ ns, n.plain p = true := by
  induction ns with
  | nil => simp [Node.allPlain]
  | cons n rest ih => simp [Node.allPlain, ih]

end Plain

namespace Piece

theorem isWord_keyword (k : Prim) : isWord k.keyword = true := by
  cases k <;> decide

theorem isWord_symbol (op : Op) : isWord op.symbol = true := by
  cases op <;> decide

theorem all_isInk_digits (ds : List Nat) :
    (String.ofList (ds.map Nat.digitChar)).toList.all isInk = true := by
  rw [String.toList_ofList, List.all_eq_true]
  exact fun c hc => isInk_of_isFigure (Radix.isFigure_of_mem_map hc)

theorem digits_ne_empty {ds : List Nat} (h : ds ≠ []) :
    String.ofList (ds.map Nat.digitChar) ≠ "" := by
  intro he
  have hlist := congrArg String.toList he
  rw [String.toList_ofList] at hlist
  exact h (List.map_eq_nil_iff.mp hlist)

theorem isWord_decimal (n : Nat) : isWord (Radix.decimal n) = true :=
  isWord_of_ink (digits_ne_empty (Radix.digits_ne_nil 10 n)) (all_isInk_digits _)

theorem isWord_integerText (value : UInt64) (isUnsigned : Bool) :
    isWord (integerText value isUnsigned) = true := by
  cases isUnsigned with
  | true =>
    apply isWord_of_ink
    · simp [integerText]
    · simp only [integerText, if_true, String.toList_append, List.all_append]
      rw [Radix.hexadecimal, Radix.digitsText, all_isInk_digits]
      decide
  | false => exact isWord_decimal value.toNat

theorem isWord_numeral {n : Numeral} (h : n.whole ≠ []) :
    isWord (n.text plainExponent) = true := by
  apply isWord_of_ink
  · simp [Numeral.text, Numeral.digitsText, digits_ne_empty h]
  · have hexp (e : Int) : (plainExponent e).toList.all isInk = true := by
      rw [plainExponent, String.toList_append, List.all_append, Radix.decimal, Radix.digitsText,
        all_isInk_digits, Bool.and_true]
      split <;> decide
    simp only [Numeral.text, Numeral.digitsText, String.toList_append, List.all_append,
      all_isInk_digits, Bool.and_true, Bool.and_eq_true]
    refine ⟨⟨?_, ?_⟩, ?_⟩
    · split <;> decide
    · split
      · decide
      · rw [String.toList_append, List.all_append, all_isInk_digits]
        decide
    · split
      · decide
      · rw [String.toList_append, List.all_append, hexp]
        decide

theorem all_isInert_spaced {t : String} (h : isWord t = true) :
    (" " ++ t).toList.all isInert = true := by
  rw [isWord, Bool.and_eq_true] at h
  rw [String.toList_append, List.all_append, h.1]
  decide

theorem isWord_literal (x : Double) : isWord x.literal = true := by
  unfold Double.literal
  split
  · decide
  · split
    · split <;> decide
    · exact isWord_numeral (x.proper_shortestNumeral _ _ _).whole_ne_nil

end Piece

open Piece (Formed Neutral linesOf bodyOf enclosures isWord_keyword isWord_symbol isWord_decimal
  isWord_integerText isWord_literal)

section Runs

variable {p : String → Bool} (s : Settings)

theorem Binding.fieldLines_eq (level depth : Nat) (bs : List Binding) :
    Binding.fieldLines s level depth bs =
      linesOf s.indentWidth.toNat (bs.map fun b level => b.fieldPieces s level depth) level := by
  induction bs with
  | nil => rfl
  | cons b rest ih =>
    rw [Binding.fieldLines, ih]
    rfl

theorem Node.lines_eq (level depth : Nat) (ns : List Node) :
    Node.lines s level depth ns =
      linesOf s.indentWidth.toNat (ns.map fun n level => n.pieces s level depth) level := by
  induction ns with
  | nil => rfl
  | cons n rest ih =>
    rw [Node.lines, ih]
    rfl

mutual

theorem Ty.formed_pieces {depth : Nat} (hd : depth ≠ 0) (t : Ty) (h : t.plain p = true) :
    Formed p s.indentWidth.toNat true fun level => t.pieces s level depth := by
  match t with
  | .prim k =>
    simp only [Ty.pieces, if_neg hd]
    exact .word (isWord_keyword k)
  | .unknown =>
    simp only [Ty.pieces, if_neg hd]
    exact .word
  | .unresolved name =>
    simp only [Ty.pieces, if_neg hd]
    exact .text (.name h)
  | .struct none fields =>
    simp only [Ty.plain, Bool.and_eq_true] at h
    simp only [Ty.pieces, if_neg hd]
    by_cases hdepth : depth ≤ 1
    · simp only [if_pos hdepth]
      exact .elided .word
    · have hfields := Binding.formed_fields hd fields h.2
      refine (Formed.braced hfields).congr fun level => ?_
      simp [hdepth, bodyOf, Binding.fieldLines_eq, Settings.lineAt]
  | .struct (some name) fields =>
    simp only [Ty.plain, Option.all_some, Bool.and_eq_true] at h
    simp only [Ty.pieces, if_neg hd]
    by_cases hdepth : depth ≤ 1
    · simp only [if_pos hdepth, Option.isNone_some, Bool.false_eq_true, if_false]
      exact .append (.text (.name h.1)) (.elided .inert)
    · have hfields := Binding.formed_fields hd fields h.2
      refine ((Formed.label h.1).append (.braced hfields)).congr fun level => ?_
      simp [hdepth, bodyOf, Binding.fieldLines_eq, Settings.lineAt]
  | .func params result =>
    simp only [Ty.plain, Bool.and_eq_true] at h
    have hparams := Binding.formed_grouped hd params h.1
    have hresult := Ty.formed_pieces hd result h.2
    have hlist := Formed.enclosed (o := "(") (c := ") ") hparams
    refine (((Formed.word (t := "fun")).append hlist).append hresult).congr fun level => ?_
    simp [Ty.pieces, hd]
  | .array elem length =>
    have helem := Ty.formed_pieces hd elem h
    have hlength : Formed p s.indentWidth.toNat false fun _ =>
        if length = 0 then [] else [.text (" " ++ Radix.decimal length.toNat)] := by
      by_cases hl : length = 0
      · simp only [if_pos hl]
        exact .nil
      · simp only [if_neg hl]
        exact .inert (Piece.all_isInert_spaced (isWord_decimal _))
    refine (Formed.enclosed (o := "[") (c := "]") (helem.append hlength)).congr fun level => ?_
    simp [Ty.pieces, hd]
  | .slice elem isMut =>
    have helem := Ty.formed_pieces hd elem h
    simp only [Ty.pieces, if_neg hd]
    exact .enclosed helem (by cases isMut <;> decide)
  | .reference elem isMut =>
    have helem := Ty.formed_pieces hd elem h
    simp only [Ty.pieces, if_neg hd]
    exact .append (.word (by cases isMut <;> decide)) helem
  | .pointer elem | .optional elem =>
    have helem := Ty.formed_pieces hd elem h
    simp only [Ty.pieces, if_neg hd]
    exact .append .word helem
  | .named name elem =>
    simp only [Ty.plain, Bool.and_eq_true] at h
    have helem := Ty.formed_pieces hd elem h.2
    simp only [Ty.pieces, if_neg hd]
    refine .append (b := false) (.text (.name h.1)) ?_
    by_cases hdepth : depth ≤ 1
    · simp only [if_pos hdepth]
      exact .elided .inert
    · simp only [if_neg hdepth]
      exact Formed.append .inert helem
termination_by structural t

theorem TypeRef.formed_pieces {depth : Nat} (hd : depth ≠ 0) (r : TypeRef)
    (h : r.plain p = true) :
    Formed p s.indentWidth.toNat true fun level => r.pieces s level depth := by
  match r with
  | ⟨_, t⟩ => exact Ty.formed_pieces hd t h
termination_by structural r

theorem TypeRef.formed_piecesOr {depth : Nat} (hd : depth ≠ 0) (r : Option TypeRef)
    (h : TypeRef.plainOr p r = true) :
    Formed p s.indentWidth.toNat true fun level => TypeRef.piecesOr s level depth r := by
  match r with
  | none =>
    simp only [TypeRef.piecesOr, if_neg hd]
    exact .text .absent
  | some r => exact TypeRef.formed_pieces hd r h
termination_by structural r

theorem Binding.formed_pieces {depth : Nat} (hd : depth ≠ 0) (b : Binding)
    (h : b.plain p = true) :
    Formed p s.indentWidth.toNat true fun level => b.pieces s level depth := by
  match b with
  | ⟨name, ty, none⟩ =>
    simp only [Binding.plain, Bool.and_eq_true] at h
    have hty := TypeRef.formed_piecesOr hd ty h.1.2
    simp only [Binding.pieces]
    exact ((Formed.label h.1.1).append hty).append .nil
  | ⟨name, ty, some value⟩ =>
    simp only [Binding.plain, Bool.and_eq_true] at h
    have hty := TypeRef.formed_piecesOr hd ty h.1.2
    have hvalue := Node.formed_pieces hd value h.2
    simp only [Binding.pieces]
    refine ((Formed.label h.1.1).append hty).append (b := false) ?_
    by_cases hdepth : depth ≤ 1
    · simp only [if_pos hdepth]
      exact .elided .inert
    · simp only [if_neg hdepth]
      exact Formed.append .inert hvalue
termination_by structural b

theorem Binding.formed_fieldPieces {depth : Nat} (hd : depth ≠ 0) (b : Binding)
    (h : b.plain p = true) :
    Formed p s.indentWidth.toNat true fun level => b.fieldPieces s level depth := by
  match b with
  | ⟨name, ty, none⟩ =>
    simp only [Binding.plain, Bool.and_eq_true] at h
    have hty := TypeRef.formed_piecesOr hd ty h.1.2
    simp only [Binding.fieldPieces]
    exact ((Formed.label h.1.1).append hty).append .nil
  | ⟨name, ty, some value⟩ =>
    simp only [Binding.plain, Bool.and_eq_true] at h
    have hty := TypeRef.formed_piecesOr hd ty h.1.2
    have hvalue := Node.formed_pieces hd value h.2
    simp only [Binding.fieldPieces]
    exact ((Formed.label h.1.1).append hty).append (Formed.append .inert hvalue)
termination_by structural b

theorem Binding.formed_fields {depth : Nat} (hd : depth ≠ 0) (bs : List Binding)
    (h : Binding.allPlain p bs = true) :
    ∀ f ∈ bs.map fun b level => b.fieldPieces s level depth,
      Formed p s.indentWidth.toNat true f := by
  match bs with
  | [] => exact List.forall_mem_nil _
  | b :: rest =>
    simp only [Binding.allPlain, Bool.and_eq_true] at h
    have hb := Binding.formed_fieldPieces hd b h.1
    have hrest := Binding.formed_fields hd rest h.2
    exact List.forall_mem_cons.mpr ⟨hb, hrest⟩
termination_by structural bs

theorem Binding.formed_groupedType {depth : Nat} (hd : depth ≠ 0) (next : Option Binding)
    (b : Binding) (h : b.plain p = true) :
    Formed p s.indentWidth.toNat false fun level => Binding.groupedType s level depth next b := by
  match b with
  | ⟨name, ty, init⟩ =>
    simp only [Binding.plain, Bool.and_eq_true] at h
    have hty := TypeRef.formed_piecesOr hd ty h.1.2
    simp only [Binding.groupedType]
    by_cases hshare : next.any (Binding.sharesType ⟨name, ty, init⟩)
    · simp only [if_pos hshare]
      exact .nil
    · simp only [if_neg hshare]
      exact Formed.append .inert hty
termination_by structural b

theorem Binding.formed_grouped {depth : Nat} (hd : depth ≠ 0) (bs : List Binding)
    (h : Binding.allPlain p bs = true) :
    Formed p s.indentWidth.toNat false fun level => Binding.grouped s level depth bs := by
  match bs with
  | [] => exact .nil
  | ⟨name, ty, init⟩ :: rest =>
    simp only [Binding.allPlain, Bool.and_eq_true] at h
    have hname : p name = true := by
      simp only [Binding.plain, Bool.and_eq_true] at h
      exact h.1.1.1
    have hb := Binding.formed_groupedType hd rest.head? ⟨name, ty, init⟩ h.1
    have hrest := Binding.formed_grouped hd rest h.2
    simp only [Binding.grouped]
    exact .later ((((Formed.text (.name hname)).append hb).append (.separator _)).append hrest)
termination_by structural bs

theorem Binding.formed_listed {depth : Nat} (hd : depth ≠ 0) (bs : List Binding)
    (h : Binding.allPlain p bs = true) :
    Formed p s.indentWidth.toNat false fun level => Binding.listed s level depth bs := by
  match bs with
  | [] => exact .nil
  | b :: rest =>
    simp only [Binding.allPlain, Bool.and_eq_true] at h
    have hb := Binding.formed_pieces hd b h.1
    have hrest := Binding.formed_listed hd rest h.2
    simp only [Binding.listed]
    exact .later ((hb.append (.separator _)).append hrest)
termination_by structural bs

theorem FunDef.formed_pieces {depth : Nat} (hd : depth ≠ 0) (f : FunDef)
    (h : f.plain p = true) :
    Formed p s.indentWidth.toNat true fun level => f.pieces s level depth := by
  match f with
  | ⟨name, params, result, none⟩ =>
    simp only [FunDef.plain, Bool.and_eq_true] at h
    have hname : Formed p s.indentWidth.toNat true fun _ => [.text "fun ", .text name] :=
      .append .word (.text (.name h.1.1.1))
    have hparams := Binding.formed_listed hd params h.1.1.2
    have hresult := Ty.formed_pieces hd result h.1.2
    have hlist := Formed.enclosed (o := "(") (c := ") ") hparams
    refine ((hname.append hlist).append hresult).congr fun level => ?_
    simp [FunDef.pieces]
  | ⟨name, params, result, some body⟩ =>
    simp only [FunDef.plain, Bool.and_eq_true] at h
    have hname : Formed p s.indentWidth.toNat true fun _ => [.text "fun ", .text name] :=
      .append .word (.text (.name h.1.1.1))
    have hparams := Binding.formed_listed hd params h.1.1.2
    have hresult := Ty.formed_pieces hd result h.1.2
    have hbody := Node.formed_pieces hd body h.2
    have hlist := Formed.enclosed (o := "(") (c := ") ") hparams
    have hrest := (Formed.inert (t := " ")).append hbody
    refine (((hname.append hlist).append hresult).append hrest).congr fun level => ?_
    simp [FunDef.pieces]
termination_by structural f

theorem Node.formed_pieces {depth : Nat} (hd : depth ≠ 0) (n : Node) (h : n.plain p = true) :
    Formed p s.indentWidth.toNat true fun level => n.pieces s level depth := by
  match n with
  | .bad | .comment _ =>
    simp only [Node.pieces, if_neg hd]
    exact .word
  | .boolLit b =>
    simp only [Node.pieces, if_neg hd]
    exact .word (by cases b <;> decide)
  | .ident name =>
    simp only [Node.pieces, if_neg hd]
    exact .text (.name h)
  | .intLit value ty =>
    simp only [Node.pieces, if_neg hd]
    exact .word (isWord_integerText value _)
  | .floatLit x =>
    simp only [Node.pieces, if_neg hd]
    exact .word (isWord_literal x)
  | .strLit bytes =>
    simp only [Node.pieces, if_neg hd]
    exact .text (.quoted bytes)
  | .unit _ => cases h
  | .typeDef t =>
    have ht := Ty.formed_pieces hd t h
    simp only [Node.pieces, if_neg hd]
    exact Formed.append .word ht
  | .typeNode t =>
    have ht := Ty.formed_pieces hd t h
    simp only [Node.pieces, if_neg hd]
    exact ht
  | .binding role b =>
    have hb := Binding.formed_pieces hd b h
    simp only [Node.pieces, if_neg hd]
    cases role with
    | param | field => exact hb
    | letBound | varBound => exact Formed.append .word hb
  | .func f =>
    have hf := FunDef.formed_pieces hd f h
    simp only [Node.pieces, if_neg hd]
    exact hf
  | .block items =>
    simp only [Node.pieces, if_neg hd]
    by_cases hdepth : depth ≤ 1
    · cases items with
      | nil =>
        refine (Formed.braced (List.forall_mem_nil _)).congr fun level => ?_
        simp [bodyOf, linesOf]
      | cons n rest =>
        refine Formed.collapsed.congr fun level => ?_
        simp [hdepth]
    · have hd' : depth - 1 ≠ 0 := by omega
      have hitems := Node.formed_members hd' items h
      refine (Formed.braced hitems).congr fun level => ?_
      by_cases hempty : items = []
      · simp [hempty, bodyOf, linesOf]
      · simp [hempty, hdepth, bodyOf, Node.lines_eq, Settings.lineAt]
  | .call callee args =>
    simp only [Node.plain, Bool.and_eq_true] at h
    have hcallee := Node.formed_pieces hd callee h.1
    have hargs := Node.formed_listed hd args h.2
    refine (hcallee.append (.enclosed (o := "(") (c := ")") hargs)).congr fun level => ?_
    simp [Node.pieces, hd]
  | .construct t arg =>
    simp only [Node.plain, Bool.and_eq_true] at h
    have ht := Ty.formed_pieces hd t h.1
    have harg := Node.formed_piecesOr hd arg h.2
    refine (ht.append (.enclosed (o := "(") (c := ")") harg)).congr fun level => ?_
    simp [Node.pieces, hd]
  | .member base name =>
    simp only [Node.plain, Bool.and_eq_true] at h
    have hbase := Node.formed_pieces hd base h.1
    simp only [Node.pieces, if_neg hd]
    exact hbase.append (Formed.append .word (.text (.name h.2)))
  | .branch cond yes none =>
    simp only [Node.plain, Bool.and_eq_true] at h
    have hcond := Node.formed_pieces hd cond h.1.1
    have hyes := Node.formed_pieces hd yes h.1.2
    simp only [Node.pieces, if_neg hd]
    exact (((Formed.append .word hcond).append .inert).append hyes).append .nil
  | .branch cond yes (some no) =>
    simp only [Node.plain, Bool.and_eq_true] at h
    have hcond := Node.formed_pieces hd cond h.1.1
    have hyes := Node.formed_pieces hd yes h.1.2
    have hno := Node.formed_pieces hd no h.2
    simp only [Node.pieces, if_neg hd]
    exact (((Formed.append .word hcond).append .inert).append hyes).append
      (Formed.append .inert hno)
  | .loop start cond step body =>
    simp only [Node.plain, Bool.and_eq_true] at h
    simp only [Node.pieces, if_neg hd]
    by_cases hdepth : depth ≤ 1
    · simp only [if_pos hdepth]
      exact Formed.append .word (.elided .inert)
    · have hd' : depth - 1 ≠ 0 := by omega
      have hstart := Node.formed_piecesOr hd' start h.1.1.1
      have hcond := Node.formed_piecesOr hd' cond h.1.1.2
      have hstep := Node.formed_piecesOr hd' step h.1.2
      have hbody := Node.formed_pieces hd' body h.2
      have hsep : Formed p s.indentWidth.toNat true fun _ => [.text "; "] := .word
      have hshown : Formed p s.indentWidth.toNat false fun level =>
          if start.isSome then Node.piecesOr s level (depth - 1) start else [] := by
        split
        · exact .later hstart
        · exact .nil
      have hagain : Formed p s.indentWidth.toNat false fun level =>
          if step.isSome then
            (match s.loopStep with
              | .start => Node.piecesOr s level (depth - 1) start
              | .stop => Node.piecesOr s level (depth - 1) step)
          else [] := by
        split
        · cases s.loopStep with
          | start => exact .later hstart
          | stop => exact .later hstep
        · exact .nil
      simp only [if_neg hdepth]
      refine ((Formed.append .word (b := false) ?_).append .inert).append hbody
      split
      · exact (((hshown.append hsep).append hcond).append hsep).append hagain
      · exact .later hcond
  | .ret none =>
    simp only [Node.pieces, if_neg hd]
    exact Formed.append .word .nil
  | .ret (some value) =>
    have hvalue := Node.formed_pieces hd value h
    simp only [Node.pieces, if_neg hd]
    exact Formed.append .word (Formed.append .inert hvalue)
  | .deref arg =>
    have harg := Node.formed_pieces hd arg h
    simp only [Node.pieces, if_neg hd]
    exact Formed.append .word harg
  | .prefixed op arg =>
    have harg := Node.formed_pieces hd arg h
    simp only [Node.pieces, if_neg hd]
    exact (Formed.word (isWord_symbol op)).append harg
  | .postfixed op arg =>
    have harg := Node.formed_pieces hd arg h
    simp only [Node.pieces, if_neg hd]
    exact harg.append (.word (isWord_symbol op))
  | .assign op left right | .binary op left right =>
    simp only [Node.plain, Bool.and_eq_true] at h
    have hleft := Node.formed_pieces hd left h.1
    have hright := Node.formed_pieces hd right h.2
    have hop : Formed p s.indentWidth.toNat false fun _ =>
        [.text " ", .text op.symbol, .text " "] :=
      (Formed.append .inert (.word (isWord_symbol op))).append .inert
    simp only [Node.pieces, if_neg hd]
    exact (hleft.append hop).append hright
  | .arrayLit items =>
    have hitems := Node.formed_listed hd items h
    simp only [Node.pieces, if_neg hd]
    by_cases hdepth : depth ≤ 1
    · simp only [if_pos hdepth]
      exact .enclosed (.elided .word)
    · simp only [if_neg hdepth]
      exact .enclosed hitems
termination_by structural n

theorem Node.formed_piecesOr {depth : Nat} (hd : depth ≠ 0) (n : Option Node)
    (h : Node.plainOr p n = true) :
    Formed p s.indentWidth.toNat true fun level => Node.piecesOr s level depth n := by
  match n with
  | none =>
    simp only [Node.piecesOr, if_neg hd]
    exact .text .absent
  | some n => exact Node.formed_pieces hd n h
termination_by structural n

theorem Node.formed_members {depth : Nat} (hd : depth ≠ 0) (ns : List Node)
    (h : Node.allPlain p ns = true) :
    ∀ f ∈ ns.map fun n level => n.pieces s level depth,
      Formed p s.indentWidth.toNat true f := by
  match ns with
  | [] => exact List.forall_mem_nil _
  | n :: rest =>
    simp only [Node.allPlain, Bool.and_eq_true] at h
    have hn := Node.formed_pieces hd n h.1
    have hrest := Node.formed_members hd rest h.2
    exact List.forall_mem_cons.mpr ⟨hn, hrest⟩
termination_by structural ns

theorem Node.formed_listed {depth : Nat} (hd : depth ≠ 0) (ns : List Node)
    (h : Node.allPlain p ns = true) :
    Formed p s.indentWidth.toNat false fun level => Node.listed s level depth ns := by
  match ns with
  | [] => exact .nil
  | n :: rest =>
    simp only [Node.allPlain, Bool.and_eq_true] at h
    have hn := Node.formed_pieces hd n h.1
    have hrest := Node.formed_listed hd rest h.2
    simp only [Node.listed]
    exact .later ((hn.append (.separator _)).append hrest)
termination_by structural ns

end

end Runs

/-- A type starts no line before its first text. -/
theorem Ty.anchored_pieces (s : Settings) (level depth : Nat) (t : Ty) :
    Piece.Anchored (t.pieces s level depth) := by
  by_cases hd : depth = 0
  · unfold Ty.pieces
    rw [if_pos hd]
    rfl
  cases t with
  | prim _ | unknown | unresolved _ =>
    rw [Ty.pieces, if_neg hd]
    exact .text_singleton _
  | struct name fields =>
    cases name with
    | none =>
      simp only [Ty.pieces, if_neg hd]
      split
      · exact .elided_singleton _
      · exact .text_cons (by decide) _
    | some n =>
      simp only [Ty.pieces, if_neg hd]
      refine (Piece.Anchored.text_singleton n).append ?_
      split
      · exact .elided_singleton _
      · exact .text_cons (by decide) _
  | func params result | array elem _ | pointer elem | optional elem =>
    rw [Ty.pieces, if_neg hd]
    exact .text_cons (by decide) _
  | slice elem isMut | reference elem isMut =>
    rw [Ty.pieces, if_neg hd]
    exact .text_cons (by cases isMut <;> decide) _
  | named name elem =>
    rw [Ty.pieces, if_neg hd]
    refine (Piece.Anchored.text_singleton name).append ?_
    split
    · exact .elided_singleton _
    · exact .text_cons (by decide) _

section Texts

variable {p : String → Bool} (width : UInt64) (step : LoopStep)

/-- A node without units does not ask whether any text precedes it. -/
theorem Node.toList_shownText {n : Node} (h : n.plain p = true) {d : Nat} (hd : d ≠ 0) :
    (n.shownText width step d).toList = Piece.chars (n.pieces ⟨0, width, step⟩ 0 d) :=
  ((Node.formed_pieces ⟨0, width, step⟩ hd n h).anchored 0).toList_layout

theorem Node.toList_shownText_unit {n : Node} (h : n.plain p = true) {d : Nat} (hd : 2 ≤ d)
    (hne : n.shownText width step (d - 1) ≠ "") (ns : List Node) :
    ((Node.unit (n :: ns)).shownText width step d).toList =
      (n.shownText width step (d - 1)).toList ++
        Piece.chars (linesOf width.toNat
          (ns.map fun n level => n.pieces ⟨0, width, step⟩ level (d - 1)) 0) := by
  have hd' : d - 1 ≠ 0 := by omega
  have hformed := Node.formed_pieces ⟨0, width, step⟩ hd' n h
  have hlines : (Node.unit (n :: ns)).pieces ⟨0, width, step⟩ 0 d =
      Node.lines ⟨0, width, step⟩ 0 (d - 1) (n :: ns) := by
    simp [Node.pieces, show d ≠ 0 by omega, show ¬ d ≤ 1 by omega]
  rw [Node.shownText, hlines, Node.lines_eq, Node.toList_shownText width step h hd']
  apply Piece.toList_layout_linesOf
  · exact hformed.anchored 0
  · exact hne

end Texts

end CodeDump
