import CodeDump.Proofs.Nesting

/-!
# Brackets and indentation

A reader of a dump follows its brackets, from the outermost to the innermost, and skips quoted
strings. A dump is tidy if every closing bracket closes the innermost open one, if none is open at
the end, and if every line is indented by the braces that are open where it starts; a line that
starts with a closing brace is indented like the line of the opening one.

Whatever the depth, a dump of a node with sensible names is tidy. This is shown of all formed runs:
a run at the level of the open braces is read without a trace.
-/

namespace CodeDump

/-- Whether a reader is outside of strings, inside, or behind a backslash inside. -/
inductive Mode
  | code | quoted | escaped
  deriving DecidableEq, Repr

/-- Where a reader of a dump stands. The open brackets are listed from the innermost on. -/
structure Reading where
  opened : List Char
  mode : Mode
  deriving DecidableEq, Repr

namespace Reading

/-- Outside of strings, with brackets open. -/
def within (opened : List Char) : Reading := ⟨opened, .code⟩

def isOpening (c : Char) : Bool := c == '(' || c == '[' || c == '\x7b'

/-- The opening bracket that belongs to a closing one. -/
def partner? (c : Char) : Option Char :=
  if c = ')' then some '('
  else if c = ']' then some '['
  else if c = '\x7d' then some '\x7b'
  else none

/-- One character further. A closing bracket that does not belong to the innermost open one
cannot be read. -/
def step (r : Reading) (c : Char) : Option Reading :=
  match r.mode with
  | .escaped => some { r with mode := .quoted }
  | .quoted =>
      if c = '"' then some { r with mode := .code }
      else if c = '\\' then some { r with mode := .escaped }
      else some r
  | .code =>
      if c = '"' then some { r with mode := .quoted }
      else if isOpening c then some { r with opened := c :: r.opened }
      else
        match partner? c with
        | none => some r
        | some o =>
            if r.opened.head? = some o then some { r with opened := r.opened.tail } else none

def read (r : Reading) (cs : List Char) : Option Reading := cs.foldlM step r

theorem read_cons (r : Reading) (c : Char) (cs : List Char) :
    r.read (c :: cs) = (r.step c).bind fun q => q.read cs := rfl

theorem read_append {r q : Reading} {cs : List Char} (h : r.read cs = some q) (ds : List Char) :
    r.read (cs ++ ds) = q.read ds := by
  rw [read, List.foldlM_append]
  change (r.read cs).bind _ = _
  rw [h]
  rfl

/-- What follows a line break where brackets are open: `k` levels of spaces and then a character
that is no white space. As many braces are open, and one more if that character closes one. -/
def Indented (width : Nat) (opened post : List Char) : Prop :=
  ∃ k c rest, post = List.replicate (k * width) ' ' ++ c :: rest ∧ c.isWhitespace = false ∧
    opened.count '\x7b' = k + if c = '\x7d' then 1 else 0

/-- A text takes a reader from one list of open brackets to another, and each line break in it is
outside of strings and followed by the right indentation. -/
structure Tidy (width : Nat) (opened cs opened' : List Char) : Prop where
  read : (within opened).read cs = some (within opened')
  breaks : ∀ pre post, cs = pre ++ '\n' :: post →
    ∃ here, (within opened).read pre = some (within here) ∧ Indented width here post

theorem step_within {c : Char} (hc : c ∉ "()[]\x7b\x7d\"".toList) (opened : List Char) :
    (within opened).step c = some (within opened) := by
  have hne (d : Char) (hd : d ∈ "()[]\x7b\x7d\"".toList) : c ≠ d := fun h => hc (h ▸ hd)
  have hopening : isOpening c = false := by
    simp [isOpening, hne '(' (by decide), hne '[' (by decide), hne '\x7b' (by decide)]
  have hpartner : partner? c = none := by
    simp [partner?, hne ')' (by decide), hne ']' (by decide), hne '\x7d' (by decide)]
  simp [step, within, hne '"' (by decide), hopening, hpartner]

theorem step_inert {c : Char} (h : Piece.isInert c = true) (opened : List Char) :
    (within opened).step c = some (within opened) := by
  apply step_within
  intro hc
  have hnone : "()[]\x7b\x7d\"".toList.any Piece.isInert = false := by decide
  exact List.any_eq_false.mp hnone c hc h

theorem read_inert {cs : List Char} (h : cs.all Piece.isInert = true) (opened : List Char) :
    (within opened).read cs = some (within opened) := by
  induction cs with
  | nil => rfl
  | cons c cs ih =>
    rw [List.all_cons, Bool.and_eq_true] at h
    rw [read_cons, step_inert h.1, Option.bind_some, ih h.2]

theorem read_line (n : Nat) (opened : List Char) :
    (within opened).read ('\n' :: List.replicate n ' ') = some (within opened) := by
  rw [read_cons, step_within (by decide), Option.bind_some]
  apply read_inert
  rw [List.all_eq_true]
  intro c hc
  rw [List.eq_of_mem_replicate hc]
  decide

theorem step_quoted {c : Char} (h : Quoted.isPlain c = true) (opened : List Char) :
    step ⟨opened, .quoted⟩ c = some ⟨opened, .quoted⟩ := by
  simp only [Quoted.isPlain, Bool.and_eq_true, bne_iff_ne] at h
  simp [step, h.1.1, h.1.2]

theorem read_plain {cs : List Char} (h : ∀ c ∈ cs, Quoted.isPlain c = true)
    (opened : List Char) : read ⟨opened, .quoted⟩ cs = some ⟨opened, .quoted⟩ := by
  induction cs with
  | nil => rfl
  | cons c cs ih =>
    obtain ⟨hc, hcs⟩ := List.forall_mem_cons.mp h
    rw [read_cons, step_quoted hc, Option.bind_some, ih hcs]

theorem read_escape (b : UInt8) (opened : List Char) :
    read ⟨opened, .quoted⟩ (Quoted.escape b) = some ⟨opened, .quoted⟩ := by
  rcases Quoted.escape_cases b with ⟨c, hc, heq⟩ | ⟨c, rest, _, hrest, heq⟩
  · rw [heq]
    exact read_plain (List.forall_mem_singleton.mpr hc) opened
  · rw [heq]
    exact read_plain hrest opened

theorem read_body (bytes : List UInt8) (opened : List Char) :
    read ⟨opened, .quoted⟩ (Quoted.body bytes) = some ⟨opened, .quoted⟩ := by
  induction bytes with
  | nil => rfl
  | cons b bytes ih => rw [Quoted.body_cons, read_append (read_escape b opened), ih]

theorem toList_quoted (bytes : List UInt8) :
    (Quoted.text bytes).toList = '"' :: (Quoted.body bytes ++ ['"']) := by
  simp [Quoted.text]

theorem read_quoted (bytes : List UInt8) (opened : List Char) :
    (within opened).read (Quoted.text bytes).toList = some (within opened) := by
  rw [toList_quoted]
  change read ⟨opened, .quoted⟩ (Quoted.body bytes ++ ['"']) = _
  rw [read_append (read_body bytes opened)]
  rfl

/-- The first character is neither white space nor a closing brace. -/
def isSolid (cs : List Char) : Bool := cs.head?.any fun c => !c.isWhitespace && c != '\x7d'

theorem isSolid_append {cs : List Char} (h : isSolid cs = true) (ds : List Char) :
    isSolid (cs ++ ds) = true := by
  cases cs with
  | nil => cases h
  | cons c cs => exact h

theorem exists_cons_of_isSolid {cs : List Char} (h : isSolid cs = true) :
    ∃ c rest, cs = c :: rest ∧ c.isWhitespace = false ∧ c ≠ '\x7d' := by
  cases cs with
  | nil => cases h
  | cons c rest =>
    simp only [isSolid, List.head?_cons, Option.any_some, Bool.and_eq_true, Bool.not_eq_true',
      bne_iff_ne] at h
    exact ⟨c, rest, rfl, h⟩

theorem Indented.append {width : Nat} {opened post : List Char} (h : Indented width opened post)
    (rest : List Char) : Indented width opened (post ++ rest) := by
  obtain ⟨k, c, after, rfl, hc, hk⟩ := h
  exact ⟨k, c, after ++ rest, by simp, hc, hk⟩

namespace Tidy

variable {width : Nat} {a b c cs ds : List Char}

/-- A text without line breaks. -/
theorem of_read (h : (within a).read cs = some (within b)) (hcs : '\n' ∉ cs) :
    Tidy width a cs b := by
  refine ⟨h, fun pre post heq => ?_⟩
  rw [heq] at hcs
  exact absurd (List.mem_append_right pre List.mem_cons_self) hcs

theorem nil : Tidy width a [] a := of_read rfl List.not_mem_nil

theorem append (hc : Tidy width a cs b) (hd : Tidy width b ds c) : Tidy width a (cs ++ ds) c := by
  refine ⟨(read_append hc.read ds).trans hd.read, fun pre post heq => ?_⟩
  rcases List.append_eq_append_iff.mp heq with ⟨mid, rfl, hds⟩ | ⟨mid, hcs, hpost⟩
  · -- The break is in the second text.
    obtain ⟨here, hread, hindent⟩ := hd.breaks mid post hds
    exact ⟨here, (read_append hc.read mid).trans hread, hindent⟩
  · cases mid with
    | nil =>
      rw [List.append_nil] at hcs
      subst hcs
      obtain ⟨here, hread, hindent⟩ := hd.breaks [] post hpost.symm
      refine ⟨here, ?_, hindent⟩
      rw [hc.read, ← hread]
      rfl
    | cons x mid =>
      -- The break is in the first text, and so is all of the indentation.
      obtain ⟨rfl, rfl⟩ := List.cons.inj hpost
      obtain ⟨here, hread, hindent⟩ := hc.breaks pre mid hcs
      exact ⟨here, hread, hindent.append ds⟩

/-- A line break and the right indentation in front of a text. -/
theorem line {k : Nat} {x : Char} (h : Tidy width a (x :: cs) b) (hx : x.isWhitespace = false)
    (hk : a.count '\x7b' = k + if x = '\x7d' then 1 else 0) :
    Tidy width a ('\n' :: (List.replicate (k * width) ' ' ++ x :: cs)) b := by
  have hstart := read_line (k * width) a
  refine ⟨(read_append hstart (x :: cs)).trans h.read, fun pre post heq => ?_⟩
  cases pre with
  | nil =>
    rw [← (List.cons.inj heq).2]
    exact ⟨a, rfl, k, x, cs, rfl, hx, hk⟩
  | cons y pre =>
    obtain ⟨rfl, htail⟩ := List.cons.inj heq
    rcases List.append_eq_append_iff.mp htail with ⟨mid, rfl, hcs⟩ | ⟨mid, hspaces, hpost⟩
    · obtain ⟨here, hread, hindent⟩ := h.breaks mid post hcs
      exact ⟨here, (read_append hstart mid).trans hread, hindent⟩
    · -- Neither the spaces nor the character behind them break the line.
      cases mid with
      | nil =>
        rw [← (List.cons.inj hpost).1] at hx
        cases hx
      | cons z mid =>
        have hmem : '\n' ∈ List.replicate (k * width) ' ' := by
          rw [hspaces, ← (List.cons.inj hpost).1]
          exact List.mem_append_right pre List.mem_cons_self
        cases List.eq_of_mem_replicate hmem

end Tidy

section Formed

open Piece

variable {width : Nat}

/-- A name that is not empty and all of ink. -/
def isName (n : String) : Bool := !n.isEmpty && n.toList.all isInk

theorem isWord_of_isName {n : String} (h : isName n = true) : isWord n = true := by
  rw [isName, Bool.and_eq_true] at h
  exact isWord_of_ink (by simpa using h.1) h.2

theorem free_of_isName {n : String} (h : isName n = true) : Free '\n' n := by
  rw [isName, Bool.and_eq_true] at h
  exact free_of_all (show isInk '\n' = false by decide) h.2

theorem isSolid_word {t : String} (h : isWord t = true) : isSolid t.toList = true := by
  rw [isWord, Bool.and_eq_true] at h
  cases ht : t.toList with
  | nil =>
    rw [ht] at h
    cases h.2
  | cons c cs =>
    rw [ht] at h
    have hink : isInk c = true := h.2
    have hspace : c.isWhitespace = false := by
      rw [isInk, Bool.and_eq_true, Bool.not_eq_true'] at hink
      exact hink.1
    have hbrace : c ≠ '\x7d' := by
      rintro rfl
      cases hink
    simp [isSolid, hspace, hbrace]

theorem read_word {t : String} (h : isWord t = true) (opened : List Char) :
    (within opened).read t.toList = some (within opened) := by
  rw [isWord, Bool.and_eq_true] at h
  exact read_inert h.1 opened

theorem tidy_neutral {led : Bool} {t : String} (h : Neutral isName led t) (opened : List Char) :
    Tidy width opened t.toList opened := by
  refine .of_read ?_ (h.free fun _ => free_of_isName)
  cases h with
  | name h => exact read_word (isWord_of_isName h) opened
  | word h => exact read_word h opened
  | inert h => exact read_inert h opened
  | quoted bytes => exact read_quoted bytes opened
  | absent => rfl

theorem isSolid_neutral {t : String} (h : Neutral isName true t) : isSolid t.toList = true := by
  cases h with
  | name h => exact isSolid_word (isWord_of_isName h)
  | word h => exact isSolid_word h
  | quoted bytes =>
    rw [toList_quoted]
    rfl
  | absent => decide

/-- The texts around a run open and close one bracket, which is not a brace. -/
theorem exists_tidy_enclosure {o c : String} (h : (o, c) ∈ enclosures) (opened : List Char) :
    ∃ x, x ≠ '\x7b' ∧ Tidy width opened o.toList (x :: opened) ∧
      Tidy width (x :: opened) c.toList opened ∧ isSolid o.toList = true := by
  simp only [enclosures, List.mem_cons, Prod.mk.injEq, List.not_mem_nil, or_false] at h
  rcases h with ⟨rfl, rfl⟩ | ⟨rfl, rfl⟩ | ⟨rfl, rfl⟩ | ⟨rfl, rfl⟩ | ⟨rfl, rfl⟩
  · exact ⟨'(', by decide, .of_read rfl (by decide), .of_read rfl (by decide), by decide⟩
  · exact ⟨'(', by decide, .of_read rfl (by decide), .of_read rfl (by decide), by decide⟩
  · exact ⟨'[', by decide, .of_read rfl (by decide), .of_read rfl (by decide), by decide⟩
  · exact ⟨'[', by decide, .of_read rfl (by decide), .of_read rfl (by decide), by decide⟩
  · exact ⟨'[', by decide, .of_read rfl (by decide), .of_read rfl (by decide), by decide⟩

/-- Lines at the level of the open braces. -/
theorem tidy_linesOf (opened : List Char) {fs : List (Nat → Run)}
    (h : ∀ f ∈ fs, Tidy width opened (chars (f (opened.count '\x7b'))) opened ∧
      isSolid (chars (f (opened.count '\x7b'))) = true) :
    Tidy width opened (chars (linesOf width fs (opened.count '\x7b'))) opened := by
  induction fs with
  | nil => exact .nil
  | cons f fs ih =>
    obtain ⟨⟨htidy, hsolid⟩, hrest⟩ := List.forall_mem_cons.mp h
    obtain ⟨c, cs, hcs, hspace, hbrace⟩ := exists_cons_of_isSolid hsolid
    rw [chars_linesOf_cons]
    refine .append ?_ (ih hrest)
    rw [hcs] at htidy ⊢
    exact htidy.line hspace (by rw [if_neg hbrace, Nat.add_zero])

/-- Braces around lines that are tidy inside of them. -/
theorem tidy_braced {opened : List Char} {fs : List (Nat → Run)}
    (h : Tidy width ('\x7b' :: opened)
      (chars (linesOf width fs (opened.count '\x7b' + 1))) ('\x7b' :: opened)) :
    Tidy width opened
      ('\x7b' :: (chars (bodyOf width fs (opened.count '\x7b')) ++ ['\x7d'])) opened := by
  have hopen : Tidy width opened ['\x7b'] ('\x7b' :: opened) := .of_read rfl (by decide)
  have hclose : Tidy width ('\x7b' :: opened) ['\x7d'] opened := .of_read rfl (by decide)
  have hrest : Tidy width ('\x7b' :: opened)
      (chars (bodyOf width fs (opened.count '\x7b')) ++ ['\x7d']) opened := by
    cases fs with
    | nil => exact hclose
    | cons f fs =>
      have hbody : chars (bodyOf width (f :: fs) (opened.count '\x7b')) =
          chars (linesOf width (f :: fs) (opened.count '\x7b' + 1)) ++
            '\n' :: List.replicate (opened.count '\x7b' * width) ' ' := by
        simp [bodyOf]
      rw [hbody, List.append_assoc]
      exact h.append (hclose.line rfl List.count_cons_self)
  exact hopen.append hrest

/-- A formed run at the level of the open braces is read without a trace. -/
theorem tidy_formed {led : Bool} {f : Nat → Run} (h : Formed isName width led f)
    (opened : List Char) :
    Tidy width opened (chars (f (opened.count '\x7b'))) opened ∧
      (led = true → isSolid (chars (f (opened.count '\x7b'))) = true) := by
  induction h generalizing opened with
  | nil => exact ⟨.nil, fun h => Bool.noConfusion h⟩
  | text h | elided h =>
    simp only [chars_cons, shown_text, shown_elided, chars_nil, List.append_nil]
    refine ⟨tidy_neutral h opened, ?_⟩
    rintro rfl
    exact isSolid_neutral h
  | later _ ih => exact ⟨(ih opened).1, fun h => Bool.noConfusion h⟩
  | append _ _ ihf ihg =>
    rw [chars_append]
    exact ⟨(ihf opened).1.append (ihg opened).1, fun h => isSolid_append ((ihf opened).2 h) _⟩
  | enclosed _ h ih =>
    obtain ⟨x, hx, hopen, hclose, hsolid⟩ := exists_tidy_enclosure h opened
    have hinner := (ih (x :: opened)).1
    rw [List.count_cons_of_ne hx] at hinner
    simp only [chars_append, chars_cons, shown_text, chars_nil, List.append_nil]
    exact ⟨(hopen.append hinner).append hclose,
      fun _ => isSolid_append (isSolid_append hsolid _) _⟩
  | collapsed =>
    have hchars : chars [.text "\x7b", .elided "...", .text "\x7d"] =
        ['\x7b', '.', '.', '.', '\x7d'] := by decide
    rw [hchars]
    exact ⟨.of_read rfl (by decide), fun _ => by decide⟩
  | braced _ ih =>
    have hlines := tidy_linesOf ('\x7b' :: opened) fun f hf =>
      (ih f hf ('\x7b' :: opened)).imp_right fun h => h rfl
    rw [List.count_cons_self] at hlines
    refine ⟨?_, fun _ => ?_⟩
    · simpa using tidy_braced hlines
    · simp [isSolid]

end Formed

end Reading

/-- Like `Node.plain`, but the node itself may be a unit. -/
def Node.plainRoot (p : String → Bool) : Node → Bool
  | .unit items => Node.allPlain p items
  | n => n.plain p

section Dumps

open Reading Piece

variable (s : Settings)

theorem Node.tidy_pieces {n : Node} (h : n.plain isName = true) {d : Nat} (hd : d ≠ 0) :
    Tidy s.indentWidth.toNat [] (chars (n.pieces s 0 d)) [] ∧
      isSolid (chars (n.pieces s 0 d)) = true := by
  obtain ⟨htidy, hsolid⟩ := tidy_formed (Node.formed_pieces s hd n h) []
  exact ⟨htidy, hsolid rfl⟩

theorem Node.tidy_shownText {n : Node} (h : n.plain isName = true) {d : Nat} (hd : d ≠ 0) :
    Tidy s.indentWidth.toNat [] (n.shownText s.indentWidth s.loopStep d).toList [] ∧
      isSolid (n.shownText s.indentWidth s.loopStep d).toList = true := by
  rw [Node.toList_shownText s.indentWidth s.loopStep h hd]
  exact Node.tidy_pieces ⟨0, s.indentWidth, s.loopStep⟩ h hd

theorem Node.tidy_shownText_unit {ns : List Node} (h : Node.allPlain isName ns = true) {d : Nat}
    (hd : 1 ≤ d) :
    Tidy s.indentWidth.toNat [] ((Node.unit ns).shownText s.indentWidth s.loopStep d).toList
      [] := by
  rw [Node.allPlain_iff] at h
  cases ns with
  | nil =>
    have hempty : ((Node.unit []).shownText s.indentWidth s.loopStep d).toList = [] := by
      simp [Node.shownText, Node.pieces, Node.lines, show d ≠ 0 by omega, layout]
    rw [hempty]
    exact .nil
  | cons n ns =>
    obtain ⟨hn, hns⟩ := List.forall_mem_cons.mp h
    by_cases hdepth : d ≤ 1
    · have hdots : ((Node.unit (n :: ns)).shownText s.indentWidth s.loopStep d).toList =
          ['.', '.', '.'] := by
        simp [Node.shownText, Node.pieces, hdepth, show d ≠ 0 by omega, layout, layoutFrom_cons]
      rw [hdots]
      exact .of_read rfl (by decide)
    · have hd' : d - 1 ≠ 0 := by omega
      obtain ⟨htidy, hsolid⟩ := Node.tidy_shownText s hn hd'
      have hne : n.shownText s.indentWidth s.loopStep (d - 1) ≠ "" := by
        intro hempty
        rw [hempty] at hsolid
        cases hsolid
      have hlines : Tidy s.indentWidth.toNat [] (chars (linesOf s.indentWidth.toNat
          (ns.map fun n level => n.pieces ⟨0, s.indentWidth, s.loopStep⟩ level (d - 1)) 0)) [] := by
        apply tidy_linesOf []
        intro f hf
        obtain ⟨m, hm, rfl⟩ := List.mem_map.mp hf
        exact Node.tidy_pieces ⟨0, s.indentWidth, s.loopStep⟩ (hns m hm) hd'
      rw [Node.toList_shownText_unit _ _ hn (by omega) hne]
      exact htidy.append hlines

/-- Cut at whatever depth, the text of a node with sensible names and no unit below its root is
tidy: its brackets match and its lines are indented by the braces around them. This is what a
dump of the node gives if its requests are granted, and no dump gives anything else. -/
theorem Node.tidy_dump {n : Node} (h : n.plainRoot isName = true) {d : Nat} (hd : 1 ≤ d) :
    Tidy s.indentWidth.toNat [] (n.shownText s.indentWidth s.loopStep d).toList [] ∧
      ∀ mem t, n.dump mem s d = .ok t ↔
        Buffer.Accepted mem s .empty (n.shownText s.indentWidth s.loopStep d) ∧
          t = n.shownText s.indentWidth s.loopStep d := by
  refine ⟨?_, fun mem t => Node.dump_eq_ok_iff mem s hd n t⟩
  cases n with
  | unit ns => exact Node.tidy_shownText_unit s h hd
  | _ => exact (Node.tidy_shownText s h (by omega)).1

/-- Brackets and quotes in string literals, below a struct and a function body of a unit. -/
theorem Node.tidy_dump_literals :
    let field : Binding := ⟨"x", some (.fresh (.prim .i32)), some (.strLit [0x7d, 0x22, 0x28])⟩
    let body : Node := .block [.ret (some (.call (.ident "g") [.strLit [0x7b, 0x5c]]))]
    let n : Node := .unit [.typeDef (.struct (some "S") [field]),
      .func ⟨"f", [], .prim .i32, some body⟩]
    n.dump .standard .default 3 = .ok
        ("type S \x7b\n  x i32 = \"\x7d\\\"(\"\n\x7d\n" ++
          "fun f() i32 \x7b\n  return g(\"\x7b\\\\\")\n\x7d") ∧
      Tidy 2 [] (n.shownText 2 .start 3).toList [] := by
  intro field body n
  obtain ⟨htidy, hdump⟩ := Node.tidy_dump .default (show n.plainRoot isName = true by decide)
    (show 1 ≤ 3 by decide)
  refine ⟨(hdump .standard _).mpr ⟨⟨by decide, ?_⟩, ?_⟩, htidy⟩
  · decide +kernel
  · decide +kernel

end Dumps

end CodeDump
