import CodeDump.Print.Parts
import CodeDump.Proofs.Composition

/-!
# Every visit shows something

A visit at depth zero would leave out what it was made for and put nothing in its place. No dump
makes one. A dump starts at depth one or more, a part keeps the depth or takes one level off where
there are at least two, and so all visits, at whatever distance from the root, are at depth one or
more.

The text of each visit then stands in the text of the dump. It is empty only where the tree has
none of its own: a unit without members or with such members only, and an empty name where nothing
but the name is shown. An absent node or type shows as `(NULL)`.
-/

namespace CodeDump

namespace Part

/-- The part visits at the depth given, or one level below if there are two. -/
def Keeps (depth : Nat) : Part → Prop
  | write _ => True
  | visit v => v.depth = depth
  | below v => v.depth = depth ∧ 2 ≤ depth

variable {depth : Nat}

@[simp] theorem keeps_write (p : Piece) : (write p).Keeps depth := trivial

@[simp] theorem keeps_text (t : String) : (text t).Keeps depth := trivial

@[simp] theorem keeps_visit (child : Child) (level : Nat) :
    (visit ⟨child, level, depth⟩).Keeps depth := rfl

@[simp] theorem keeps_below (child : Child) (level : Nat) :
    (below ⟨child, level, depth⟩).Keeps depth ↔ 2 ≤ depth := by
  simp [Keeps]

theorem keeps_listed {pss : List (List Part)} (h : ∀ ps ∈ pss, ∀ p ∈ ps, p.Keeps depth) :
    ∀ p ∈ listed pss, p.Keeps depth := by
  induction pss with
  | nil => exact List.forall_mem_nil _
  | cons ps rest ih =>
    obtain ⟨hps, hrest⟩ := List.forall_mem_cons.mp h
    rw [listed, List.forall_mem_append, List.forall_mem_append]
    refine ⟨⟨hps, ?_⟩, ih hrest⟩
    split <;> simp

theorem Keeps.one_le_depth {p : Part} {v : Visit} (h : p.Keeps depth) (hv : p.visit? = some v)
    (hdepth : 1 ≤ depth) : 1 ≤ v.depth := by
  cases p with
  | write _ => cases hv
  | visit w =>
    cases hv
    exact hdepth.trans_eq h.symm
  | below w =>
    cases hv
    obtain ⟨hw, htwo⟩ := h
    change 1 ≤ w.depth - 1
    omega

end Part

section Keeps

variable (s : Settings) (level depth : Nat)

theorem Binding.keeps_parts (b : Binding) : ∀ p ∈ b.parts level depth, p.Keeps depth := by
  obtain ⟨name, ty, init⟩ := b
  cases init with
  | none => simp [Binding.parts]
  | some value =>
    simp only [Binding.parts, List.forall_mem_append]
    refine ⟨by simp, ?_⟩
    split <;> simp

theorem Binding.keeps_fieldParts (b : Binding) :
    ∀ p ∈ b.fieldParts s level depth, p.Keeps depth := by
  obtain ⟨name, ty, init⟩ := b
  cases init <;> simp [Binding.fieldParts]

theorem Binding.keeps_groupedParts (bs : List Binding) :
    ∀ p ∈ Binding.groupedParts level depth bs, p.Keeps depth := by
  induction bs with
  | nil => exact List.forall_mem_nil _
  | cons b rest ih =>
    simp only [Binding.groupedParts, List.forall_mem_append]
    refine ⟨⟨⟨by simp, ?_⟩, ?_⟩, ih⟩
    · split <;> simp
    · split <;> simp

theorem FunDef.keeps_parts (f : FunDef) : ∀ p ∈ f.parts level depth, p.Keeps depth := by
  obtain ⟨name, params, result, body⟩ := f
  have hparams : ∀ p ∈ Part.listed (params.map (Binding.parts level depth)), p.Keeps depth := by
    apply Part.keeps_listed
    simpa using fun b _ => b.keeps_parts level depth
  simp only [FunDef.parts, List.forall_mem_append]
  refine ⟨⟨⟨by simp, hparams⟩, by simp⟩, ?_⟩
  cases body <;> simp

theorem Ty.keeps_parts (t : Ty) : ∀ p ∈ t.parts s level depth, p.Keeps depth := by
  cases t with
  | struct name fields =>
    have hfields : ∀ p ∈ fields.flatMap (Binding.fieldParts s (level + 1) depth),
        p.Keeps depth := by
      intro p hp
      obtain ⟨b, _, hp⟩ := List.mem_flatMap.mp hp
      exact b.keeps_fieldParts s (level + 1) depth p hp
    simp only [Ty.parts, List.forall_mem_append]
    refine ⟨by cases name <;> simp, ?_⟩
    split
    · simp
    · simp only [List.forall_mem_append]
      refine ⟨⟨⟨⟨?_, by simp⟩, hfields⟩, ?_⟩, by simp⟩
      · split <;> simp
      · split <;> simp
  | func params result =>
    simp only [Ty.parts, List.forall_mem_append]
    exact ⟨⟨by simp, Binding.keeps_groupedParts level depth params⟩, by simp⟩
  | array elem length =>
    simp only [Ty.parts, List.forall_mem_append]
    refine ⟨⟨by simp, ?_⟩, by simp⟩
    split <;> simp
  | named name elem =>
    simp only [Ty.parts, List.forall_mem_append]
    refine ⟨by simp, ?_⟩
    split <;> simp
  | prim _ | slice _ _ | pointer _ | reference _ _ | optional _ | unknown | unresolved _ =>
    simp [Ty.parts]

theorem Node.keeps_lineParts (hdepth : 2 ≤ depth) (ns : List Node) :
    ∀ p ∈ ns.flatMap (Node.lineParts s level depth), p.Keeps depth := by
  intro p hp
  obtain ⟨n, _, hp⟩ := List.mem_flatMap.mp hp
  have hline : ∀ p ∈ n.lineParts s level depth, p.Keeps depth := by
    simp [Node.lineParts, hdepth]
  exact hline p hp

theorem Node.keeps_listedParts (ns : List Node) :
    ∀ p ∈ Node.listedParts level depth ns, p.Keeps depth := by
  apply Part.keeps_listed
  simp

/-- Only units, blocks and loops take a level off, each behind a test of its own. -/
theorem Node.keeps_parts (n : Node) : ∀ p ∈ n.parts s level depth, p.Keeps depth := by
  cases n with
  | unit items =>
    -- The test is of the depth and the members together; without members no level is taken off.
    cases items with
    | nil => simp [Node.parts]
    | cons n rest =>
      rw [Node.parts]
      split
      · simp
      · rename_i h
        have hdepth : 1 < depth := by simpa using h
        exact Node.keeps_lineParts s level depth hdepth (n :: rest)
  | block items =>
    simp only [Node.parts, List.forall_mem_append]
    refine ⟨⟨by simp, ?_⟩, by simp⟩
    split
    · simp
    · split
      · simp
      · have hdepth : 2 ≤ depth := by omega
        rw [List.forall_mem_append]
        exact ⟨Node.keeps_lineParts s (level + 1) depth hdepth items, by simp⟩
  | loop start cond step body =>
    rw [Node.parts]
    split
    · simp
    · have hdepth : 2 ≤ depth := by omega
      cases start <;> cases step <;> cases s.loopStep <;> simp [hdepth]
  | binding role b =>
    rw [Node.parts, List.forall_mem_append]
    exact ⟨by simp, b.keeps_parts level depth⟩
  | func f => exact f.keeps_parts level depth
  | call callee args =>
    simp only [Node.parts, List.forall_mem_append]
    exact ⟨⟨by simp, Node.keeps_listedParts level depth args⟩, by simp⟩
  | branch cond yes no => cases no <;> simp [Node.parts]
  | ret value => cases value <;> simp [Node.parts]
  | arrayLit items =>
    simp only [Node.parts, List.forall_mem_append]
    refine ⟨⟨by simp, ?_⟩, by simp⟩
    split
    · simp
    · exact Node.keeps_listedParts level depth items
  | bad | comment _ | typeDef _ | construct _ _ | member _ _ | ident _ | deref _ | prefixed _ _
  | postfixed _ _ | assign _ _ _ | binary _ _ _ | boolLit _ | intLit _ _ | floatLit _ | strLit _
  | typeNode _ => simp [Node.parts]

end Keeps

theorem Visit.keeps_parts (s : Settings) (v : Visit) : ∀ p ∈ v.parts s, p.Keeps v.depth := by
  obtain ⟨child, level, depth⟩ := v
  by_cases hd : depth = 0
  · simp [Visit.parts, hd]
  · cases child with
    | node n =>
      cases n with
      | none => simp [Visit.parts, hd]
      | some n => simpa [Visit.parts, hd] using n.keeps_parts s level depth
    | ty t =>
      cases t with
      | none => simp [Visit.parts, hd]
      | some t => simpa [Visit.parts, hd] using t.keeps_parts s level depth

/-- What a dump is made of. -/
inductive Root
  | node (n : Node)
  | ty (t : Ty)
  | binding (b : Binding)

namespace Root

def run (s : Settings) (depth : Nat) : Root → Run
  | node n => n.run s depth
  | ty t => t.run s depth
  | binding b => b.run s depth

/-- The parts that a dump starts with. -/
def parts (depth : Nat) : Root → List Part
  | node n => [.visit ⟨.node (some n), 0, max depth 1⟩]
  | ty t => [.visit ⟨.ty (some t), 0, max depth 1⟩]
  | binding b => b.parts 0 (max depth 1)

theorem run_eq (s : Settings) (depth : Nat) (x : Root) :
    x.run s depth = (x.parts depth).flatMap (Part.run s) := by
  cases x with
  | node n => simp [run, parts, Node.run]
  | ty t => simp [run, parts, Ty.run]
  | binding b => exact b.pieces_eq s 0 (max depth 1)

theorem keeps_parts (depth : Nat) (x : Root) : ∀ p ∈ x.parts depth, p.Keeps (max depth 1) := by
  cases x with
  | node n => simp [parts]
  | ty t => simp [parts]
  | binding b => exact b.keeps_parts 0 (max depth 1)

end Root

/-- What is done in the course of some parts: these, and the parts of each visit on the way. -/
inductive Performed (s : Settings) (start : List Part) : Part → Prop
  | first {p : Part} (hp : p ∈ start) : Performed s start p
  | next {p q : Part} {v : Visit} (hp : Performed s start p) (hv : p.visit? = some v)
      (hq : q ∈ v.parts s) : Performed s start q

namespace Performed

variable {s : Settings} {start : List Part} {p : Part}

theorem exists_keeps (h : Performed s start p) {depth : Nat} (hdepth : 1 ≤ depth)
    (hstart : ∀ p ∈ start, p.Keeps depth) : ∃ d, 1 ≤ d ∧ p.Keeps d := by
  induction h with
  | first hp => exact ⟨depth, hdepth, hstart _ hp⟩
  | next _ hv hq ih =>
    obtain ⟨d, hd, hkeeps⟩ := ih
    exact ⟨_, hkeeps.one_le_depth hv hd, Visit.keeps_parts s _ _ hq⟩

theorem run_infix (h : Performed s start p) : p.run s <:+: start.flatMap (Part.run s) := by
  induction h with
  | first hp => exact infix_flatMap _ hp
  | next _ hv hq ih =>
    rw [Part.run_of_visit? s hv, Visit.run_eq] at ih
    exact (infix_flatMap _ hq).trans ih

end Performed

namespace Piece

theorem layout_of_infix {ps whole : Run} (h : ps <:+: whole) :
    ∃ before behind, layout whole = before ++ layoutFrom (before != "") ps ++ behind := by
  obtain ⟨pre, post, rfl⟩ := h
  refine ⟨layout pre, layoutFrom (layout (pre ++ ps) != "") post, ?_⟩
  simp only [layout, layoutFrom_append, Bool.false_or]

/-- What a piece says; a line start says nothing. -/
def wording : Piece → String
  | text t | elided t => t
  | line _ => ""

def Speaks (ps : Run) : Prop := ∃ p ∈ ps, p.wording ≠ ""

@[simp] theorem not_speaks_nil : ¬ Speaks [] := by simp [Speaks]

@[simp] theorem speaks_cons (p : Piece) (ps : Run) :
    Speaks (p :: ps) ↔ p.wording ≠ "" ∨ Speaks ps := by
  simp [Speaks]

@[simp] theorem speaks_append (ps qs : Run) : Speaks (ps ++ qs) ↔ Speaks ps ∨ Speaks qs := by
  simp [Speaks, or_and_right, exists_or]

theorem shown_ne_empty {p : Piece} (h : p.wording ≠ "") (started : Bool) :
    p.shown started ≠ "" := by
  cases p with
  | text t => rwa [shown_text]
  | elided t => rwa [shown_elided]
  | line n => exact absurd rfl h

theorem Speaks.layoutFrom_ne_empty {ps : Run} (h : Speaks ps) (started : Bool) :
    layoutFrom started ps ≠ "" := by
  induction ps generalizing started with
  | nil => exact absurd h not_speaks_nil
  | cons p ps ih =>
    rw [layoutFrom_cons, ne_eq, String.append_eq_empty_iff, not_and_or]
    rcases (speaks_cons p ps).mp h with hp | hps
    · exact .inl (shown_ne_empty hp started)
    · exact .inr (ih hps _)

theorem ne_empty_of_isWord {t : String} (h : isWord t = true) : t ≠ "" := by
  rintro rfl
  exact absurd h (by decide)

end Piece

/-- Only the name of the type is shown, and it is empty. -/
def Ty.isBlank (depth : Nat) : Ty → Bool
  | .struct (some name) _ | .named name _ => depth ≤ 1 && name.isEmpty
  | .unresolved name => name.isEmpty
  | _ => false

mutual

/-- There is no text of its own to show: an empty name, or a unit of nothing but such members. -/
def Node.isBlank (depth : Nat) (n : Node) : Bool :=
  match n with
  | .unit items => if depth ≤ 1 then items.isEmpty else Node.allBlank (depth - 1) items
  | .ident name => name.isEmpty
  | .typeNode t => t.isBlank depth
  | _ => false
termination_by structural n

def Node.allBlank (depth : Nat) (ns : List Node) : Bool :=
  match ns with
  | [] => true
  | n :: rest => n.isBlank depth && Node.allBlank depth rest
termination_by structural ns

end

/-- An absent node or type is not blank: it has a text that stands for it. -/
def Visit.isBlank (v : Visit) : Bool :=
  match v.child with
  | .node none | .ty none => false
  | .node (some n) => n.isBlank v.depth
  | .ty (some t) => t.isBlank v.depth

section Blank

open Piece (Speaks wording ne_empty_of_isWord)

variable (s : Settings)

theorem Ty.speaks_pieces_iff (level : Nat) {depth : Nat} (hd : depth ≠ 0) (t : Ty) :
    Speaks (t.pieces s level depth) ↔ t.isBlank depth = false := by
  cases t with
  | prim p => cases p <;> simp [Ty.pieces, hd, Ty.isBlank, Prim.keyword, wording]
  | struct name fields =>
    by_cases hdepth : depth ≤ 1
    · cases name <;> simp [Ty.pieces, hd, Ty.isBlank, hdepth, wording]
    · cases name <;> simp [Ty.pieces, hd, Ty.isBlank, hdepth, wording]
  | named name elem =>
    by_cases hdepth : depth ≤ 1
    · simp [Ty.pieces, hd, Ty.isBlank, hdepth, wording]
    · simp [Ty.pieces, hd, Ty.isBlank, hdepth, wording]
  | slice _ isMut | reference _ isMut =>
    cases isMut <;> simp [Ty.pieces, hd, Ty.isBlank, wording]
  | func _ _ | array _ _ | pointer _ | optional _ | unknown | unresolved _ =>
    simp [Ty.pieces, hd, Ty.isBlank, wording]

mutual

theorem Node.speaks_pieces_iff (level : Nat) {depth : Nat} (hd : depth ≠ 0) (n : Node) :
    Speaks (n.pieces s level depth) ↔ n.isBlank depth = false := by
  match n with
  | .unit items =>
    by_cases hdepth : depth ≤ 1
    · cases items <;> simp [Node.pieces, hd, Node.isBlank, hdepth, Node.lines, wording]
    · have hd' : depth - 1 ≠ 0 := by omega
      have hlines := Node.speaks_lines_iff level hd' items
      simpa [Node.pieces, hd, Node.isBlank, hdepth] using hlines
  | .typeNode t =>
    have ht := t.speaks_pieces_iff s level hd
    simpa [Node.pieces, hd, Node.isBlank] using ht
  | .binding role ⟨name, ty, init⟩ =>
    cases init <;> simp [Node.pieces, hd, Node.isBlank, Binding.pieces, wording]
  | .func ⟨name, params, result, body⟩ =>
    cases body <;> simp [Node.pieces, hd, Node.isBlank, FunDef.pieces, wording]
  | .branch _ _ no => cases no <;> simp [Node.pieces, hd, Node.isBlank, wording]
  | .ret value => cases value <;> simp [Node.pieces, hd, Node.isBlank, wording]
  | .loop start cond step body =>
    by_cases hdepth : depth ≤ 1
    · simp [Node.pieces, hd, Node.isBlank, hdepth, wording]
    · simp [Node.pieces, hd, Node.isBlank, hdepth, wording]
  | .prefixed op _ | .postfixed op _ =>
    have hop := ne_empty_of_isWord (Piece.isWord_symbol op)
    simp [Node.pieces, hd, Node.isBlank, wording, hop]
  | .boolLit b => cases b <;> simp [Node.pieces, hd, Node.isBlank, wording]
  | .intLit value ty =>
    have htext := ne_empty_of_isWord (Piece.isWord_integerText value (ty.any Ty.isUnsigned))
    simp [Node.pieces, hd, Node.isBlank, wording, htext]
  | .floatLit x =>
    have htext := ne_empty_of_isWord (Piece.isWord_literal x)
    simp [Node.pieces, hd, Node.isBlank, wording, htext]
  | .strLit bytes => simp [Node.pieces, hd, Node.isBlank, wording, Quoted.text]
  | .bad | .comment _ | .typeDef _ | .block _ | .call _ _ | .construct _ _ | .member _ _
  | .ident _ | .deref _ | .assign _ _ _ | .binary _ _ _ | .arrayLit _ =>
    simp [Node.pieces, hd, Node.isBlank, wording]
termination_by structural n

theorem Node.speaks_lines_iff (level : Nat) {depth : Nat} (hd : depth ≠ 0) (ns : List Node) :
    Speaks (Node.lines s level depth ns) ↔ Node.allBlank depth ns = false := by
  match ns with
  | [] => simp [Node.lines, Node.allBlank]
  | n :: rest =>
    have hn := Node.speaks_pieces_iff level hd n
    have hrest := Node.speaks_lines_iff level hd rest
    simp [Node.lines, Node.allBlank, Settings.lineAt, wording, hn, hrest, or_iff_not_imp_left]
termination_by structural ns

end

theorem Visit.speaks_run_iff {v : Visit} (hd : 1 ≤ v.depth) :
    Speaks (v.run s) ↔ v.isBlank = false := by
  obtain ⟨child, level, depth⟩ := v
  have hd' : depth ≠ 0 := Nat.one_le_iff_ne_zero.mp hd
  match child with
  | .node none | .ty none =>
    simp [Visit.run, Node.piecesOr, hd', Visit.isBlank, wording, absentText]
  | .node (some n) => exact n.speaks_pieces_iff s level hd'
  | .ty (some t) => exact t.speaks_pieces_iff s level hd'

end Blank

/-- The visit is made at depth one or more, prints what its parts print, and its text stands in the
text of the whole. Something stands for an absent child, and all else has a text of its own unless
it is blank. -/
structure Visit.Shown (s : Settings) (whole : Run) (v : Visit) : Prop where
  one_le_depth : 1 ≤ v.depth
  run_eq : v.run s = (v.parts s).flatMap (Part.run s)
  stands : ∃ before behind,
    Piece.layout whole = before ++ Piece.layoutFrom (before != "") (v.run s) ++ behind
  absent : v.child = .node none ∨ v.child = .ty none → v.run s = [.text absentText]
  text_ne_empty : v.isBlank = false → ∀ started, Piece.layoutFrom started (v.run s) ≠ ""
  blank : v.isBlank = true → ∀ p ∈ v.run s, p.wording = ""

theorem Visit.run_of_absent (s : Settings) {v : Visit} (hd : 1 ≤ v.depth)
    (h : v.child = .node none ∨ v.child = .ty none) : v.run s = [.text absentText] := by
  obtain ⟨child, level, depth⟩ := v
  have hd' : depth ≠ 0 := Nat.one_le_iff_ne_zero.mp hd
  rcases h with rfl | rfl
  · exact if_neg hd'
  · exact if_neg hd'

/-- In a dump with any maximal depth, zero included, each level is taken off where there are at
least two, and each visit shows what it was made for. -/
theorem Root.visits_shown (s : Settings) (depth : Nat) (x : Root) :
    x.run s depth = (x.parts depth).flatMap (Part.run s) ∧
      ∀ p, Performed s (x.parts depth) p →
        (∀ v, p = .below v → 2 ≤ v.depth) ∧
          ∀ v, p.visit? = some v → v.Shown s (x.run s depth) := by
  refine ⟨x.run_eq s depth, fun p hp => ?_⟩
  obtain ⟨d, hd, hkeeps⟩ := hp.exists_keeps (le_max_right depth 1) (x.keeps_parts depth)
  refine ⟨?_, fun v hv => ?_⟩
  · rintro v rfl
    exact hkeeps.2.trans_eq hkeeps.1.symm
  · have hone := hkeeps.one_le_depth hv hd
    have hspeaks := v.speaks_run_iff s hone
    refine ⟨hone, v.run_eq s, ?_, v.run_of_absent s hone, ?_, ?_⟩
    · rw [x.run_eq s depth, ← Part.run_of_visit? s hv]
      exact Piece.layout_of_infix hp.run_infix
    · exact fun hblank => (hspeaks.mpr hblank).layoutFrom_ne_empty
    · intro hblank p hp
      by_contra hne
      rw [hspeaks.mp ⟨p, hp, hne⟩] at hblank
      cases hblank

/-- The condition that a loop in a block does not have, one level below depth two. -/
theorem Root.visits_shown_absent_condition :
    let x : Root := .node (.block [.loop none none none (.block [])])
    Performed .default (x.parts 3) (.below ⟨.node none, 1, 2⟩) ∧
      (⟨.node none, 1, 1⟩ : Visit).Shown .default (x.run .default 3) ∧
      Piece.layout (x.run .default 3) = "\x7b\n  for (NULL) \x7b\x7d\n\x7d" := by
  intro x
  have hblock : Performed .default (x.parts 3) (.visit ⟨.node (some (.block _)), 0, 3⟩) :=
    .first List.mem_cons_self
  have hloop : Performed .default (x.parts 3) (.below ⟨.node (some (.loop _ _ _ _)), 1, 3⟩) :=
    .next hblock rfl (.tail _ (.tail _ List.mem_cons_self))
  have hcond : Performed .default (x.parts 3) (.below ⟨.node none, 1, 2⟩) :=
    .next hloop rfl (.tail _ List.mem_cons_self)
  obtain ⟨_, hparts⟩ := visits_shown .default 3 x
  exact ⟨hcond, (hparts _ hcond).2 _ rfl, by decide⟩

end CodeDump
