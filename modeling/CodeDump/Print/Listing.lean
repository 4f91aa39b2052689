import CodeDump.Ir.Basic
import CodeDump.Print.Tree
import CodeDump.Text.Buffer

/-!
# Modules as listings

A listing has one line per function header, block header, value, exit and function end.
Types and parameters are tree fragments at depth one; all other text is written directly.
Every span is one append to the buffer, which is done as a whole or not at all; one that comes
from a format string is written part by part, and every part asks for room by itself. Comments
start at a fixed column and locations at a second one. Columns are counted in bytes from the
line feed that starts the line.
-/

namespace CodeDump.Ir

/-- Where comments start. -/
def commentColumn : Nat := 32

/-- Where locations start, with one more space before their text. -/
def locationColumn : Nat := commentColumn + 10

/-- Spaces from column `used` to column `col`, at least one. -/
def gap (used col : Nat) : String := Piece.spaces (max (col - used) 1)

/-- A text padded to a width, as a format string writes it: the spaces come one by one. -/
def paddedTexts (width : Nat) (s : String) : List String :=
  s :: List.replicate (width - s.length) " "

def valueName (width : Nat) (id : ValueId) : String :=
  "v" ++ Radix.padRight width (Radix.decimal id.toNat)

def blockName (id : BlockId) : String := "b" ++ Radix.decimal id.toNat

def typeRun (s : Settings) (t : Ty) : Run := t.pieces s 0 1

def paramRun (s : Settings) (b : Binding) : Run := b.pieces s 0 1

theorem join_replicate_blank (n : Nat) : String.join (List.replicate n " ") = Piece.spaces n := by
  induction n with
  | zero => rfl
  | succ n ih =>
    have hblank : Piece.spaces (n + 1) = " " ++ Piece.spaces n := by
      rw [← String.toList_inj, String.toList_append]
      simp [Piece.spaces, List.replicate_succ]
    rw [List.replicate_succ, String.join_cons, ih, hblank]

@[simp] theorem join_paddedTexts (width : Nat) (s : String) :
    String.join (paddedTexts width s) = Radix.padRight width s := by
  rw [paddedTexts, String.join_cons, join_replicate_blank]
  rfl

namespace Value

/-- From the line's first byte to the type. -/
def leadText (v : Value) : String := "    " ++ valueName 2 v.id ++ " "

def leadSpan (v : Value) : Span :=
  .formatted ("\n    v" :: paddedTexts 2 (Radix.decimal v.id.toNat) ++ [" "])

def argText (a : ValueId) : String := " " ++ valueName 2 a

def argSpan (a : ValueId) : Span := .formatted (" v" :: paddedTexts 2 (Radix.decimal a.toNat))

/-- The scalar behind the operands; only three operators show theirs. -/
def payloadSpans (v : Value) : List Span :=
  match v.op, v.payload with
  | .arg, .index i => [.formatted [" ", Radix.decimal i.toNat]]
  | .intConst, .int n => [.formatted [" 0x", Radix.hexadecimal n.toNat]]
  | .floatConst, .float x => [.direct " ", .direct x.general]
  | _, _ => []

/-- From the type, of which the width is given, to the comment. -/
def operationSpans (typeWidth : Nat) (v : Value) : List Span :=
  [.formatted (paddedTexts (4 - typeWidth) "" ++ " = " :: paddedTexts 6 v.op.name)] ++
    v.args.map argSpan ++ v.payloadSpans

def commentSpans (v : Value) : List Span :=
  .formatted ["# [", Radix.decimal v.uses.toNat, "]"] ::
    match v.comment with
    | some c => if c = "" then [] else [.direct " ", .direct c]
    | none => []

/-- The location behind a line of which `used` columns are taken. -/
def locationSpans (used : Nat) (v : Value) : List Span :=
  match v.loc with
  | some loc =>
      if loc.isKnown then [.direct (gap used locationColumn), .formatted (" " :: loc.texts)] else []
  | none => []

def payloadTexts (v : Value) : List String := v.payloadSpans.map Span.text

def operationTexts (typeWidth : Nat) (v : Value) : List String :=
  (v.operationSpans typeWidth).map Span.text

def commentTexts (v : Value) : List String := v.commentSpans.map Span.text

def locationTexts (used : Nat) (v : Value) : List String := (v.locationSpans used).map Span.text

/-- What stands behind the type, of which the width is given. -/
def restSpans (typeWidth : Nat) (v : Value) : List Span :=
  let head := v.leadText.utf8ByteSize + typeWidth +
    (String.join (v.operationTexts typeWidth)).utf8ByteSize
  let comment := gap head commentColumn :: v.commentTexts
  v.operationSpans typeWidth ++ .direct (gap head commentColumn) :: v.commentSpans ++
    v.locationSpans (head + (String.join comment).utf8ByteSize)

def restTexts (typeWidth : Nat) (v : Value) : List String := (v.restSpans typeWidth).map Span.text

def spans (s : Settings) (v : Value) : List Span :=
  [v.leadSpan, .fragment (typeRun s v.ty)] ++
    v.restSpans (Piece.layout (typeRun s v.ty)).utf8ByteSize

end Value

namespace Exit

def text : Exit → String
  | goto (some next) => "cont -> " ++ blockName next
  | goto none => "cont -> ?"
  | first c yes no => "first " ++ valueName 0 c ++ " -> " ++ blockName yes ++ " " ++ blockName no
  | branch c yes no => "if " ++ valueName 0 c ++ " -> " ++ blockName yes ++ " " ++ blockName no
  | ret (some c) => "ret " ++ valueName 0 c
  | ret none => "ret"

/-- A choice between two blocks; `lead` goes up to the number of the value. -/
def choiceSpan (lead : String) (c : ValueId) (yes no : BlockId) : Span :=
  .formatted [lead, Radix.decimal c.toNat, " -> b", Radix.decimal yes.toNat, " b",
    Radix.decimal no.toNat]

def span : Exit → Span
  | goto (some next) => .formatted ["\n  cont -> b", Radix.decimal next.toNat]
  | goto none => .direct "\n  cont -> ?"
  | first c yes no => choiceSpan "\n  first v" c yes no
  | branch c yes no => choiceSpan "\n  if v" c yes no
  | ret (some c) => .formatted ["\n  ret v", Radix.decimal c.toNat]
  | ret none => .direct "\n  ret"

end Exit

namespace Block

def labelText (b : Block) : String := "  " ++ blockName b.id ++ ":"

def labelSpan (b : Block) : Span := .formatted ["\n  b", Radix.decimal b.id.toNat, ":"]

/-- At most two predecessors are shown. -/
def predsSpans (b : Block) : List Span :=
  match b.preds with
  | [] => []
  | [p] => [.formatted [" <- b", Radix.decimal p.toNat]]
  | p :: q :: _ => [.formatted [" <- b", Radix.decimal p.toNat, " b", Radix.decimal q.toNat]]

def predsTexts (b : Block) : List String := b.predsSpans.map Span.text

def commentSpans (b : Block) : List Span :=
  let used := b.labelText.utf8ByteSize + (String.join b.predsTexts).utf8ByteSize
  match b.comment with
  | some c => [.direct (gap used commentColumn), .formatted ["# ", c]]
  | none => []

def commentTexts (b : Block) : List String := b.commentSpans.map Span.text

def spans (s : Settings) (b : Block) : List Span :=
  [b.labelSpan] ++ (b.predsSpans ++ b.commentSpans) ++ b.values.flatMap (Value.spans s) ++
    [b.exit.span]

end Block

namespace Func

def paramSpans (s : Settings) : List Binding → List Span
  | [] => []
  | [b] => [.fragment (paramRun s b)]
  | b :: rest => [.fragment (paramRun s b), .direct ", "] ++ paramSpans s rest

/-- Parameters and result are known only from the definition. -/
def signatureSpans (s : Settings) (f : Func) : List Span :=
  match f.source with
  | some d =>
      paramSpans s d.params ++
        [.direct ") ", .fragment (typeRun s d.result), .direct " \x7b"]
  | none => [.direct ") \x7b"]

def spans (s : Settings) (f : Func) : List Span :=
  [.formatted ["\nfun ", f.name, "("]] ++ f.signatureSpans s ++
    f.blocks.flatMap (Block.spans s) ++ [.direct "\n\x7d"]

end Func

namespace Module

def spans (s : Settings) (m : Module) : List Span := m.functions.flatMap (Func.spans s)

/-- The whole listing as one text. -/
def text (s : Settings) (m : Module) : String := String.join ((m.spans s).map Span.text)

end Module

section Texts

theorem Value.text_leadSpan (v : Value) : v.leadSpan.text = "\n" ++ v.leadText := by
  simp [leadSpan, leadText, valueName, ← String.append_assoc]

theorem Value.text_argSpan (a : ValueId) : (argSpan a).text = argText a := by
  simp [argSpan, argText, valueName, ← String.append_assoc]

theorem Value.payloadTexts_eq (v : Value) :
    v.payloadTexts =
      match v.op, v.payload with
      | .arg, .index i => [" " ++ Radix.decimal i.toNat]
      | .intConst, .int n => [" " ++ integerText n true]
      | .floatConst, .float x => [" ", x.general]
      | _, _ => [] := by
  unfold payloadTexts payloadSpans
  split <;> simp [integerText, ← String.append_assoc]

theorem Value.operationTexts_eq (typeWidth : Nat) (v : Value) :
    v.operationTexts typeWidth =
      [Piece.spaces (4 - typeWidth) ++ " = " ++ Radix.padRight 6 v.op.name] ++
        v.args.map argText ++ v.payloadTexts := by
  have hargs : (v.args.map argSpan).map Span.text = v.args.map argText := by
    rw [List.map_map]
    exact List.map_congr_left fun a _ => text_argSpan a
  have hpad : Radix.padRight (4 - typeWidth) "" = Piece.spaces (4 - typeWidth) :=
    String.empty_append
  rw [operationTexts, operationSpans, List.map_append, List.map_append, hargs, payloadTexts]
  simp [hpad, String.append_assoc]

theorem Value.commentTexts_eq (v : Value) :
    v.commentTexts =
      ("# [" ++ Radix.decimal v.uses.toNat ++ "]") ::
        match v.comment with
        | some c => if c = "" then [] else [" ", c]
        | none => [] := by
  unfold commentTexts commentSpans
  cases v.comment with
  | none => simp [String.append_assoc]
  | some c => by_cases hc : c = "" <;> simp [String.append_assoc, hc]

theorem Value.locationTexts_eq (used : Nat) (v : Value) :
    v.locationTexts used =
      match v.loc with
      | some loc => if loc.isKnown then [gap used locationColumn, " " ++ loc.text] else []
      | none => [] := by
  unfold locationTexts locationSpans
  cases v.loc with
  | none => rfl
  | some loc => by_cases hknown : loc.isKnown <;> simp [Location.text, hknown]

theorem Value.restTexts_eq (typeWidth : Nat) (v : Value) :
    v.restTexts typeWidth =
      let operation := v.operationTexts typeWidth
      let head := v.leadText.utf8ByteSize + typeWidth + (String.join operation).utf8ByteSize
      let comment := gap head commentColumn :: v.commentTexts
      operation ++ comment ++ v.locationTexts (head + (String.join comment).utf8ByteSize) := by
  simp only [restTexts, restSpans, List.map_append, List.map_cons, List.append_assoc]
  rfl

theorem blank_append (t : String) : " b" ++ t = " " ++ ("b" ++ t) := by
  rw [← String.append_assoc]
  rfl

theorem Exit.text_choiceSpan (lead : String) (c : ValueId) (yes no : BlockId) :
    (choiceSpan (lead ++ "v") c yes no).text =
      lead ++ valueName 0 c ++ " -> " ++ blockName yes ++ " " ++ blockName no := by
  have harrow (t : String) : " -> b" ++ t = " -> " ++ ("b" ++ t) := by
    rw [← String.append_assoc]
    rfl
  simp [choiceSpan, blockName, valueName, Radix.padRight, harrow, blank_append,
    String.append_assoc]

theorem Exit.text_span (e : Exit) : e.span.text = "\n  " ++ e.text := by
  cases e with
  | goto next =>
    cases next <;> simp [span, text, blockName, ← String.append_assoc]
  | first c yes no =>
    refine (text_choiceSpan "\n  first " c yes no).trans ?_
    simp only [text, ← String.append_assoc]
    rfl
  | branch c yes no =>
    refine (text_choiceSpan "\n  if " c yes no).trans ?_
    simp only [text, ← String.append_assoc]
    rfl
  | ret value =>
    cases value <;> simp [span, text, valueName, Radix.padRight, ← String.append_assoc]

theorem Block.text_labelSpan (b : Block) : b.labelSpan.text = "\n" ++ b.labelText := by
  simp [labelSpan, labelText, blockName, ← String.append_assoc]

theorem Block.predsTexts_eq (b : Block) :
    b.predsTexts =
      match b.preds with
      | [] => []
      | [p] => [" <- " ++ blockName p]
      | p :: q :: _ => [" <- " ++ blockName p ++ " " ++ blockName q] := by
  have hnext (lead : String) (p q : BlockId) :
      String.join [lead ++ "b", Radix.decimal p.toNat, " b", Radix.decimal q.toNat] =
        lead ++ blockName p ++ " " ++ blockName q := by
    simp [blockName, blank_append, String.append_assoc]
  unfold predsTexts predsSpans
  split
  · rfl
  · simp [blockName, ← String.append_assoc]
  · exact congrArg (fun t => [t]) (hnext " <- " _ _)

theorem Block.commentTexts_eq (b : Block) :
    b.commentTexts =
      let used := b.labelText.utf8ByteSize + (String.join b.predsTexts).utf8ByteSize
      match b.comment with
      | some c => [gap used commentColumn, "# " ++ c]
      | none => [] := by
  unfold commentTexts commentSpans
  cases b.comment <;> simp

theorem Func.text_headSpan (f : Func) :
    (Span.formatted ["\nfun ", f.name, "("]).text = "\n" ++ ("fun " ++ f.name ++ "(") := by
  simp [← String.append_assoc]

end Texts

end CodeDump.Ir
