import CodeDump.Number.Numeral
import CodeDump.Settings
import CodeDump.Text.Piece
import CodeDump.Text.Quoted
import CodeDump.Tree.Equal

/-!
# Trees as pieces

Source-like text of nodes and types, cut at a depth. The members of units and blocks and the
parts of loops are printed one level shallower than their parent; at depth one a unit, block,
array literal, struct, named type, loop or initializer collapses, which its `elided` piece
records. All other forms pass their depth on. An absent part shows as `(NULL)`, and depth
zero shows nothing.
-/

namespace CodeDump

namespace Settings

/-- A line start at an indentation level. -/
def lineAt (s : Settings) (level : Nat) : Piece := .line (level * s.indentWidth.toNat)

end Settings

/-- Shown for an absent part. -/
def absentText : String := "(NULL)"

namespace Role

def keyword : Role → Run
  | param | field => []
  | letBound => [.text "let "]
  | varBound => [.text "var "]

end Role

/-- Integers of an unsigned type are hexadecimal. -/
def integerText (value : UInt64) (isUnsigned : Bool) : String :=
  if isUnsigned then "0x" ++ Radix.hexadecimal value.toNat else Radix.decimal value.toNat

mutual

def Ty.pieces (s : Settings) (level depth : Nat) (t : Ty) : Run :=
  if depth = 0 then []
  else match t with
  | .prim p => [.text p.keyword]
  | .struct name fields =>
      (match name with
        | none => []
        | some n => [.text n]) ++
      if depth ≤ 1 then [.elided (if name.isNone then "struct" else "")]
      else
        (if name.isSome then [.text " "] else []) ++ [.text "\x7b"] ++
        Binding.fieldLines s (level + 1) depth fields ++
        (if fields.isEmpty then [] else [s.lineAt level]) ++ [.text "\x7d"]
  | .func params result =>
      [.text "fun", .text "("] ++ Binding.grouped s level depth params ++ [.text ") "] ++
        Ty.pieces s level depth result
  | .array elem length =>
      [.text "["] ++ Ty.pieces s level depth elem ++
        (if length = 0 then [] else [.text (" " ++ Radix.decimal length.toNat)]) ++ [.text "]"]
  | .slice elem isMut =>
      [.text (if isMut then "mut&[" else "&[")] ++ Ty.pieces s level depth elem ++ [.text "]"]
  | .pointer elem => [.text "*"] ++ Ty.pieces s level depth elem
  | .reference elem isMut =>
      [.text (if isMut then "mut&" else "&")] ++ Ty.pieces s level depth elem
  | .optional elem => [.text "?"] ++ Ty.pieces s level depth elem
  | .named name elem =>
      [.text name] ++
        if depth ≤ 1 then [.elided ""] else [.text " "] ++ Ty.pieces s level depth elem
  | .unknown => [.text "unknown"]
  | .unresolved name => [.text name]
termination_by structural t

def TypeRef.pieces (s : Settings) (level depth : Nat) (r : TypeRef) : Run :=
  match r with
  | ⟨_, t⟩ => Ty.pieces s level depth t
termination_by structural r

def TypeRef.piecesOr (s : Settings) (level depth : Nat) (r : Option TypeRef) : Run :=
  match r with
  | none => if depth = 0 then [] else [.text absentText]
  | some r => TypeRef.pieces s level depth r
termination_by structural r

/-- A name, its type and its initializer, as a parameter is shown. -/
def Binding.pieces (s : Settings) (level depth : Nat) (b : Binding) : Run :=
  match b with
  | ⟨name, ty, init⟩ =>
      [.text name, .text " "] ++ TypeRef.piecesOr s level depth ty ++
      match init with
      | none => []
      | some value =>
          if depth ≤ 1 then [.elided ""] else [.text " = "] ++ Node.pieces s level depth value
termination_by structural b

/-- A struct field; its initializer is always shown. -/
def Binding.fieldPieces (s : Settings) (level depth : Nat) (b : Binding) : Run :=
  match b with
  | ⟨name, ty, init⟩ =>
      [.text name, .text " "] ++ TypeRef.piecesOr s level depth ty ++
      match init with
      | none => []
      | some value => [.text " = "] ++ Node.pieces s level depth value
termination_by structural b

def Binding.fieldLines (s : Settings) (level depth : Nat) (bs : List Binding) : Run :=
  match bs with
  | [] => []
  | b :: rest =>
      [s.lineAt level] ++ Binding.fieldPieces s level depth b ++
        Binding.fieldLines s level depth rest
termination_by structural bs

/-- The type of a binding after its name, unless the next binding shows it for both. -/
def Binding.groupedType (s : Settings) (level depth : Nat) (next : Option Binding) (b : Binding) :
    Run :=
  match b with
  | ⟨name, ty, init⟩ =>
      if next.any (Binding.sharesType ⟨name, ty, init⟩) then []
      else [.text " "] ++ TypeRef.piecesOr s level depth ty
termination_by structural b

/-- Parameters of a function type: neighbours that share one type object show it once, after
the last of them. -/
def Binding.grouped (s : Settings) (level depth : Nat) (bs : List Binding) : Run :=
  match bs with
  | [] => []
  | b :: rest =>
      [.text b.name] ++ Binding.groupedType s level depth rest.head? b ++
        (if rest.isEmpty then [] else [.text ", "]) ++ Binding.grouped s level depth rest
termination_by structural bs

def Binding.listed (s : Settings) (level depth : Nat) (bs : List Binding) : Run :=
  match bs with
  | [] => []
  | b :: rest =>
      Binding.pieces s level depth b ++
        (if rest.isEmpty then [] else [.text ", "]) ++ Binding.listed s level depth rest
termination_by structural bs

def FunDef.pieces (s : Settings) (level depth : Nat) (f : FunDef) : Run :=
  match f with
  | ⟨name, params, result, body⟩ =>
      [.text "fun ", .text name, .text "("] ++ Binding.listed s level depth params ++
      [.text ") "] ++ Ty.pieces s level depth result ++
      match body with
      | none => []
      | some n => [.text " "] ++ Node.pieces s level depth n
termination_by structural f

def Node.pieces (s : Settings) (level depth : Nat) (n : Node) : Run :=
  if depth = 0 then []
  else match n with
  | .bad => [.text "/*NODE_BAD*/"]
  | .comment _ => [.text "/*comment*/"]
  | .unit items =>
      if depth ≤ 1 ∧ ¬items.isEmpty then [.elided "..."]
      else Node.lines s level (depth - 1) items
  | .typeDef t => [.text "type "] ++ Ty.pieces s level depth t
  | .binding role b => role.keyword ++ Binding.pieces s level depth b
  | .func f => FunDef.pieces s level depth f
  | .block items =>
      [.text "\x7b"] ++
      (if items.isEmpty then []
        else if depth ≤ 1 then [.elided "..."]
        else Node.lines s (level + 1) (depth - 1) items ++ [s.lineAt level]) ++
      [.text "\x7d"]
  | .call callee args =>
      Node.pieces s level depth callee ++ [.text "("] ++ Node.listed s level depth args ++
        [.text ")"]
  | .construct t arg =>
      Ty.pieces s level depth t ++ [.text "("] ++ Node.piecesOr s level depth arg ++ [.text ")"]
  | .member base name => Node.pieces s level depth base ++ [.text ".", .text name]
  | .branch cond yes no =>
      [.text "if "] ++ Node.pieces s level depth cond ++ [.text " "] ++
      Node.pieces s level depth yes ++
      match no with
      | none => []
      | some n => [.text " else "] ++ Node.pieces s level depth n
  | .loop start cond step body =>
      if depth ≤ 1 then [.text "for", .elided ""]
      else
        [.text "for "] ++
        (if start.isSome || step.isSome then
          (if start.isSome then Node.piecesOr s level (depth - 1) start else []) ++ [.text "; "] ++
          Node.piecesOr s level (depth - 1) cond ++ [.text "; "] ++
          (if step.isSome then
            (match s.loopStep with
              | .start => Node.piecesOr s level (depth - 1) start
              | .stop => Node.piecesOr s level (depth - 1) step)
          else [])
        else Node.piecesOr s level (depth - 1) cond) ++
        [.text " "] ++ Node.pieces s level (depth - 1) body
  | .ident name => [.text name]
  | .ret value =>
      [.text "return"] ++
      match value with
      | none => []
      | some n => [.text " "] ++ Node.pieces s level depth n
  | .deref arg => [.text "*"] ++ Node.pieces s level depth arg
  | .prefixed op arg => [.text op.symbol] ++ Node.pieces s level depth arg
  | .postfixed op arg => Node.pieces s level depth arg ++ [.text op.symbol]
  | .assign op left right | .binary op left right =>
      Node.pieces s level depth left ++ [.text " ", .text op.symbol, .text " "] ++
        Node.pieces s level depth right
  | .boolLit b => [.text (if b then "true" else "false")]
  | .intLit value ty => [.text (integerText value (ty.any Ty.isUnsigned))]
  | .floatLit x => [.text x.literal]
  | .strLit bytes => [.text (Quoted.text bytes)]
  | .arrayLit items =>
      [.text "["] ++
      (if depth ≤ 1 then [.elided "..."] else Node.listed s level depth items) ++ [.text "]"]
  | .typeNode t => Ty.pieces s level depth t
termination_by structural n

def Node.piecesOr (s : Settings) (level depth : Nat) (n : Option Node) : Run :=
  match n with
  | none => if depth = 0 then [] else [.text absentText]
  | some n => Node.pieces s level depth n
termination_by structural n

/-- Each node on a line of its own. -/
def Node.lines (s : Settings) (level depth : Nat) (ns : List Node) : Run :=
  match ns with
  | [] => []
  | n :: rest =>
      [s.lineAt level] ++ Node.pieces s level depth n ++ Node.lines s level depth rest
termination_by structural ns

def Node.listed (s : Settings) (level depth : Nat) (ns : List Node) : Run :=
  match ns with
  | [] => []
  | n :: rest =>
      Node.pieces s level depth n ++ (if rest.isEmpty then [] else [.text ", "]) ++
        Node.listed s level depth rest
termination_by structural ns

end

end CodeDump
