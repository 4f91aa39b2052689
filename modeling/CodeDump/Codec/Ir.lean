import CodeDump.Codec.Tree
import CodeDump.Ir.Basic
import CodeDump.Settings

/-!
# Modules, locations and settings in JSON

The loaded bytes of an input are not stored, so decoded inputs are closed.
-/

namespace CodeDump

open Json (Field)

namespace LoopStep

def tag : LoopStep → String
  | start => "start"
  | stop => "end"

def ofTag? (s : String) : Option LoopStep :=
  if s = "start" then some start else if s = "end" then some stop else none

def decode (room : Nat) (j : Json) : Option LoopStep := j.bareIn? room ofTag?

end LoopStep

namespace Settings

def encode (s : Settings) : Json :=
  .record [("initial_guess", .nat s.initialGuess.toNat), ("indent_width", .nat s.indentWidth.toNat),
    ("for_step", .text s.loopStep.tag)]

/-- Every field has the default settings' value. -/
def fields : List Field :=
  [.defaulted "initial_guess" (.nat default.initialGuess.toNat),
    .defaulted "indent_width" (.nat default.indentWidth.toNat),
    .defaulted "for_step" (.text default.loopStep.tag)]

def decode (room : Nat) (j : Json) : Option Settings :=
  match j.fieldsIn? room fields with
  | some (room, [guess, width, step]) => do
      return ⟨← guess.long?, ← width.long?, ← LoopStep.decode room step⟩
  | _ => none

end Settings

namespace Input

def encode (i : Input) : Json := .record [("name", .text i.name)]

def decode (room : Nat) (j : Json) : Option Input :=
  match j.fieldsIn? room [.required "name"] with
  | some (_, [name]) => name.text?.map create
  | _ => none

end Input

namespace Location

def encode (loc : Location) : Json :=
  .record [("input", .orNull (loc.input.map Input.encode)), ("line", .nat loc.line.toNat),
    ("column", .nat loc.column.toNat)]

def fields : List Field := [.defaulted "input" .null, .required "line", .required "column"]

def decode (room : Nat) (j : Json) : Option Location :=
  match j.fieldsIn? room fields with
  | some (room, [input, line, column]) => do
      return ⟨← input.nullable? (Input.decode room), ← line.word?, ← column.word?⟩
  | _ => none

end Location

namespace Ir

namespace Payload

def encode : Payload → Json
  | .empty => .text "None"
  | .index i => .tagged "Index" (.nat i.toNat)
  | .int n => .tagged "Int" (.nat n.toNat)
  | .float x => .tagged "Float" (.double x)

def decode (room : Nat) (j : Json) : Option Payload :=
  match j.variant?, room with
  | some ("None", none), _ => some .empty
  | some ("None", some .null), _ + 1 => some .empty
  | some ("Index", some data), _ + 1 => data.word?.map .index
  | some ("Int", some data), _ + 1 => data.long?.map .int
  | some ("Float", some data), _ + 1 => data.double?.map .float
  | _, _ => none

end Payload

namespace Value

def encode (v : Value) : Json :=
  .record [("id", .nat v.id.toNat), ("op", .text v.op.tag), ("ty", v.ty.encode),
    ("args", .array (v.args.map fun a => .nat a.toNat)), ("aux", v.payload.encode),
    ("nuse", .nat v.uses.toNat), ("comment", .orNull (v.comment.map .text)),
    ("loc", .orNull (v.loc.map Location.encode))]

def fields : List Field :=
  [.required "id", .required "op", .required "ty", .defaulted "args" (.array []),
    .defaulted "aux" (.text "None"), .defaulted "nuse" (.nat 0), .defaulted "comment" .null,
    .defaulted "loc" .null]

def decode (room : Nat) (j : Json) : Option Value :=
  match j.fieldsIn? room fields with
  | some (room, [id, op, ty, args, payload, uses, comment, loc]) => do
      return ⟨← id.word?, ← Op.decode room op, ← Ty.decode room ty,
        ← args.listIn? room (fun _ => Json.word?), ← Payload.decode room payload, ← uses.word?,
        ← comment.nullable? Json.text?, ← loc.nullable? (Location.decode room)⟩
  | _ => none

end Value

namespace Exit

def branchFields : List Field := [.required "control", .required "then", .required "els"]

def encodeBranch (control : ValueId) (yes no : BlockId) : Json :=
  .record [("control", .nat control.toNat), ("then", .nat yes.toNat), ("els", .nat no.toNat)]

def encode : Exit → Json
  | .goto next => .tagged "Cont" (.orNull (next.map fun b => .nat b.toNat))
  | .first control yes no => .tagged "First" (encodeBranch control yes no)
  | .branch control yes no => .tagged "If" (encodeBranch control yes no)
  | .ret value => .tagged "Ret" (.orNull (value.map fun v => .nat v.toNat))

def decodeBranch (room : Nat) (make : ValueId → BlockId → BlockId → Exit) (j : Json) :
    Option Exit :=
  match j.fieldsIn? room branchFields with
  | some (_, [control, yes, no]) => do return make (← control.word?) (← yes.word?) (← no.word?)
  | _ => none

def decode (room : Nat) (j : Json) : Option Exit :=
  match j.variant?, room with
  | some ("Cont", some data), _ + 1 => (data.nullable? Json.word?).map .goto
  | some ("First", some data), room + 1 => decodeBranch room .first data
  | some ("If", some data), room + 1 => decodeBranch room .branch data
  | some ("Ret", some data), _ + 1 => (data.nullable? Json.word?).map .ret
  | _, _ => none

end Exit

namespace Block

def encode (b : Block) : Json :=
  .record [("id", .nat b.id.toNat), ("preds", .array (b.preds.map fun p => .nat p.toNat)),
    ("exit", b.exit.encode), ("comment", .orNull (b.comment.map .text)),
    ("values", .array (b.values.map Value.encode))]

def fields : List Field :=
  [.required "id", .defaulted "preds" (.array []), .required "exit", .defaulted "comment" .null,
    .defaulted "values" (.array [])]

def decode (room : Nat) (j : Json) : Option Block :=
  match j.fieldsIn? room fields with
  | some (room, [id, preds, exit, comment, values]) => do
      return ⟨← id.word?, ← preds.listIn? room (fun _ => Json.word?), ← Exit.decode room exit,
        ← comment.nullable? Json.text?, ← values.listIn? room Value.decode⟩
  | _ => none

end Block

namespace Func

def encode (f : Func) : Json :=
  .record [("name", .text f.name), ("ast", .orNull (f.source.map FunDef.encode)),
    ("blocks", .array (f.blocks.map Block.encode))]

def fields : List Field :=
  [.required "name", .defaulted "ast" .null, .defaulted "blocks" (.array [])]

def decode (room : Nat) (j : Json) : Option Func :=
  match j.fieldsIn? room fields with
  | some (room, [name, source, blocks]) => do
      return ⟨← name.text?, ← source.nullable? (FunDef.decode room),
        ← blocks.listIn? room Block.decode⟩
  | _ => none

end Func

namespace Module

def encode (m : Module) : Json := .record [("functions", .array (m.functions.map Func.encode))]

def decode (room : Nat) (j : Json) : Option Module :=
  match j.fieldsIn? room [.required "functions"] with
  | some (room, [functions]) => (functions.listIn? room Func.decode).map Module.mk
  | _ => none

end Module

end Ir

end CodeDump
