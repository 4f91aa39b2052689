import CodeDump.Json.Record
import CodeDump.Tree.Node

/-!
# Trees in JSON

`encode` writes every field in declaration order. `decode` reads every form of it, given how
many more brackets may be opened: each object or array that holds part of a tree takes one.
Stored trees have no shared types, so decoded references are all to objects of their own.
-/

namespace CodeDump

namespace Prim

def tag : Prim → String
  | void => "Void"
  | bool => "Bool"
  | i8 => "I8"
  | i16 => "I16"
  | i32 => "I32"
  | i64 => "I64"
  | int => "Int"
  | u8 => "U8"
  | u16 => "U16"
  | u32 => "U32"
  | u64 => "U64"
  | uint => "UInt"
  | f32 => "F32"
  | f64 => "F64"

def all : List Prim := [void, bool, i8, i16, i32, i64, int, u8, u16, u32, u64, uint, f32, f64]

def ofTag? (s : String) : Option Prim := all.find? fun p => p.tag == s

theorem ofTag?_tag (p : Prim) : ofTag? p.tag = some p := by
  cases p <;> rfl

end Prim

namespace Role

def tag : Role → String
  | param => "Param"
  | field => "Field"
  | letBound => "Let"
  | varBound => "Var"

end Role

mutual

def Ty.encode (t : Ty) : Json :=
  match t with
  | .prim p => .text p.tag
  | .struct name fields =>
      .tagged "Struct" (.record [("name", .orNull (name.map .text)),
        ("fields", .array (Binding.encodeList fields))])
  | .func params result =>
      .tagged "Fun" (.record [("params", .array (Binding.encodeList params)),
        ("result", Ty.encode result)])
  | .array elem length =>
      .tagged "Array" (.record [("elem", Ty.encode elem), ("len", .nat length.toNat)])
  | .slice elem isMut =>
      .tagged "Slice" (.record [("elem", Ty.encode elem), ("mutable", .bool isMut)])
  | .pointer elem => .tagged "Ptr" (Ty.encode elem)
  | .reference elem isMut =>
      .tagged "Ref" (.record [("elem", Ty.encode elem), ("mutable", .bool isMut)])
  | .optional elem => .tagged "Optional" (Ty.encode elem)
  | .named name elem => .tagged "Alias" (.record [("name", .text name), ("elem", Ty.encode elem)])
  | .unknown => .text "Unknown"
  | .unresolved name => .tagged "Unresolved" (.text name)
termination_by structural t

def Ty.encodeOption (t : Option Ty) : Json :=
  match t with
  | none => .null
  | some t => Ty.encode t
termination_by structural t

def TypeRef.encode (r : TypeRef) : Json :=
  match r with
  | ⟨_, t⟩ => Ty.encode t
termination_by structural r

def TypeRef.encodeOption (r : Option TypeRef) : Json :=
  match r with
  | none => .null
  | some r => TypeRef.encode r
termination_by structural r

def Binding.encode (b : Binding) : Json :=
  match b with
  | ⟨name, ty, init⟩ =>
      .record [("name", .text name), ("ty", TypeRef.encodeOption ty),
        ("init", Node.encodeOption init)]
termination_by structural b

def Binding.encodeList (bs : List Binding) : List Json :=
  match bs with
  | [] => []
  | b :: rest => Binding.encode b :: Binding.encodeList rest
termination_by structural bs

def FunDef.encode (f : FunDef) : Json :=
  match f with
  | ⟨name, params, result, body⟩ =>
      .record [("name", .text name), ("params", .array (Binding.encodeList params)),
        ("result", Ty.encode result), ("body", Node.encodeOption body)]
termination_by structural f

def Node.encode (n : Node) : Json :=
  match n with
  | .bad => .text "Bad"
  | .comment s => .tagged "Comment" (.text s)
  | .unit items => .tagged "Unit" (.array (Node.encodeList items))
  | .typeDef t => .tagged "TypeDef" (Ty.encode t)
  | .binding role b => .tagged role.tag (Binding.encode b)
  | .func f => .tagged "Fun" (FunDef.encode f)
  | .block items => .tagged "Block" (.array (Node.encodeList items))
  | .call callee args =>
      .tagged "Call" (.record [("recv", Node.encode callee),
        ("args", .array (Node.encodeList args))])
  | .construct t arg =>
      .tagged "TypeCons" (.record [("ty", Ty.encode t), ("expr", Node.encodeOption arg)])
  | .member base name =>
      .tagged "Member" (.record [("recv", Node.encode base), ("name", .text name)])
  | .branch cond yes no =>
      .tagged "If" (.record [("cond", Node.encode cond), ("then", Node.encode yes),
        ("els", Node.encodeOption no)])
  | .loop start cond step body =>
      .tagged "For" (.record [("start", Node.encodeOption start),
        ("cond", Node.encodeOption cond), ("end", Node.encodeOption step),
        ("body", Node.encode body)])
  | .ident name => .tagged "Id" (.text name)
  | .ret value => .tagged "Return" (Node.encodeOption value)
  | .deref arg => .tagged "Deref" (Node.encode arg)
  | .prefixed op arg =>
      .tagged "PrefixOp" (.record [("op", .text op.tag), ("expr", Node.encode arg)])
  | .postfixed op arg =>
      .tagged "PostfixOp" (.record [("op", .text op.tag), ("expr", Node.encode arg)])
  | .assign op left right =>
      .tagged "Assign" (.record [("op", .text op.tag), ("left", Node.encode left),
        ("right", Node.encode right)])
  | .binary op left right =>
      .tagged "BinOp" (.record [("op", .text op.tag), ("left", Node.encode left),
        ("right", Node.encode right)])
  | .boolLit b => .tagged "BoolLit" (.bool b)
  | .intLit value ty =>
      .tagged "IntLit" (.record [("value", .nat value.toNat), ("ty", Ty.encodeOption ty)])
  | .floatLit x => .tagged "FloatLit" (.double x)
  | .strLit bytes => .tagged "StrLit" (.array (bytes.map fun b => .nat b.toNat))
  | .arrayLit items => .tagged "ArrayLit" (.array (Node.encodeList items))
  | .typeNode t => .tagged "Type" (Ty.encode t)
termination_by structural n

def Node.encodeOption (n : Option Node) : Json :=
  match n with
  | none => .null
  | some n => Node.encode n
termination_by structural n

def Node.encodeList (ns : List Node) : List Json :=
  match ns with
  | [] => []
  | n :: rest => Node.encode n :: Node.encodeList rest
termination_by structural ns

end

open Json (Field)

def Ty.structFields : List Field := [.nullable "name", .required "fields"]

def Ty.funcFields : List Field := [.required "params", .required "result"]

def Ty.arrayFields : List Field := [.required "elem", .required "len"]

def Ty.mutableFields : List Field := [.required "elem", .required "mutable"]

def Ty.namedFields : List Field := [.required "name", .required "elem"]

def Binding.fields : List Field := [.required "name", .nullable "ty", .defaulted "init" .null]

def FunDef.fields : List Field :=
  [.required "name", .required "params", .required "result", .defaulted "body" .null]

def Node.callFields : List Field := [.required "recv", .required "args"]

def Node.constructFields : List Field := [.required "ty", .nullable "expr"]

def Node.memberFields : List Field := [.required "recv", .required "name"]

def Node.branchFields : List Field := [.required "cond", .required "then", .nullable "els"]

def Node.loopFields : List Field :=
  [.nullable "start", .nullable "cond", .nullable "end", .required "body"]

def Node.unaryFields : List Field := [.required "op", .required "expr"]

def Node.binaryFields : List Field := [.required "op", .required "left", .required "right"]

def Node.intFields : List Field := [.required "value", .nullable "ty"]

def Op.decode (room : Nat) (j : Json) : Option Op := j.bareIn? room Op.ofTag?

/-- A type without data. -/
def Ty.bare? (tag : String) : Option Ty :=
  if tag = "Unknown" then some .unknown else (Prim.ofTag? tag).map .prim

mutual

def Ty.decode (room : Nat) (j : Json) : Option Ty :=
  match j.variant? with
  | none => none
  | some (tag, none) => Ty.bare? tag
  | some (tag, some data) =>
    match room with
    | 0 => none
    | room + 1 =>
      match tag with
      | "Ptr" => (Ty.decode room data).map .pointer
      | "Optional" => (Ty.decode room data).map .optional
      | "Unresolved" => data.text?.map .unresolved
      | "Array" =>
          match room, data.fields? Ty.arrayFields with
          | room + 1, some [elem, length] => do
              return .array (← Ty.decode room elem) (← length.long?)
          | _, _ => none
      | "Slice" =>
          match room, data.fields? Ty.mutableFields with
          | room + 1, some [elem, isMut] => do
              return .slice (← Ty.decode room elem) (← isMut.bool?)
          | _, _ => none
      | "Ref" =>
          match room, data.fields? Ty.mutableFields with
          | room + 1, some [elem, isMut] => do
              return .reference (← Ty.decode room elem) (← isMut.bool?)
          | _, _ => none
      | "Alias" =>
          match room, data.fields? Ty.namedFields with
          | room + 1, some [name, elem] => do
              return .named (← name.text?) (← Ty.decode room elem)
          | _, _ => none
      | "Struct" =>
          match room, data.fields? Ty.structFields with
          | room + 2, some [name, fields] => do
              return .struct (← name.nullable? Json.text?) (← fields.list? (Binding.decode room))
          | _, _ => none
      | "Fun" =>
          match room, data.fields? Ty.funcFields with
          | room + 2, some [params, result] => do
              return .func (← params.list? (Binding.decode room)) (← Ty.decode (room + 1) result)
          | _, _ => none
      | _ => if data.isNull then Ty.bare? tag else none
termination_by structural room

def Binding.decode (room : Nat) (j : Json) : Option Binding :=
  match room, j.fields? Binding.fields with
  | room + 1, some [name, ty, init] => do
      return ⟨← name.text?, ← ty.nullable? fun t => (Ty.decode room t).map TypeRef.fresh,
        ← init.nullable? (Node.decode room)⟩
  | _, _ => none
termination_by structural room

def FunDef.decode (room : Nat) (j : Json) : Option FunDef :=
  match room, j.fields? FunDef.fields with
  | room + 2, some [name, params, result, body] => do
      return ⟨← name.text?, ← params.list? (Binding.decode room), ← Ty.decode (room + 1) result,
        ← body.nullable? (Node.decode (room + 1))⟩
  | _, _ => none
termination_by structural room

def Node.decode (room : Nat) (j : Json) : Option Node :=
  match j.variant? with
  | none => none
  | some (tag, none) => if tag = "Bad" then some .bad else none
  | some (tag, some data) =>
    match room with
    | 0 => none
    | room + 1 =>
      match tag with
      | "Bad" => if data.isNull then some .bad else none
      | "Comment" => data.text?.map .comment
      | "TypeDef" => (Ty.decode room data).map .typeDef
      | "Param" => (Binding.decode room data).map (.binding .param)
      | "Field" => (Binding.decode room data).map (.binding .field)
      | "Let" => (Binding.decode room data).map (.binding .letBound)
      | "Var" => (Binding.decode room data).map (.binding .varBound)
      | "Fun" => (FunDef.decode room data).map .func
      | "Id" => data.text?.map .ident
      | "Return" => (data.nullable? (Node.decode room)).map .ret
      | "Deref" => (Node.decode room data).map .deref
      | "BoolLit" => data.bool?.map .boolLit
      | "FloatLit" => data.double?.map .floatLit
      | "Type" => (Ty.decode room data).map .typeNode
      | "Unit" =>
          match room with
          | room + 1 => (data.list? (Node.decode room)).map .unit
          | 0 => none
      | "Block" =>
          match room with
          | room + 1 => (data.list? (Node.decode room)).map .block
          | 0 => none
      | "ArrayLit" =>
          match room with
          | room + 1 => (data.list? (Node.decode room)).map .arrayLit
          | 0 => none
      | "StrLit" =>
          match room with
          | _ + 1 => (data.list? Json.byte?).map .strLit
          | 0 => none
      | "Call" =>
          match room, data.fields? Node.callFields with
          | room + 2, some [callee, args] => do
              return .call (← Node.decode (room + 1) callee) (← args.list? (Node.decode room))
          | _, _ => none
      | "TypeCons" =>
          match room, data.fields? Node.constructFields with
          | room + 1, some [ty, arg] => do
              return .construct (← Ty.decode room ty) (← arg.nullable? (Node.decode room))
          | _, _ => none
      | "Member" =>
          match room, data.fields? Node.memberFields with
          | room + 1, some [base, name] => do
              return .member (← Node.decode room base) (← name.text?)
          | _, _ => none
      | "If" =>
          match room, data.fields? Node.branchFields with
          | room + 1, some [cond, yes, no] => do
              return .branch (← Node.decode room cond) (← Node.decode room yes)
                (← no.nullable? (Node.decode room))
          | _, _ => none
      | "For" =>
          match room, data.fields? Node.loopFields with
          | room + 1, some [start, cond, step, body] => do
              return .loop (← start.nullable? (Node.decode room))
                (← cond.nullable? (Node.decode room)) (← step.nullable? (Node.decode room))
                (← Node.decode room body)
          | _, _ => none
      | "PrefixOp" =>
          match room, data.fields? Node.unaryFields with
          | room + 1, some [op, arg] => do
              return .prefixed (← Op.decode room op) (← Node.decode room arg)
          | _, _ => none
      | "PostfixOp" =>
          match room, data.fields? Node.unaryFields with
          | room + 1, some [op, arg] => do
              return .postfixed (← Op.decode room op) (← Node.decode room arg)
          | _, _ => none
      | "Assign" =>
          match room, data.fields? Node.binaryFields with
          | room + 1, some [op, left, right] => do
              return .assign (← Op.decode room op) (← Node.decode room left)
                (← Node.decode room right)
          | _, _ => none
      | "BinOp" =>
          match room, data.fields? Node.binaryFields with
          | room + 1, some [op, left, right] => do
              return .binary (← Op.decode room op) (← Node.decode room left)
                (← Node.decode room right)
          | _, _ => none
      | "IntLit" =>
          match room, data.fields? Node.intFields with
          | room + 1, some [value, ty] => do
              return .intLit (← value.long?) (← ty.nullable? (Ty.decode room))
          | _, _ => none
      | _ => none
termination_by structural room

end

end CodeDump
