import CodeDump.Number.Double
import CodeDump.Tree.Op

/-!
# Syntax trees

Types, bindings, function definitions and nodes refer to each other: a struct field may have
an initializer, a literal may have a type. The type of a binding is a reference to a type
object. Whether two bindings share one object can be seen in the text of a function type,
so a reference carries the number of its object; one without a number is to an object of its
own, which nothing else refers to.
-/

namespace CodeDump

/-- Types that have a keyword. -/
inductive Prim
  | void | bool
  | i8 | i16 | i32 | i64 | int
  | u8 | u16 | u32 | u64 | uint
  | f32 | f64
  deriving DecidableEq, Repr

/-- What a binding stands for. -/
inductive Role
  | param | field | letBound | varBound
  deriving DecidableEq, Repr

mutual

inductive Ty
  | prim (p : Prim)
  /-- A struct without a name is anonymous. -/
  | struct (name : Option String) (fields : List Binding)
  | func (params : List Binding) (result : Ty)
  /-- Length zero means unsized. -/
  | array (elem : Ty) (length : UInt64)
  | slice (elem : Ty) (isMut : Bool)
  | pointer (elem : Ty)
  | reference (elem : Ty) (isMut : Bool)
  | optional (elem : Ty)
  | named (name : String) (elem : Ty)
  /-- A type that is not known yet. -/
  | unknown
  /-- A name that is not resolved yet. -/
  | unresolved (name : String)

structure TypeRef where
  object : Option Nat
  ty : Ty

structure Binding where
  name : String
  ty : Option TypeRef
  init : Option Node

structure FunDef where
  name : String
  params : List Binding
  result : Ty
  body : Option Node

inductive Node
  /-- Stands where the source could not be parsed. -/
  | bad
  | comment (text : String)
  | unit (items : List Node)
  | typeDef (ty : Ty)
  | binding (role : Role) (b : Binding)
  | func (f : FunDef)
  | block (items : List Node)
  | call (callee : Node) (args : List Node)
  /-- A type used as a constructor, such as `u8(x)`. -/
  | construct (ty : Ty) (arg : Option Node)
  | member (base : Node) (name : String)
  | branch (cond yes : Node) (no : Option Node)
  | loop (start cond step : Option Node) (body : Node)
  | ident (name : String)
  | ret (value : Option Node)
  | deref (arg : Node)
  | prefixed (op : Op) (arg : Node)
  | postfixed (op : Op) (arg : Node)
  | assign (op : Op) (left right : Node)
  | binary (op : Op) (left right : Node)
  | boolLit (b : Bool)
  | intLit (value : UInt64) (ty : Option Ty)
  | floatLit (x : Double)
  | strLit (bytes : List UInt8)
  | arrayLit (items : List Node)
  | typeNode (ty : Ty)

end

namespace Prim

def keyword : Prim → String
  | void => "void"
  | bool => "bool"
  | i8 => "i8"
  | i16 => "i16"
  | i32 => "i32"
  | i64 => "i64"
  | int => "int"
  | u8 => "u8"
  | u16 => "u16"
  | u32 => "u32"
  | u64 => "u64"
  | uint => "uint"
  | f32 => "f32"
  | f64 => "f64"

def isUnsigned : Prim → Bool
  | u8 | u16 | u32 | u64 | uint => true
  | _ => false

def isSigned : Prim → Bool
  | i8 | i16 | i32 | i64 | int => true
  | _ => false

def isFloat : Prim → Bool
  | f32 | f64 => true
  | _ => false

end Prim

namespace Ty

/-- The keyword of a primitive type. -/
def keyword? : Ty → Option String
  | prim p => some p.keyword
  | _ => none

def isUnsigned : Ty → Bool
  | prim p => p.isUnsigned
  | _ => false

def isSigned : Ty → Bool
  | prim p => p.isSigned
  | _ => false

def isInteger (t : Ty) : Bool := t.isSigned || t.isUnsigned

def isFloat : Ty → Bool
  | prim p => p.isFloat
  | _ => false

def kind : Ty → String
  | struct _ _ => "struct type"
  | unknown => "unknown type"
  | unresolved _ => "named type"
  | _ => "type"

end Ty

namespace TypeRef

/-- A reference to an object of its own. -/
def fresh (t : Ty) : TypeRef := ⟨none, t⟩

end TypeRef

namespace Binding

def typed (name : String) (r : TypeRef) : Binding := ⟨name, some r, none⟩

def untyped (name : String) : Binding := ⟨name, none, none⟩

def withInit (b : Binding) (init : Node) : Binding := { b with init := some init }

end Binding

namespace Role

def kind : Role → String
  | param => "parameter"
  | field => "field"
  | letBound => "binding"
  | varBound => "variable"

end Role

namespace Node

def kind : Node → String
  | bad => "bad node"
  | comment _ => "comment"
  | unit _ => "unit"
  | typeDef _ => "type definition"
  | binding role _ => role.kind
  | func _ => "function"
  | block _ => "block"
  | member _ _ => "member"
  | ident _ => "identifier"
  | deref _ => "dereference"
  | prefixed _ _ | postfixed _ _ | binary _ _ _ => "operation"
  | assign _ _ _ => "assignment"
  | boolLit _ | intLit _ _ | floatLit _ => "constant"
  | typeNode t => t.kind
  | call _ _ | construct _ _ | branch _ _ _ | loop _ _ _ _ | ret _ | strLit _ | arrayLit _ =>
      "expression"

end Node

end CodeDump
