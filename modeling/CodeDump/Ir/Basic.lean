import CodeDump.Fault
import CodeDump.Source.Location
import CodeDump.Tree.Equal

/-!
# Lowered programs

A module holds functions, a function blocks, a block values. Values refer to their operands
and blocks to their neighbours by number. How a block ends is one of four exits, which carry
their own successors and control value.
-/

namespace CodeDump.Ir

abbrev ValueId := UInt32

abbrev BlockId := UInt32

/-- A scalar stored in a value. -/
inductive Payload
  | empty
  | index (i : UInt32)
  | int (n : UInt64)
  | float (x : Double)
  deriving DecidableEq, Repr

structure Value where
  id : ValueId
  op : Op
  ty : Ty
  args : List ValueId
  payload : Payload
  uses : UInt32
  comment : Option String
  loc : Option Location

inductive Exit
  | goto (next : Option BlockId)
  /-- The entry of a function, branching on `control`. -/
  | first (control : ValueId) (yes no : BlockId)
  | branch (control : ValueId) (yes no : BlockId)
  | ret (value : Option ValueId)
  deriving DecidableEq, Repr

structure Block where
  id : BlockId
  preds : List BlockId
  exit : Exit
  comment : Option String
  values : List Value

structure Func where
  name : String
  /-- The definition the function was lowered from. -/
  source : Option FunDef
  blocks : List Block

structure Module where
  functions : List Func

namespace Value

def make (id : ValueId) (op : Op) (ty : Ty) : Value :=
  ⟨id, op, ty, [], .empty, 0, none, none⟩

/-- The argument of the function at an index. -/
def arg (id : ValueId) (ty : Ty) (i : UInt32) : Value :=
  { make id .arg ty with payload := .index i }

def intConst (id : ValueId) (ty : Ty) (n : UInt64) : Value :=
  { make id .intConst ty with payload := .int n }

def floatConst (id : ValueId) (ty : Ty) (x : Double) : Value :=
  { make id .floatConst ty with payload := .float x }

def beq (v w : Value) : Bool :=
  v.id == w.id && v.op == w.op && v.ty == w.ty && v.args == w.args && v.payload == w.payload &&
    v.uses == w.uses && v.comment == w.comment && v.loc == w.loc

instance : BEq Value := ⟨beq⟩

end Value

namespace Exit

def kind : Exit → String
  | goto _ => "Cont"
  | first _ _ _ => "First"
  | branch _ _ _ => "If"
  | ret _ => "Ret"

def control? : Exit → Option ValueId
  | goto _ => none
  | first c _ _ => some c
  | branch c _ _ => some c
  | ret c => c

def successors : Exit → List BlockId
  | goto next => next.toList
  | first _ yes no => [yes, no]
  | branch _ yes no => [yes, no]
  | ret _ => []

end Exit

namespace Block

def make (id : BlockId) (exit : Exit) : Block := ⟨id, [], exit, none, []⟩

/-- How many predecessors a block takes. -/
def maxPreds : Nat := 2

/-- Refused when the block has exactly as many predecessors as it takes. -/
def addPred (b : Block) (pred : BlockId) : Except Fault Block :=
  if b.preds.length = maxPreds then
    .error (.internal ("block b" ++ Radix.decimal b.id.toNat ++ " already has " ++
      Radix.decimal maxPreds ++ " predecessors"))
  else .ok { b with preds := b.preds ++ [pred] }

theorem addPred_eq_ok_iff (b b' : Block) (pred : BlockId) :
    b.addPred pred = .ok b' ↔
      b.preds.length ≠ maxPreds ∧ b' = { b with preds := b.preds ++ [pred] } := by
  unfold addPred
  split <;> simp_all [eq_comm]

def addValue (b : Block) (v : Value) : Block := { b with values := b.values ++ [v] }

def beq (a b : Block) : Bool :=
  a.id == b.id && a.preds == b.preds && a.exit == b.exit && a.comment == b.comment &&
    a.values == b.values

instance : BEq Block := ⟨beq⟩

end Block

namespace Func

def make (name : String) : Func := ⟨name, none, []⟩

/-- Named after the definition it is lowered from. -/
def ofSource (f : FunDef) : Func := ⟨f.name, some f, []⟩

def addBlock (f : Func) (b : Block) : Func := { f with blocks := f.blocks ++ [b] }

/-- The first block of that number. -/
def block? (f : Func) (id : BlockId) : Option Block := f.blocks.find? fun b => b.id == id

def entry? (f : Func) : Option Block := f.blocks.head?

def beq (f g : Func) : Bool := f.name == g.name && f.source == g.source && f.blocks == g.blocks

instance : BEq Func := ⟨beq⟩

end Func

namespace Module

def empty : Module := ⟨[]⟩

def addFunction (m : Module) (f : Func) : Module := ⟨m.functions ++ [f]⟩

/-- The first function of that name. -/
def function? (m : Module) (name : String) : Option Func :=
  m.functions.find? fun f => f.name == name

def beq (m n : Module) : Bool := m.functions == n.functions

instance : BEq Module := ⟨beq⟩

end Module

end CodeDump.Ir
