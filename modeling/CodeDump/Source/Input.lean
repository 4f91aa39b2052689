import CodeDump.Fault
import CodeDump.Source.Store

/-!
# Inputs

An input is a named file whose bytes are loaded on demand. Loaded bytes stay as they were at
the time of loading, whatever happens to the file. `lineCol` turns a byte offset into a
line and a column, both counted from one.
-/

namespace CodeDump

structure Input where
  name : String
  data : Option (List UInt8)
  deriving DecidableEq, Repr

namespace Input

/-- A closed input. -/
def create (name : String) : Input := ⟨name, none⟩

def isOpen (i : Input) : Bool := i.data.isSome

def load (store : Store) (i : Input) : Except Fault Input :=
  if i.isOpen then .error (.internal ("input " ++ i.name ++ " is already open"))
  else
    match store.read i.name with
    | .error f => .error (.io i.name f.reason)
    | .ok bytes => .ok { i with data := some bytes }

def close (i : Input) : Input := { i with data := none }

/-- The bytes of the line in which a text ends. -/
def lastLine (before : List UInt8) : List UInt8 := (before.reverse.takeWhile (· != 10)).reverse

/-- Nothing for a closed input and past the end. -/
def lineCol (i : Input) (offset : Nat) : Option (UInt32 × UInt32) :=
  match i.data with
  | none => none
  | some data =>
      if offset ≤ data.length then
        let before := data.take offset
        some (UInt32.ofNat (before.count 10 + 1), UInt32.ofNat ((lastLine before).length + 1))
      else none

end Input

/-- A store and the inputs that were made over it. -/
structure Session where
  store : Store
  inputs : List Input
  deriving DecidableEq, Repr

namespace Session

inductive Step
  | load (handle : Nat)
  | close (handle : Nat)
  | clone (handle : Nat)
  | create (name : String)
  | write (name : String) (e : Entry)
  | remove (name : String)
  deriving DecidableEq, Repr

def update (s : Session) (handle : Nat) (i : Input) : Session :=
  { s with inputs := s.inputs.set handle i }

/-- The session after a step, and the fault of a load that failed. Handles that do not exist
do nothing. -/
def step (s : Session) : Step → Session × Option Fault
  | .load h =>
      match s.inputs[h]? with
      | none => (s, none)
      | some i =>
          match i.load s.store with
          | .error f => (s, some f)
          | .ok i' => (s.update h i', none)
  | .close h =>
      match s.inputs[h]? with
      | none => (s, none)
      | some i => (s.update h i.close, none)
  | .clone h =>
      match s.inputs[h]? with
      | none => (s, none)
      | some i => ({ s with inputs := s.inputs ++ [i] }, none)
  | .create name => ({ s with inputs := s.inputs ++ [Input.create name] }, none)
  | .write name e => ({ s with store := s.store.insert name e }, none)
  | .remove name => ({ s with store := s.store.erase name }, none)

end Session

end CodeDump
