import CodeDump.Json.Value
import CodeDump.Number.Reading

/-!
# Records and variants in JSON

A record is stored as an object with its fields in any order, or as an array of its fields in
declaration order. Both forms are read into the list of field values in declaration order;
a field that is left out stands for its `absent` value. Members that no field names are
ignored, and a field given twice is an error. A variant is stored as its name alone, or as an
object with the name as its only key.

Every list and record that is opened takes one from the number of brackets that may still be
opened.
-/

namespace CodeDump.Json

structure Field where
  name : String
  /-- Stands for the field where an object leaves it out. -/
  absent : Option Json
  /-- Whether an array may end before this field. -/
  droppable : Bool

namespace Field

def required (name : String) : Field := ⟨name, none, false⟩

/-- May be left out of an object, but not of an array. -/
def nullable (name : String) : Field := ⟨name, some .null, false⟩

/-- May be left out of an object and at the end of an array. -/
def defaulted (name : String) (value : Json) : Field := ⟨name, some value, true⟩

/-- The value among the members of an object, if it is given once or may be absent. -/
def find? (ms : List Member) (f : Field) : Option Json :=
  match ms.filter fun m => m.key == some f.name with
  | [] => f.absent
  | [m] => some m.value
  | _ => none

end Field

def fromItems : List Field → List Json → Option (List Json)
  | [], [] => some []
  | [], _ :: _ => none
  | _ :: fs, j :: js => (fromItems fs js).map (j :: ·)
  | f :: fs, [] =>
      match f.droppable, f.absent with
      | true, some j => (fromItems fs []).map (j :: ·)
      | _, _ => none

def fromMembers (fields : List Field) (ms : List Member) : Option (List Json) :=
  if ms.all fun m => m.key.isSome then fields.mapM (Field.find? ms) else none

/-- The values of a record's fields, in declaration order. -/
def fields? (fields : List Field) : Json → Option (List Json)
  | .array items => fromItems fields items
  | .object members => fromMembers fields members
  | _ => none

/-- The name of a variant and its data, if any. -/
def variant? : Json → Option (String × Option Json)
  | .string (some name) => some (name, none)
  | .object [⟨some name, data⟩] => some (name, some data)
  | _ => none

def isNull : Json → Bool
  | .null => true
  | _ => false

def bool? : Json → Option Bool
  | .bool b => some b
  | _ => none

def text? : Json → Option String
  | .string s => s
  | _ => none

/-- A row of digits below a bound. -/
def natBelow? (bound : Nat) : Json → Option Nat
  | .number n => n.toNat?.filter (· < bound)
  | _ => none

def byte? (j : Json) : Option UInt8 := (j.natBelow? 256).map UInt8.ofNat

def word? (j : Json) : Option UInt32 := (j.natBelow? 4294967296).map UInt32.ofNat

def long? (j : Json) : Option UInt64 := (j.natBelow? 18446744073709551616).map UInt64.ofNat

def double? : Json → Option Double
  | .number n => n.toDouble?
  | _ => none

def items? : Json → Option (List Json)
  | .array items => some items
  | _ => none

/-- Reads `null` as an absent value. -/
def nullable? {α : Type} (read : Json → Option α) : Json → Option (Option α)
  | .null => some none
  | j => (read j).map some

def list? {α : Type} (read : Json → Option α) (j : Json) : Option (List α) :=
  j.items?.bind fun items => items.mapM read

/-- Reads a list and takes its bracket. The empty list that stands for one left out takes it too;
such lists are only in modules, where they lie few brackets deep. -/
def listIn? {α : Type} (room : Nat) (read : Nat → Json → Option α) (j : Json) : Option (List α) :=
  match room with
  | 0 => none
  | room + 1 => j.list? (read room)

/-- The field values of a record, and the room inside of it. -/
def fieldsIn? (room : Nat) (fields : List Field) (j : Json) : Option (Nat × List Json) :=
  match room with
  | 0 => none
  | room + 1 => (j.fields? fields).map fun values => (room, values)

/-- A variant without data: its name, or the object form with `null` as its data. -/
def bareIn? {α : Type} (room : Nat) (ofTag? : String → Option α) (j : Json) : Option α :=
  match j.variant?, room with
  | some (tag, none), _ => ofTag? tag
  | some (tag, some .null), _ + 1 => ofTag? tag
  | _, _ => none

end CodeDump.Json
