import CodeDump.Codec.Ir
import CodeDump.Json.Reader
import CodeDump.Json.Writer

/-!
# Stored values

What can be stored has a `Stored` instance: how it is written to JSON and read back, and what
it is called when a text cannot be read.
-/

namespace CodeDump

/-- How many brackets may be open at once. -/
def maxBrackets : Nat := 127

class Stored (α : Type) where
  label : String
  encode : α → Json
  decode : Nat → Json → Option α

namespace Stored

instance : Stored Node := ⟨"AST", Node.encode, Node.decode⟩

instance : Stored Ty := ⟨"type", Ty.encode, Ty.decode⟩

instance : Stored Binding := ⟨"local", Binding.encode, Binding.decode⟩

instance : Stored Op := ⟨"op", fun op => .text op.tag, Op.decode⟩

instance : Stored Settings := ⟨"config", Settings.encode, Settings.decode⟩

instance : Stored Location := ⟨"location", Location.encode, Location.decode⟩

instance : Stored Ir.Exit := ⟨"exit", Ir.Exit.encode, Ir.Exit.decode⟩

instance : Stored Ir.Block := ⟨"block", Ir.Block.encode, Ir.Block.decode⟩

instance : Stored Ir.Module := ⟨"IR unit", Ir.Module.encode, Ir.Module.decode⟩

variable {α : Type} [Stored α]

/-- The fault of a text that holds no value of this kind. Which file it was and what the decoder
says of it are left out of the message. -/
def malformed (α : Type) [Stored α] : Fault := .invalidInput ("bad " ++ label α)

def write (a : α) : String := (encode a).render

def read? (s : String) : Option α := (Json.parse? s).bind (decode maxBrackets)

def read (s : String) : Except Fault α :=
  match read? s with
  | some a => .ok a
  | none => .error (malformed α)

end Stored

end CodeDump
