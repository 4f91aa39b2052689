import CodeDump.Source.Input

/-!
# Source locations

Line zero means that the location is not known.
-/

namespace CodeDump

structure Location where
  input : Option Input
  line : UInt32
  column : UInt32
  deriving DecidableEq, Repr

namespace Location

def within (input : Input) (line column : UInt32) : Location := ⟨some input, line, column⟩

def simple (line column : UInt32) : Location := ⟨none, line, column⟩

def isKnown (loc : Location) : Bool := loc.line != 0

/-- What is shown of a location, in the parts in which it is written. -/
def texts (loc : Location) : List String :=
  (match loc.input with
    | none => []
    | some input => [input.name, ":"]) ++
  [Radix.decimal loc.line.toNat, ":", Radix.decimal loc.column.toNat]

def text (loc : Location) : String := String.join loc.texts

theorem text_eq (loc : Location) :
    loc.text = (match loc.input with
      | none => ""
      | some input => input.name ++ ":") ++
        Radix.decimal loc.line.toNat ++ ":" ++ Radix.decimal loc.column.toNat := by
  obtain ⟨input, line, column⟩ := loc
  cases input <;> simp [text, texts, String.append_assoc]

end Location

end CodeDump
