import CodeDump.Number.Radix

/-!
# Faults

Everything that can go wrong is one of four causes. `Fault.message` is the only place that
words them. An operation that does not come to its end halts: it returns a fault, or the whole
program stops in the middle of it.
-/

namespace CodeDump

inductive Fault
  | io (path reason : String)
  | outOfMemory (requested : Nat)
  | invalidInput (detail : String)
  | internal (detail : String)
  deriving DecidableEq, Repr

namespace Fault

def message : Fault → String
  | io path reason => "IO error on " ++ path ++ ": " ++ reason
  | outOfMemory requested =>
      "Out of memory while growing buffer to " ++ Radix.decimal requested ++ " bytes"
  | invalidInput detail => "Invalid input: " ++ detail
  | internal detail => "Internal compiler error: " ++ detail

def isOutOfMemory : Fault → Bool
  | outOfMemory _ => true
  | _ => false

@[simp] theorem isOutOfMemory_iff (f : Fault) :
    f.isOutOfMemory = true ↔ ∃ n, f = outOfMemory n := by
  cases f <;> simp [isOutOfMemory]

/-- An input or output failure for which no file is known. -/
def unnamedIo (reason : String) : Fault := io "<unknown>" reason

end Fault

/-- Why an operation does not come to its end. -/
inductive Halt
  | fault (f : Fault)
  /-- The program stops, and nothing after it is done. -/
  | panic (message : String)
  deriving DecidableEq, Repr

namespace Halt

/-- A sum of sizes that is no machine word. -/
def overflow : Halt := panic "attempt to add with overflow"

def isPanic : Halt → Bool
  | panic _ => true
  | fault _ => false

/-- Where only faults are told apart, a stop counts as an internal one. -/
def report : Halt → Fault
  | fault f => f
  | panic message => .internal message

end Halt

end CodeDump
