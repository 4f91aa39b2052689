import CodeDump.Print.Listing

/-!
# Dumps

Appending trees and modules to a buffer, and their texts in a fresh one. The depth of a tree
is at least one.
-/

namespace CodeDump

def Ty.run (s : Settings) (depth : Nat) (t : Ty) : Run := t.pieces s 0 (max depth 1)

def Binding.run (s : Settings) (depth : Nat) (b : Binding) : Run := b.pieces s 0 (max depth 1)

def Node.run (s : Settings) (depth : Nat) (n : Node) : Run := n.pieces s 0 (max depth 1)

namespace Buffer

/-- Fits one run in, with the first window of the settings. -/
def putRun (mem : Memory) (s : Settings) (run : Run) (b : Buffer) : Attempt :=
  fit mem s.initialGuess.toNat [run] b

def putModule (mem : Memory) (s : Settings) (m : Ir.Module) (b : Buffer) : Attempt :=
  putListing mem s.initialGuess.toNat (m.spans s) b

inductive Step
  | reserve (n : Nat)
  | push (s : String)
  | pushChar (c : Char)
  | fill (c : Char) (n : Nat)
  | format (texts : List (Option String))
  | fit (guess : Nat) (runs : List Run)
  | node (s : Settings) (depth : Nat) (n : Node)
  | type (s : Settings) (depth : Nat) (t : Ty)
  | binding (s : Settings) (depth : Nat) (x : Binding)
  | listing (s : Settings) (m : Ir.Module)

def step (mem : Memory) : Step → Buffer → Attempt
  | .reserve n, b => reserve mem n b
  | .push s, b => push mem s b
  | .pushChar c, b => push mem (String.singleton c) b
  | .fill c n, b => fill mem c n b
  | .format texts, b => pushFormatted mem texts b
  | .fit guess runs, b => fit mem guess runs b
  | .node s depth n, b => putRun mem s (n.run s depth) b
  | .type s depth t, b => putRun mem s (t.run s depth) b
  | .binding s depth x, b => putRun mem s (x.run s depth) b
  | .listing s m, b => putModule mem s m b

/-- The attempts of a sequence of steps, a failed one included. What is granted may change
from step to step. A step in which the program stops is the last one. -/
def trace : List (Memory × Step) → Buffer → List Attempt
  | [], _ => []
  | (mem, s) :: rest, b =>
      let a := step mem s b
      a :: if a.isStopped then [] else trace rest a.buffer

/-- The text of a buffer after an attempt that came to its end. -/
def Attempt.outcome (a : Attempt) : Except Halt String :=
  match a.halt with
  | none => .ok a.buffer.text
  | some h => .error h

/-- The same where only faults are told apart. -/
def Attempt.result (a : Attempt) : Except Fault String :=
  match a.fault with
  | none => .ok a.buffer.text
  | some f => .error f

theorem Attempt.result_eq_outcome (a : Attempt) : a.result = a.outcome.mapError Halt.report := by
  obtain ⟨b, halt, calls⟩ := a
  cases halt <;> rfl

end Buffer

/-- The text of a run put into an empty buffer. -/
def dumpRun (mem : Memory) (s : Settings) (run : Run) : Except Fault String :=
  (Buffer.putRun mem s run Buffer.empty).result

def Node.dump (mem : Memory) (s : Settings) (depth : Nat) (n : Node) : Except Fault String :=
  dumpRun mem s (n.run s depth)

def Ir.Module.dump (mem : Memory) (s : Settings) (m : Ir.Module) : Except Fault String :=
  (Buffer.putModule mem s m Buffer.empty).result

/-- The dump of a tree, or why there is none. -/
def Node.render (mem : Memory) (s : Settings) (depth : Nat) (n : Node) : Except Halt String :=
  (Buffer.putRun mem s (n.run s depth) Buffer.empty).outcome

def Ir.Module.render (mem : Memory) (s : Settings) (m : Ir.Module) : Except Halt String :=
  (Buffer.putModule mem s m Buffer.empty).outcome

theorem Node.dump_eq_render (mem : Memory) (s : Settings) (depth : Nat) (n : Node) :
    n.dump mem s depth = (n.render mem s depth).mapError Halt.report :=
  Buffer.Attempt.result_eq_outcome _

theorem Ir.Module.dump_eq_render (mem : Memory) (s : Settings) (m : Ir.Module) :
    m.dump mem s = (m.render mem s).mapError Halt.report :=
  Buffer.Attempt.result_eq_outcome _

end CodeDump
