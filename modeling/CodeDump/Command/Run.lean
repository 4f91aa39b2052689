import CodeDump.Codec.Text
import CodeDump.Command.Args
import CodeDump.Print.Dump
import CodeDump.Source.Store

/-!
# Running a command

The configuration is read first, then the input; then the text is made, and last it is
written. The first of these that does not come to its end ends the run, and nothing has been
written by then.

A command is carried out on any `Host`, in whatever monad its operations are. `World` is a host
as data: the files, and what standard output has taken.
-/

namespace CodeDump

/-- What a command asks of the machine it runs on. -/
structure Host (m : Type → Type) where
  read : (path : String) → m (Except String (List UInt8))
  write : (path text : String) → m (Except String Unit)
  /-- Puts a text on standard output, and says whether all of it was taken. -/
  print : (text : String) → m Bool

namespace Command

section Perform

variable {m : Type → Type} [Monad m] (host : Host m)

def readText (path : String) : ExceptT Halt m String := do
  match ← host.read path with
  | .error reason => throw (.fault (.io path reason))
  | .ok bytes =>
      match String.fromUTF8? ⟨bytes.toArray⟩ with
      | some s => return s
      | none => throw (.fault (.io path "stream did not contain valid UTF-8"))

/-- The value that a file holds. -/
def load (α : Type) [Stored α] (path : String) : ExceptT Halt m α := do
  match Stored.read (← readText host path) with
  | .ok a => return a
  | .error f => throw (.fault f)

def settings : Option String → ExceptT Halt m Settings
  | none => return Settings.default
  | some path => load host Settings path

/-- The text that an action prints. A loop step comes before that of the settings. -/
def text (mem : Memory) (s : Settings) : Action → ExceptT Halt m String
  | .ast file depth step _ => do
      let n ← load host Node file
      ExceptT.mk (return n.render mem (step.elim s s.withLoopStep) depth.toNat)
  | .ir file _ => do
      let unit ← load host Ir.Module file
      ExceptT.mk (return unit.render mem s)

/-- Printing does not return if standard output fails. -/
def printFailed : Halt := .panic "failed printing to stdout"

/-- Puts a text into the output file, or on standard output with a line feed. -/
def emit (output : Option String) (s : String) : ExceptT Halt m Unit := do
  match output with
  | none => if ← host.print (s ++ "\n") then return () else throw printFailed
  | some path =>
      match ← host.write path s with
      | .ok () => return ()
      | .error reason => throw (.fault (.io path reason))

def output? (c : Command) : Option String :=
  match c.action with
  | .ast _ _ _ output => output
  | .ir _ output => output

/-- All of a command. -/
def perform (mem : Memory) (c : Command) : ExceptT Halt m Unit := do
  let s ← settings host c.config
  let t ← text host mem s c.action
  emit host c.output? t

end Perform

/-- The exit code of a run, given whether its fault could be shown. -/
def exitCode (shown : Bool) : Except Halt Unit → UInt32
  | .ok () => 0
  | .error (.fault _) => if shown then 1 else 101
  | .error (.panic _) => 101

end Command

/-- Where standard output and standard error lead. -/
structure Console where
  /-- How many bytes standard output takes before it fails; `none` if it never does. -/
  room : Option Nat
  /-- Whether standard error takes messages. -/
  shows : Bool
  deriving DecidableEq, Repr

namespace Console

/-- Takes everything. -/
def standard : Console := ⟨none, true⟩

/-- What gets on standard output of a text, and whether it is all of it. -/
def take (c : Console) (t : String) : String × Bool :=
  match c.room with
  | none => (t, true)
  | some n => if t.utf8ByteSize ≤ n then (t, true) else (((⟨t⟩ : Buffer).truncate n).text, false)

end Console

structure World where
  store : Store
  stdout : String
  deriving DecidableEq, Repr

namespace World

def utf8 (s : String) : List UInt8 := s.toUTF8.toList

def print (c : Console) (w : World) (t : String) : Bool × World :=
  ((c.take t).2, { w with stdout := w.stdout ++ (c.take t).1 })

def write (c : Console) (w : World) (path t : String) : Except String Unit × World :=
  match w.store.target path with
  | .error f => (.error f.reason, w)
  | .ok (.file place) => (.ok (), { w with store := w.store.save place (utf8 t) })
  | .ok (.device .null) => (.ok (), w)
  | .ok (.device .output) =>
      (if (c.take t).2 then .ok () else .error PathFault.full.reason, (w.print c t).2)

def host (c : Console) : Host (StateM World) where
  read path := return ((← get).store.read path).mapError PathFault.reason
  write path t := modifyGet fun w => w.write c path t
  print t := modifyGet fun w => w.print c t

end World

namespace Command

/-- The outcome of a run: exit code, standard output, the fault that was shown, and the files
afterwards. -/
structure Outcome where
  code : UInt32
  stdout : String
  fault : Option Fault
  store : Store
  deriving DecidableEq, Repr

/-- A run that ended in some world. -/
def Outcome.ended (console : Console) (r : Except Halt Unit) (w : World) : Outcome where
  code := exitCode console.shows r
  stdout := w.stdout
  fault :=
    match r with
    | .error (.fault f) => if console.shows then some f else none
    | _ => none
  store := w.store

def run (mem : Memory) (store : Store) (c : Command) (console : Console := .standard) : Outcome :=
  let (r, w) := (c.perform (World.host console) mem).run.run ⟨store, ""⟩
  .ended console r w

def versionText : String := "c0fmt 0.1.0\n"

/-- A whole command line; usage errors have code two. -/
def invoke (mem : Memory) (store : Store) (args : List String) (console : Console := .standard) :
    Outcome :=
  match parse args with
  | .run c => c.run mem store console
  | .version => ⟨0, (console.take versionText).1, none, store⟩
  | .usage => ⟨2, "", none, store⟩

end Command

end CodeDump
