import CodeDump.Command.Run

/-!
# The command line program

Carries out a command on the files and the standard output of the machine.
-/

namespace CodeDump

/-- The reason text of a failed file operation. Error number 21 is a directory where a file was
wanted; the other failures of that kind are a file where a directory was wanted. -/
def failureReason : IO.Error → String
  | .noFileOrDirectory .. => PathFault.missing.reason
  | .permissionDenied .. => PathFault.denied.reason
  | .inappropriateType _ code _ =>
      (if code == 21 then PathFault.isDirectory else PathFault.notDirectory).reason
  | e => toString e

def attempt {α : Type} (act : IO α) : IO (Except String α) := do
  try return .ok (← act)
  catch e => return .error (failureReason e)

/-- Whether a text got out as a whole. -/
def putOn (stream : IO IO.FS.Stream) (t : String) : IO Bool := do
  try
    let out ← stream
    out.putStr t
    out.flush
    return true
  catch _ => return false

def machine : Host IO where
  read path := attempt do return (← IO.FS.readBinFile path).toList
  write path t := attempt (IO.FS.writeFile path t)
  print := putOn IO.getStdout

def runCommand (c : Command) : IO UInt32 := do
  let ended ← (c.perform machine Memory.standard).run
  let shown ←
    match ended with
    | .ok () => pure true
    | .error (.fault f) => putOn IO.getStderr ("Error: " ++ f.message ++ "\n")
    | .error (.panic message) => putOn IO.getStderr (message ++ "\n")
  return Command.exitCode shown ended

def runArgs (args : List String) : IO UInt32 := do
  match Command.parse args with
  | .run c => runCommand c
  | .version =>
      IO.print Command.versionText
      return 0
  | .usage =>
      IO.eprintln "usage: c0fmt [--config FILE] ast|ir FILE [OPTIONS]"
      return 2

end CodeDump

def main (args : List String) : IO UInt32 := CodeDump.runArgs args
