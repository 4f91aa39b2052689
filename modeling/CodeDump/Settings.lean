/-!
# Printer settings

What a printer may be told: how large its first window is, how far a level is indented, and
what the step slot of a loop shows.
-/

namespace CodeDump

/-- What the third slot of a loop header shows: the start expression once more, or the step. -/
inductive LoopStep
  | start | stop
  deriving DecidableEq, Repr

structure Settings where
  /-- Size of the first window a tree is tried in. -/
  initialGuess : UInt64
  /-- Spaces per level. -/
  indentWidth : UInt64
  loopStep : LoopStep
  deriving DecidableEq, Repr

namespace Settings

def default : Settings := ⟨64, 2, .start⟩

def withInitialGuess (s : Settings) (guess : UInt64) : Settings := { s with initialGuess := guess }

def withLoopStep (s : Settings) (step : LoopStep) : Settings := { s with loopStep := step }

end Settings

end CodeDump
