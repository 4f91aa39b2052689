/-!
# Pieces of output

A printer produces a list of pieces: plain text, text that stands for a part left out, and
line starts. A line start breaks the line unless nothing has been written yet, so what a
piece shows depends on what went before. `Piece.layout` is the text of a whole list.
-/

namespace CodeDump

inductive Piece
  | text (s : String)
  /-- Stands for a part that is not shown; it may be empty. -/
  | elided (s : String)
  /-- A new line, indented by a number of spaces. -/
  | line (indent : Nat)
  deriving DecidableEq, Repr

/-- Everything one printer run writes, in order. -/
abbrev Run := List Piece

namespace Piece

def spaces (n : Nat) : String := String.ofList (List.replicate n ' ')

/-- The whole writes a piece makes; `started` says whether any text precedes it. -/
def writes (started : Bool) : Piece → List String
  | text s => [s]
  | elided s => [s]
  | line n => (if started then ["\n"] else []) ++ List.replicate n " "

def shown (started : Bool) (p : Piece) : String := String.join (p.writes started)

def layoutFrom (started : Bool) : Run → String
  | [] => ""
  | p :: ps => p.shown started ++ layoutFrom (started || p.shown started != "") ps

/-- The text of a run into an empty place. -/
def layout (ps : Run) : String := layoutFrom false ps

@[simp] theorem layoutFrom_nil (started : Bool) : layoutFrom started [] = "" := rfl

theorem layoutFrom_cons (started : Bool) (p : Piece) (ps : Run) :
    layoutFrom started (p :: ps) =
      p.shown started ++ layoutFrom (started || p.shown started != "") ps := rfl

/-- The writes of a run, one by one; `started` says whether any text precedes them. -/
def writesFrom (started : Bool) : Run → List String
  | [] => []
  | p :: ps => p.writes started ++ writesFrom (started || p.shown started != "") ps

/-- The writes of a run into an empty place. -/
def wholeWrites (ps : Run) : List String := writesFrom false ps

theorem join_writesFrom (started : Bool) (ps : Run) :
    String.join (writesFrom started ps) = layoutFrom started ps := by
  induction ps generalizing started with
  | nil => rfl
  | cons p ps ih => rw [writesFrom, String.join_append, ih, layoutFrom_cons, shown]

theorem join_wholeWrites (ps : Run) : String.join (wholeWrites ps) = layout ps :=
  join_writesFrom false ps

def isElided : Piece → Bool
  | elided _ => true
  | _ => false

/-- Copies of one character, each a write of its own. -/
def fill (c : Char) (n : Nat) : Run := List.replicate n (text (String.singleton c))

end Piece

end CodeDump
