import CodeDump.Proofs.ListingLines

/-!
# Reading listings

The outline of a module is what a listing always shows of it: the blocks of every function with
their labels, values and exits, but no types, float payloads, names or locations. A listing is
read line by line. The start of a line says what kind of line it is; its fields are then cut out
at characters that do not occur in what stands before them.
-/

namespace CodeDump.Ir

structure ValueOutline where
  id : ValueId
  op : Op
  args : List ValueId
  /-- Only the index of an argument and the number of an integer constant are kept. -/
  payload : Payload
  uses : UInt32
  deriving DecidableEq

structure BlockOutline where
  id : BlockId
  /-- The first two predecessors. -/
  preds : List BlockId
  comment : Option String
  exit : Exit
  values : List ValueOutline
  deriving DecidableEq

def Value.shownPayload (v : Value) : Payload :=
  match v.op, v.payload with
  | .arg, .index i => .index i
  | .intConst, .int n => .int n
  | _, _ => .empty

def Value.outline (v : Value) : ValueOutline := ⟨v.id, v.op, v.args, v.shownPayload, v.uses⟩

def Block.outline (b : Block) : BlockOutline :=
  ⟨b.id, b.preds.take 2, b.comment, b.exit, b.values.map Value.outline⟩

def Func.outline (f : Func) : List BlockOutline := f.blocks.map Block.outline

/-- The blocks of every function. -/
def Module.outline (m : Module) : List (List BlockOutline) := m.functions.map Func.outline

def readNumber (cs : List Char) : Option UInt32 := (Radix.value? 10 cs).map UInt32.ofNat

/-- The number of a value or block, behind the letter for which of the two it is. -/
def readName (letter : Char) : List Char → Option UInt32
  | [] => none
  | c :: cs => if c = letter then readNumber cs else none

def readNames (letter : Char) (ws : List (List Char)) : List UInt32 :=
  ws.filterMap (readName letter)

def readOp (cs : List Char) : Option Op := Op.all.find? fun op => op.name.toList == cs

/-- From the words behind the operator that are not operands. -/
def readPayload (op : Op) (ws : List (List Char)) : Payload :=
  match op, ws with
  | .arg, [w] => ((readNumber w).map .index).getD .empty
  | .intConst, [w] => ((Radix.value? 16 (w.drop 2)).map fun n => .int (.ofNat n)).getD .empty
  | _, _ => .empty

inductive Line
  | head
  | label (id : BlockId) (preds : List BlockId) (comment : Option String)
  | value (v : ValueOutline)
  | exit (e : Exit)
  | close
  deriving DecidableEq

/-- A value from what stands behind its letter. -/
def readValue (cs : List Char) : Option ValueOutline := do
  let id ← readNumber (before ' ' cs)
  let body := behind '=' cs
  let ws := words (before '#' body).tail
  let op ← readOp (ws.headD [])
  let payload := readPayload op (ws.tail.filter fun w => w.head? != some 'v')
  let uses ← readNumber (before ']' ((behind '#' body).drop 3))
  return ⟨id, op, readNames 'v' ws.tail, payload, uses⟩

/-- The text behind the hash, if there is one. -/
def readComment (cs : List Char) : Option String :=
  match behind '#' cs with
  | _ :: _ :: comment => some (String.ofList comment)
  | _ => none

/-- A label from what stands behind its letter. -/
def readLabel (cs : List Char) : Option Line := do
  let id ← readNumber (before ':' cs)
  let body := behind ':' cs
  return .label id (readNames 'b' (words (before '#' body))) (readComment body)

def readExit (cs : List Char) : Exit :=
  let ws := words cs
  match readNames 'v' ws, readNames 'b' ws with
  | [c], [yes, no] =>
      if ws.head? = some "first".toList then .first c yes no else .branch c yes no
  | vs, bs => if ws.head? = some "ret".toList then .ret vs.head? else .goto bs.head?

def readLine : List Char → Option Line
  | 'f' :: _ => some .head
  | '\x7d' :: _ => some .close
  | ' ' :: ' ' :: ' ' :: ' ' :: 'v' :: cs => (readValue cs).map .value
  | ' ' :: ' ' :: 'b' :: cs => readLabel cs
  | ' ' :: ' ' :: cs => some (.exit (readExit cs))
  | _ => none

/-- What is known of a module from its last lines. -/
structure Draft where
  functions : List (List BlockOutline)
  blocks : List BlockOutline
  exit : Exit
  values : List ValueOutline

namespace Draft

def empty : Draft := ⟨[], [], .ret none, []⟩

/-- The draft with one more line in front. -/
def add (line : Line) (d : Draft) : Draft :=
  match line with
  | .close => { d with blocks := [] }
  | .exit e => { d with exit := e, values := [] }
  | .value v => { d with values := v :: d.values }
  | .label id preds comment =>
      { d with blocks := ⟨id, preds, comment, d.exit, d.values⟩ :: d.blocks }
  | .head => { d with functions := d.blocks :: d.functions }

end Draft

def gather (lines : List Line) : List (List BlockOutline) :=
  (lines.foldr Draft.add Draft.empty).functions

/-- The outline that a listing shows. -/
def readOutline (cs : List Char) : List (List BlockOutline) :=
  gather ((cs.splitOn '\n').filterMap readLine)

def BlockOutline.lines (b : BlockOutline) : List Line :=
  [.label b.id b.preds b.comment] ++ b.values.map .value ++ [.exit b.exit]

def functionLines (blocks : List BlockOutline) : List Line :=
  [.head] ++ blocks.flatMap BlockOutline.lines ++ [.close]

section Gather

variable (d : Draft)

theorem foldr_values (vs : List ValueOutline) :
    (vs.map .value).foldr Draft.add d = { d with values := vs ++ d.values } := by
  induction vs with
  | nil => rfl
  | cons v vs ih =>
    rw [List.map_cons, List.foldr_cons, ih]
    rfl

theorem foldr_block (b : BlockOutline) :
    b.lines.foldr Draft.add d = ⟨d.functions, b :: d.blocks, b.exit, b.values⟩ := by
  rw [BlockOutline.lines, List.foldr_append, List.foldr_append, foldr_values]
  simp [Draft.add]

theorem foldr_blocks (bs : List BlockOutline) :
    ((bs.flatMap BlockOutline.lines).foldr Draft.add d).functions = d.functions ∧
      ((bs.flatMap BlockOutline.lines).foldr Draft.add d).blocks = bs ++ d.blocks := by
  induction bs with
  | nil => exact ⟨rfl, rfl⟩
  | cons b bs ih =>
    rw [List.flatMap_cons, List.foldr_append, foldr_block]
    exact ⟨ih.1, congrArg (b :: ·) ih.2⟩

theorem functions_foldr_functionLines (bs : List BlockOutline) :
    ((functionLines bs).foldr Draft.add d).functions = bs :: d.functions := by
  obtain ⟨hfunctions, hblocks⟩ := foldr_blocks (Draft.add .close d) bs
  rw [functionLines, List.foldr_append, List.foldr_append]
  simp only [List.foldr_cons, List.foldr_nil, Draft.add] at hfunctions hblocks ⊢
  rw [hfunctions, hblocks, List.append_nil]

end Gather

/-- The lines of an outline are gathered into that outline. -/
theorem gather_flatMap (o : List (List BlockOutline)) : gather (o.flatMap functionLines) = o := by
  rw [gather]
  induction o with
  | nil => rfl
  | cons bs o ih =>
    rw [List.flatMap_cons, List.foldr_append, functions_foldr_functionLines, ih]

end CodeDump.Ir
