import CodeDump.Fault
import CodeDump.Text.Window

/-!
# Output buffers

A buffer is a growing text. It asks a `Memory` for room before it writes, and the memory may
refuse. Text goes in directly, or through `fit`: a run is tried in a window, and tried again
in one that is large enough if the first was not. Every operation either appends all of its
output or leaves the text as it was, unless a run is so long that its bytes cannot be counted:
then the program stops.
-/

namespace CodeDump

/-- Which requests for more bytes are granted, given how many bytes are held. -/
structure Memory where
  grants : (held requested : Nat) → Bool
  /-- No text has `2 ^ 63` bytes or more. -/
  bounded : ∀ held requested, grants held requested = true → held + requested < 0x8000000000000000

namespace Memory

/-- Refuses requests of `2 ^ 62` bytes and more. -/
def standard : Memory where
  grants held requested :=
    decide (requested < 0x4000000000000000 ∧ held + requested < 0x8000000000000000)
  bounded _ _ h := (of_decide_eq_true h).2

/-- Sizes are machine words: they stop at `2 ^ 64 - 1`. -/
def saturate (n : Nat) : Nat := min n 18446744073709551615

end Memory

/-- Part of a listing: plain text, the texts that a format string writes one by one, or a run
that is fitted in on its own. -/
inductive Span
  | direct (s : String)
  | formatted (texts : List String)
  | fragment (run : Run)
  deriving DecidableEq, Repr

def Span.text : Span → String
  | .direct s => s
  | .formatted texts => String.join texts
  | .fragment run => Piece.layout run

namespace Span

@[simp] theorem text_direct (s : String) : (direct s).text = s := rfl

@[simp] theorem text_formatted (texts : List String) : (formatted texts).text = String.join texts :=
  rfl

@[simp] theorem text_fragment (run : Run) : (fragment run).text = Piece.layout run := rfl

end Span

structure Buffer where
  text : String
  deriving DecidableEq, Repr

namespace Buffer

def empty : Buffer := ⟨""⟩

/-- Length in bytes. -/
def size (b : Buffer) : Nat := b.text.utf8ByteSize

def isEmpty (b : Buffer) : Bool := b.text.isEmpty

/-- The longest start of a text that has at most `n` bytes. -/
def takeBytes : Nat → List Char → List Char
  | _, [] => []
  | n, c :: cs => if c.utf8Size ≤ n then c :: takeBytes (n - c.utf8Size) cs else []

/-- Cuts the text back to its first `n` bytes. -/
def truncate (b : Buffer) (n : Nat) : Buffer := ⟨String.ofList (takeBytes n b.text.toList)⟩

theorem takeBytes_append (cs ds : List Char) :
    takeBytes (String.ofList cs).utf8ByteSize (cs ++ ds) = cs := by
  induction cs with
  | nil =>
    cases ds with
    | nil => rfl
    | cons d ds =>
      have := d.utf8Size_pos
      simp [takeBytes]
      omega
  | cons c cs ih => simp [takeBytes, ih]

/-- What was appended is cut off again. -/
theorem truncate_append (b : Buffer) (s : String) :
    (⟨b.text ++ s⟩ : Buffer).truncate b.size = b := by
  have h := takeBytes_append b.text.toList s.toList
  rw [String.ofList_toList] at h
  simp [truncate, size, h]

instance : ToString Buffer := ⟨Buffer.text⟩

/-- What an operation leaves behind: the buffer, why it did not come to its end, and the windows
that were tried, each as the run left it. -/
structure Attempt where
  buffer : Buffer
  halt : Option Halt
  calls : List Window
  deriving DecidableEq, Repr

def done (b : Buffer) : Attempt := ⟨b, none, []⟩

def failed (b : Buffer) (f : Fault) : Attempt := ⟨b, some (.fault f), []⟩

/-- The program stopped, and nobody looks at the buffer again. -/
def stopped (b : Buffer) : Attempt := ⟨b, some .overflow, []⟩

namespace Attempt

def withCall (w : Window) (a : Attempt) : Attempt := { a with calls := w :: a.calls }

def fault (a : Attempt) : Option Fault := a.halt.map Halt.report

/-- Whether the program stopped in the operation. -/
def isStopped (a : Attempt) : Bool := a.halt.any Halt.isPanic

theorem fault_eq_none_iff (a : Attempt) : a.fault = none ↔ a.halt = none := Option.map_eq_none_iff

end Attempt

/-- The fault of a request for `n` more bytes, if it is refused. -/
def refusal (mem : Memory) (b : Buffer) (n : Nat) : Option Fault :=
  if mem.grants b.size n then none else some (.outOfMemory (Memory.saturate (b.size + n)))

theorem refusal_eq_none_iff (mem : Memory) (b : Buffer) (n : Nat) :
    b.refusal mem n = none ↔ mem.grants b.size n = true := by
  unfold refusal
  split <;> simp_all

theorem refusal_eq_some_iff (mem : Memory) (b : Buffer) (n : Nat) (f : Fault) :
    b.refusal mem n = some f ↔
      mem.grants b.size n = false ∧ f = .outOfMemory (Memory.saturate (b.size + n)) := by
  cases h : mem.grants b.size n
  · simp only [refusal, h, Bool.false_eq_true, if_false, true_and, Option.some.injEq]
    exact eq_comm
  · simp [refusal, h]

def reserve (mem : Memory) (n : Nat) (b : Buffer) : Attempt :=
  match b.refusal mem n with
  | some f => failed b f
  | none => done b

def push (mem : Memory) (s : String) (b : Buffer) : Attempt :=
  match b.refusal mem s.utf8ByteSize with
  | some f => failed b f
  | none => done ⟨b.text ++ s⟩

/-- Appends `n` copies of a character; the room for all of them is asked for at once. -/
def fill (mem : Memory) (c : Char) (n : Nat) (b : Buffer) : Attempt :=
  match b.refusal mem (Memory.saturate (n * c.utf8Size)) with
  | some f => failed b f
  | none => done ⟨b.text ++ String.ofList (List.replicate n c)⟩

/-- Puts one thing after the other, up to the first failure. -/
def putEach {α : Type} (put : α → Buffer → Attempt) : List α → Buffer → Attempt
  | [], b => done b
  | x :: rest, b =>
      match put x b with
      | ⟨b', none, _⟩ => putEach put rest b'
      | stopped => stopped

/-- An attempt that failed half-way is taken back to the length it started from. -/
def orTruncate (start : Nat) (a : Attempt) : Attempt :=
  match a.halt with
  | some (.fault _) => { a with buffer := a.buffer.truncate start }
  | _ => a

theorem putEach_cons_of_done {α : Type} {put : α → Buffer → Attempt} {x : α} {b : Buffer}
    (h : (put x b).halt = none) (xs : List α) :
    putEach put (x :: xs) b = putEach put xs (put x b).buffer := by
  rw [putEach]
  generalize put x b = a at h ⊢
  obtain ⟨b', halt, calls⟩ := a
  cases h
  rfl

theorem putEach_cons_of_halted {α : Type} {put : α → Buffer → Attempt} {x : α} {b : Buffer}
    {r : Halt} (h : (put x b).halt = some r) (xs : List α) :
    putEach put (x :: xs) b = put x b := by
  rw [putEach]
  generalize put x b = a at h ⊢
  obtain ⟨b', halt, calls⟩ := a
  cases h
  rfl

theorem orTruncate_of_done {start : Nat} {a : Attempt} (h : a.halt = none) :
    orTruncate start a = a := by
  rw [orTruncate, h]

theorem orTruncate_of_failed {start : Nat} {a : Attempt} {f : Fault}
    (h : a.halt = some (.fault f)) :
    orTruncate start a = { a with buffer := a.buffer.truncate start } := by
  rw [orTruncate, h]

theorem orTruncate_of_stopped {start : Nat} {a : Attempt} (h : a.halt = some .overflow) :
    orTruncate start a = a := by
  rw [orTruncate, h]
  rfl

/-- Puts all the things of a list, or none of them. -/
def putAll {α : Type} (put : α → Buffer → Attempt) (xs : List α) (b : Buffer) : Attempt :=
  orTruncate b.size (putEach put xs b)

/-- One text of a writer; `none` is where the writer fails by itself. -/
def putText (mem : Memory) : Option String → Buffer → Attempt
  | some s, b => push mem s b
  | none, b => failed b (.internal "formatting trait returned an error")

/-- Appends all the texts of one writer, or none of them. -/
def pushFormatted (mem : Memory) (texts : List (Option String)) (b : Buffer) : Attempt :=
  putAll (putText mem) texts b

/-- What a schedule does first; one without runs does nothing. -/
def firstRun (runs : List Run) : Run := runs.headD []

/-- The schedule after its first run. The last run stays. -/
def laterRuns : List Run → List Run
  | _ :: run :: rest => run :: rest
  | runs => runs

/-- How many windows a schedule can still overflow, one more than its runs unless the first
of them fits. -/
def overflowsLeft (room : Nat) (runs : List Run) : Nat :=
  runs.length + if (Piece.layout (firstRun runs)).utf8ByteSize < room then 0 else 1

theorem overflowsLeft_laterRuns_lt (room : Nat) (runs : List Run)
    (h : ¬ (Piece.layout (firstRun runs)).utf8ByteSize < room) :
    overflowsLeft ((Piece.layout (firstRun runs)).utf8ByteSize + 1) (laterRuns runs) <
      overflowsLeft room runs := by
  unfold overflowsLeft
  rw [if_neg h]
  match runs with
  | [] => simp [laterRuns]
  | [_] => simp [laterRuns]
  | run :: next :: rest =>
    have hle (c : Prop) [Decidable c] : (if c then 0 else 1) ≤ 1 := by split <;> omega
    have := hle ((Piece.layout (firstRun (laterRuns (run :: next :: rest)))).utf8ByteSize <
      (Piece.layout (firstRun (run :: next :: rest))).utf8ByteSize + 1)
    simp only [laterRuns, List.length_cons] at this ⊢
    omega

/-- Tries the runs of a schedule in turn. A run is kept once it needs fewer bytes than its
window has; otherwise the text is cut back and the next window has one byte more than was
needed, if that is still a word. The last run needs the same bytes every time, so its second
window is large enough. -/
def fitFrom (mem : Memory) (room : Nat) (runs : List Run) (b : Buffer) : Attempt :=
  match b.refusal mem room with
  | some f => failed b f
  | none =>
      match hrun : (Window.behind b.text room).run (firstRun runs) with
      | none => stopped b
      | some w =>
          let cut := (⟨w.out⟩ : Buffer).truncate b.size
          if w.need < room then (done ⟨w.out⟩).withCall w
          else if w.need + 1 < UInt64.size then
            (fitFrom mem (w.need + 1) (laterRuns runs) cut).withCall w
          else (stopped cut).withCall w
termination_by overflowsLeft room runs
decreasing_by
  rename_i hfits _
  rw [Window.need_of_run_behind hrun] at hfits ⊢
  exact overflowsLeft_laterRuns_lt room runs hfits

/-- Fits a schedule of runs in, the first one in a window of `guess` bytes, at least one. -/
def fit (mem : Memory) (guess : Nat) (runs : List Run) (b : Buffer) : Attempt :=
  fitFrom mem (max guess 1) runs b

def putSpan (mem : Memory) (guess : Nat) : Span → Buffer → Attempt
  | .direct s, b => push mem s b
  | .formatted texts, b => pushFormatted mem (texts.map some) b
  | .fragment run, b => fit mem guess [run] b

/-- Appends a whole listing, or nothing of it. -/
def putListing (mem : Memory) (guess : Nat) (spans : List Span) (b : Buffer) : Attempt :=
  putAll (putSpan mem guess) spans b

end Buffer

end CodeDump
