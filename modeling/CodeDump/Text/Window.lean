import CodeDump.Text.Piece

/-!
# Windows

A window is a place of fixed capacity behind a text. Every write is counted, and stored only
if all that was written up to it fits; so after a run that was too long, `need` is the
exact size that the run asks for, and nothing was ever stored after a write that was dropped.

The count is a machine word and sums of sizes are checked: a write that would take the count
past the last word stops the program, and there is no window after it.
-/

namespace CodeDump

structure Window where
  /-- The text in front of the window and what the window stored behind it. -/
  out : String
  capacity : Nat
  count : UInt64
  deriving DecidableEq, Repr

namespace Window

def behind (text : String) (capacity : Nat) : Window := ⟨text, capacity, 0⟩

/-- The bytes written so far, stored or not. -/
def need (w : Window) : Nat := w.count.toNat

def isEmpty (w : Window) : Bool := w.need == 0

def overflowed (w : Window) : Bool := w.capacity < w.need

def write (w : Window) (s : String) : Option Window :=
  if w.need + s.utf8ByteSize < UInt64.size then
    some
      { out := if w.need + s.utf8ByteSize ≤ w.capacity then w.out ++ s else w.out
        capacity := w.capacity
        count := UInt64.ofNat (w.need + s.utf8ByteSize) }
  else none

def writeAll (w : Window) (ss : List String) : Option Window := ss.foldlM write w

def put (w : Window) (p : Piece) : Option Window := w.writeAll (p.writes (!w.isEmpty))

def run (w : Window) (ps : Run) : Option Window := ps.foldlM put w

variable {w w' : Window}

@[simp] theorem need_behind (text : String) (capacity : Nat) : (behind text capacity).need = 0 :=
  rfl

/-- What a write that is counted leaves behind. -/
structure Wrote (w : Window) (s : String) (w' : Window) : Prop where
  countable : w.need + s.utf8ByteSize < UInt64.size
  need : w'.need = w.need + s.utf8ByteSize
  capacity : w'.capacity = w.capacity
  out : w'.out = if w.need + s.utf8ByteSize ≤ w.capacity then w.out ++ s else w.out

theorem wrote_of_write {s : String} (h : w.write s = some w') : Wrote w s w' := by
  unfold write at h
  split at h
  · rename_i hcount
    cases h
    exact ⟨hcount, UInt64.toNat_ofNat_of_lt' hcount, rfl, rfl⟩
  · cases h

theorem exists_write {s : String} (h : w.need + s.utf8ByteSize < UInt64.size) :
    ∃ w', w.write s = some w' :=
  ⟨_, if_pos h⟩

@[simp] theorem writeAll_nil (w : Window) : w.writeAll [] = some w := rfl

@[simp] theorem writeAll_cons (w : Window) (s : String) (ss : List String) :
    w.writeAll (s :: ss) = (w.write s).bind (writeAll · ss) :=
  List.foldlM_cons

theorem writeAll_append (w : Window) (ss ts : List String) :
    w.writeAll (ss ++ ts) = (w.writeAll ss).bind (writeAll · ts) :=
  List.foldlM_append

@[simp] theorem run_nil (w : Window) : w.run [] = some w := rfl

@[simp] theorem run_cons (w : Window) (p : Piece) (ps : Run) :
    w.run (p :: ps) = (w.put p).bind (run · ps) :=
  List.foldlM_cons

theorem need_of_writeAll {ss : List String} (h : w.writeAll ss = some w') :
    w'.need = w.need + (String.join ss).utf8ByteSize := by
  induction ss generalizing w with
  | nil =>
    cases h
    simp
  | cons s ss ih =>
    obtain ⟨next, hwrite, hrest⟩ := Option.bind_eq_some_iff.mp ((writeAll_cons w s ss).symm.trans h)
    rw [ih hrest, (wrote_of_write hwrite).need, String.join_cons, String.utf8ByteSize_append,
      Nat.add_assoc]

/-- Writes are counted as long as their sum is a word. -/
theorem exists_writeAll_iff (ss : List String) :
    (∃ w', w.writeAll ss = some w') ↔ w.need + (String.join ss).utf8ByteSize < UInt64.size := by
  constructor
  · rintro ⟨w', h⟩
    rw [← need_of_writeAll h]
    exact w'.count.toNat_lt
  · intro h
    induction ss generalizing w with
    | nil => exact ⟨w, rfl⟩
    | cons s ss ih =>
      rw [String.join_cons, String.utf8ByteSize_append] at h
      obtain ⟨next, hwrite⟩ := exists_write (w := w) (s := s) (by omega)
      have hneed := (wrote_of_write hwrite).need
      obtain ⟨w', hrest⟩ := ih (w := next) (by omega)
      exact ⟨w', by rw [writeAll_cons, hwrite, Option.bind_some, hrest]⟩

theorem isEmpty_of_put {p : Piece} (h : w.put p = some w') :
    (!w'.isEmpty) = (!w.isEmpty || p.shown (!w.isEmpty) != "") := by
  have hempty : (p.shown (!w.isEmpty)).utf8ByteSize = 0 ↔ p.shown (!w.isEmpty) = "" :=
    String.utf8ByteSize_eq_zero_iff
  have hneed : w'.need = w.need + (p.shown (!w.isEmpty)).utf8ByteSize := need_of_writeAll h
  rw [Bool.eq_iff_iff]
  simp only [isEmpty, Bool.not_eq_true', beq_eq_false_iff_ne, Bool.or_eq_true, bne_iff_ne,
    ne_eq] at hempty hneed ⊢
  rw [← hempty, hneed]
  omega

/-- A run makes its writes one after the other, and which they are does not depend on what the
window stores. -/
theorem run_eq_writeAll (w : Window) (ps : Run) :
    w.run ps = w.writeAll (Piece.writesFrom (!w.isEmpty) ps) := by
  induction ps generalizing w with
  | nil => rfl
  | cons p ps ih =>
    rw [run_cons, Piece.writesFrom, writeAll_append, put]
    cases hput : w.writeAll (p.writes (!w.isEmpty)) with
    | none => rfl
    | some next => rw [Option.bind_some, Option.bind_some, ih, isEmpty_of_put hput]

theorem run_behind (text : String) (capacity : Nat) (ps : Run) :
    (behind text capacity).run ps = (behind text capacity).writeAll (Piece.wholeWrites ps) :=
  run_eq_writeAll _ ps

/-- A run needs the bytes of its layout, whatever the capacity. -/
theorem need_of_run_behind {text : String} {capacity : Nat} {ps : Run}
    (h : (behind text capacity).run ps = some w) : w.need = (Piece.layout ps).utf8ByteSize := by
  rw [run_behind] at h
  rw [need_of_writeAll h, Piece.join_wholeWrites, need_behind, Nat.zero_add]

theorem exists_run_behind_iff (text : String) (capacity : Nat) (ps : Run) :
    (∃ w, (behind text capacity).run ps = some w) ↔
      (Piece.layout ps).utf8ByteSize < UInt64.size := by
  rw [run_behind, exists_writeAll_iff, Piece.join_wholeWrites, need_behind, Nat.zero_add]

end Window

end CodeDump
