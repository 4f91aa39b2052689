import CodeDump.Proofs.AppendOnly

/-!
# Trees look the same in every window

A printer asks its window whether anything was written yet, and the window may have dropped
what was written. What it counts does not depend on that, so a run into a window that is too
small asks for the same bytes as one into a window that is large enough. The text of a tree is
therefore a function of the tree, the depth and the two settings that shape it: `Node.shownText`,
`Ty.shownText` and `Binding.shownText`. The first window, and with it the number of runs, has no
part in it.
-/

namespace CodeDump

namespace Settings

variable (s : Settings) (g : UInt64)

@[simp] theorem lineAt_withInitialGuess (level : Nat) :
    (s.withInitialGuess g).lineAt level = s.lineAt level := rfl

@[simp] theorem loopStep_withInitialGuess : (s.withInitialGuess g).loopStep = s.loopStep := rfl

end Settings

section Guess

variable (s : Settings) (g : UInt64)

mutual

theorem Ty.pieces_withInitialGuess (level depth : Nat) :
    ∀ t : Ty, t.pieces (s.withInitialGuess g) level depth = t.pieces s level depth
  | .prim _ | .unknown | .unresolved _ => rfl
  | .struct name fields => by
    simp only [Ty.pieces, Settings.lineAt_withInitialGuess,
      Binding.fieldLines_withInitialGuess (level + 1) depth fields]
  | .func params result => by
    simp only [Ty.pieces, Binding.grouped_withInitialGuess level depth params,
      Ty.pieces_withInitialGuess level depth result]
  | .array elem _ | .slice elem _ | .pointer elem | .reference elem _ | .optional elem
  | .named _ elem => by
    simp only [Ty.pieces, Ty.pieces_withInitialGuess level depth elem]
termination_by structural t => t

theorem TypeRef.pieces_withInitialGuess (level depth : Nat) :
    ∀ r : TypeRef, r.pieces (s.withInitialGuess g) level depth = r.pieces s level depth
  | ⟨_, t⟩ => Ty.pieces_withInitialGuess level depth t
termination_by structural r => r

theorem TypeRef.piecesOr_withInitialGuess (level depth : Nat) :
    ∀ r : Option TypeRef,
      TypeRef.piecesOr (s.withInitialGuess g) level depth r = TypeRef.piecesOr s level depth r
  | none => rfl
  | some r => TypeRef.pieces_withInitialGuess level depth r
termination_by structural r => r

theorem Binding.pieces_withInitialGuess (level depth : Nat) :
    ∀ b : Binding, b.pieces (s.withInitialGuess g) level depth = b.pieces s level depth
  | ⟨_, ty, none⟩ => by
    simp only [Binding.pieces, TypeRef.piecesOr_withInitialGuess level depth ty]
  | ⟨_, ty, some value⟩ => by
    simp only [Binding.pieces, TypeRef.piecesOr_withInitialGuess level depth ty,
      Node.pieces_withInitialGuess level depth value]
termination_by structural b => b

theorem Binding.fieldPieces_withInitialGuess (level depth : Nat) :
    ∀ b : Binding,
      b.fieldPieces (s.withInitialGuess g) level depth = b.fieldPieces s level depth
  | ⟨_, ty, none⟩ => by
    simp only [Binding.fieldPieces, TypeRef.piecesOr_withInitialGuess level depth ty]
  | ⟨_, ty, some value⟩ => by
    simp only [Binding.fieldPieces, TypeRef.piecesOr_withInitialGuess level depth ty,
      Node.pieces_withInitialGuess level depth value]
termination_by structural b => b

theorem Binding.fieldLines_withInitialGuess (level depth : Nat) :
    ∀ bs : List Binding,
      Binding.fieldLines (s.withInitialGuess g) level depth bs =
        Binding.fieldLines s level depth bs
  | [] => rfl
  | b :: rest => by
    simp only [Binding.fieldLines, Settings.lineAt_withInitialGuess,
      Binding.fieldPieces_withInitialGuess level depth b,
      Binding.fieldLines_withInitialGuess level depth rest]
termination_by structural bs => bs

theorem Binding.groupedType_withInitialGuess (level depth : Nat) (next : Option Binding) :
    ∀ b : Binding,
      Binding.groupedType (s.withInitialGuess g) level depth next b =
        Binding.groupedType s level depth next b
  | ⟨_, ty, _⟩ => by
    simp only [Binding.groupedType, TypeRef.piecesOr_withInitialGuess level depth ty]
termination_by structural b => b

theorem Binding.grouped_withInitialGuess (level depth : Nat) :
    ∀ bs : List Binding,
      Binding.grouped (s.withInitialGuess g) level depth bs = Binding.grouped s level depth bs
  | [] => rfl
  | b :: rest => by
    simp only [Binding.grouped, Binding.groupedType_withInitialGuess level depth rest.head? b,
      Binding.grouped_withInitialGuess level depth rest]
termination_by structural bs => bs

theorem Binding.listed_withInitialGuess (level depth : Nat) :
    ∀ bs : List Binding,
      Binding.listed (s.withInitialGuess g) level depth bs = Binding.listed s level depth bs
  | [] => rfl
  | b :: rest => by
    simp only [Binding.listed, Binding.pieces_withInitialGuess level depth b,
      Binding.listed_withInitialGuess level depth rest]
termination_by structural bs => bs

theorem FunDef.pieces_withInitialGuess (level depth : Nat) :
    ∀ f : FunDef, f.pieces (s.withInitialGuess g) level depth = f.pieces s level depth
  | ⟨_, params, result, none⟩ => by
    simp only [FunDef.pieces, Binding.listed_withInitialGuess level depth params,
      Ty.pieces_withInitialGuess level depth result]
  | ⟨_, params, result, some body⟩ => by
    simp only [FunDef.pieces, Binding.listed_withInitialGuess level depth params,
      Ty.pieces_withInitialGuess level depth result, Node.pieces_withInitialGuess level depth body]
termination_by structural f => f

theorem Node.pieces_withInitialGuess (level depth : Nat) :
    ∀ n : Node, n.pieces (s.withInitialGuess g) level depth = n.pieces s level depth
  | .bad | .comment _ | .ident _ | .boolLit _ | .intLit _ _ | .floatLit _ | .strLit _
  | .ret none => rfl
  | .unit items => by
    simp only [Node.pieces, Node.lines_withInitialGuess level (depth - 1) items]
  | .typeDef t | .typeNode t => by
    simp only [Node.pieces, Ty.pieces_withInitialGuess level depth t]
  | .binding _ b => by simp only [Node.pieces, Binding.pieces_withInitialGuess level depth b]
  | .func f => by simp only [Node.pieces, FunDef.pieces_withInitialGuess level depth f]
  | .block items => by
    simp only [Node.pieces, Settings.lineAt_withInitialGuess,
      Node.lines_withInitialGuess (level + 1) (depth - 1) items]
  | .call callee args => by
    simp only [Node.pieces, Node.pieces_withInitialGuess level depth callee,
      Node.listed_withInitialGuess level depth args]
  | .construct t arg => by
    simp only [Node.pieces, Ty.pieces_withInitialGuess level depth t,
      Node.piecesOr_withInitialGuess level depth arg]
  | .member n _ | .ret (some n) | .deref n | .prefixed _ n | .postfixed _ n => by
    simp only [Node.pieces, Node.pieces_withInitialGuess level depth n]
  | .branch cond yes none => by
    simp only [Node.pieces, Node.pieces_withInitialGuess level depth cond,
      Node.pieces_withInitialGuess level depth yes]
  | .branch cond yes (some no) => by
    simp only [Node.pieces, Node.pieces_withInitialGuess level depth cond,
      Node.pieces_withInitialGuess level depth yes, Node.pieces_withInitialGuess level depth no]
  | .loop start cond step body => by
    simp only [Node.pieces, Settings.loopStep_withInitialGuess,
      Node.piecesOr_withInitialGuess level (depth - 1) start,
      Node.piecesOr_withInitialGuess level (depth - 1) cond,
      Node.piecesOr_withInitialGuess level (depth - 1) step,
      Node.pieces_withInitialGuess level (depth - 1) body]
  | .assign _ left right | .binary _ left right => by
    simp only [Node.pieces, Node.pieces_withInitialGuess level depth left,
      Node.pieces_withInitialGuess level depth right]
  | .arrayLit items => by
    simp only [Node.pieces, Node.listed_withInitialGuess level depth items]
termination_by structural n => n

theorem Node.piecesOr_withInitialGuess (level depth : Nat) :
    ∀ n : Option Node,
      Node.piecesOr (s.withInitialGuess g) level depth n = Node.piecesOr s level depth n
  | none => rfl
  | some n => Node.pieces_withInitialGuess level depth n
termination_by structural n => n

theorem Node.lines_withInitialGuess (level depth : Nat) :
    ∀ ns : List Node,
      Node.lines (s.withInitialGuess g) level depth ns = Node.lines s level depth ns
  | [] => rfl
  | n :: rest => by
    simp only [Node.lines, Settings.lineAt_withInitialGuess,
      Node.pieces_withInitialGuess level depth n, Node.lines_withInitialGuess level depth rest]
termination_by structural ns => ns

theorem Node.listed_withInitialGuess (level depth : Nat) :
    ∀ ns : List Node,
      Node.listed (s.withInitialGuess g) level depth ns = Node.listed s level depth ns
  | [] => rfl
  | n :: rest => by
    simp only [Node.listed, Node.pieces_withInitialGuess level depth n,
      Node.listed_withInitialGuess level depth rest]
termination_by structural ns => ns

end

end Guess

/-- The text of a node at a depth. -/
def Node.shownText (width : UInt64) (step : LoopStep) (depth : Nat) (n : Node) : String :=
  Piece.layout (n.pieces ⟨0, width, step⟩ 0 depth)

def Ty.shownText (width : UInt64) (step : LoopStep) (depth : Nat) (t : Ty) : String :=
  Piece.layout (t.pieces ⟨0, width, step⟩ 0 depth)

def Binding.shownText (width : UInt64) (step : LoopStep) (depth : Nat) (x : Binding) : String :=
  Piece.layout (x.pieces ⟨0, width, step⟩ 0 depth)

theorem Node.layout_run (s : Settings) (depth : Nat) (n : Node) :
    Piece.layout (n.run s depth) = n.shownText s.indentWidth s.loopStep (max depth 1) :=
  congrArg Piece.layout (n.pieces_withInitialGuess s 0 0 (max depth 1)).symm

theorem Ty.layout_run (s : Settings) (depth : Nat) (t : Ty) :
    Piece.layout (t.run s depth) = t.shownText s.indentWidth s.loopStep (max depth 1) :=
  congrArg Piece.layout (t.pieces_withInitialGuess s 0 0 (max depth 1)).symm

theorem Binding.layout_run (s : Settings) (depth : Nat) (x : Binding) :
    Piece.layout (x.run s depth) = x.shownText s.indentWidth s.loopStep (max depth 1) :=
  congrArg Piece.layout (x.pieces_withInitialGuess s 0 0 (max depth 1)).symm

namespace Buffer

/-- The requests that a text makes are granted: one for the first window and, unless the text is
shorter than that, one for a window with a byte to spare. -/
structure Accepted (mem : Memory) (s : Settings) (b : Buffer) (t : String) : Prop where
  first : mem.grants b.size (max s.initialGuess.toNat 1) = true
  second : max s.initialGuess.toNat 1 ≤ t.utf8ByteSize →
    mem.grants b.size (t.utf8ByteSize + 1) = true

/-- The text is appended after one run if it is shorter than the first window and after two
otherwise. Each run counts the exact bytes of the text. -/
structure Renders (s : Settings) (b : Buffer) (t : String) (a : Attempt) : Prop where
  fault : a.fault = none
  text : a.buffer.text = b.text ++ t
  windows : a.calls.map (fun w => (w.capacity, w.need)) =
    if t.utf8ByteSize < max s.initialGuess.toNat 1 then
      [(max s.initialGuess.toNat 1, t.utf8ByteSize)]
    else
      [(max s.initialGuess.toNat 1, t.utf8ByteSize), (t.utf8ByteSize + 1, t.utf8ByteSize)]

theorem renders_putRun (mem : Memory) (s : Settings) (run : Run) (b : Buffer)
    (h : Accepted mem s b (Piece.layout run)) :
    Renders s b (Piece.layout run) (putRun mem s run b) := by
  let guess := s.initialGuess.toNat
  have hneed (i : Nat) : needAt [run] i = (Piece.layout run).utf8ByteSize := by
    rw [needAt, runAt_singleton]
  by_cases hf : (Piece.layout run).utf8ByteSize < max guess 1
  · -- The first call fits.
    have hroom := mem.bounded _ _ h.first
    have hover : Overflowed mem b.size (max guess 1) [run] 0 :=
      ⟨fun i hi => absurd hi (Nat.not_lt_zero i), fun i hi => absurd hi (Nat.not_lt_zero i),
        fun i hi => absurd hi (Nat.not_lt_zero i)⟩
    have heq := fit_of_fits hover h.first (by rw [hneed]; exact hf)
    rw [putRun, heq, runAt_singleton]
    refine ⟨rfl, rfl, ?_⟩
    rw [if_pos hf, sizes_callAt fun i _ => show needAt [run] i < 2 ^ 64 by rw [hneed]; omega]
    simp only [hneed]
    rfl
  · -- The first call overflows, and the second has one byte to spare.
    have hlong := Nat.le_of_not_lt hf
    have hcount := mem.bounded _ _ (h.second hlong)
    have hover : Overflowed mem b.size (max guess 1) [run] 1 := by
      refine ⟨fun i hi => ?_, fun i hi => ?_, fun i hi => ?_⟩
      · rw [Nat.lt_one_iff.mp hi]
        exact h.first
      · rw [Nat.lt_one_iff.mp hi, hneed]
        exact hlong
      · rw [hneed]
        change _ < 2 ^ 64
        omega
    have hroom : roomAt guess [run] 1 = (Piece.layout run).utf8ByteSize + 1 := by
      rw [roomAt, roomFrom, hneed]
    have heq := fit_of_fits hover (by rw [hroom]; exact h.second hlong)
      (by rw [hroom, hneed]; exact Nat.lt_succ_self _)
    rw [putRun, heq, runAt_singleton]
    refine ⟨rfl, rfl, ?_⟩
    rw [if_neg hf, ← hroom,
      sizes_callAt fun i _ => show needAt [run] i < 2 ^ 64 by rw [hneed]; omega]
    simp only [hneed]
    rfl

/-- A node, a type or a binding whose requests are granted is appended as its text, in any
window and behind any buffer. -/
theorem step_renders (mem : Memory) (s : Settings) (depth : Nat) (b : Buffer) :
    (∀ n : Node, Accepted mem s b (n.shownText s.indentWidth s.loopStep (max depth 1)) →
        Renders s b (n.shownText s.indentWidth s.loopStep (max depth 1))
          (step mem (.node s depth n) b)) ∧
      (∀ t : Ty, Accepted mem s b (t.shownText s.indentWidth s.loopStep (max depth 1)) →
        Renders s b (t.shownText s.indentWidth s.loopStep (max depth 1))
          (step mem (.type s depth t) b)) ∧
      (∀ x : Binding, Accepted mem s b (x.shownText s.indentWidth s.loopStep (max depth 1)) →
        Renders s b (x.shownText s.indentWidth s.loopStep (max depth 1))
          (step mem (.binding s depth x) b)) := by
  refine ⟨fun n h => ?_, fun t h => ?_, fun x h => ?_⟩
  · rw [← n.layout_run] at h ⊢
    exact renders_putRun mem s (n.run s depth) b h
  · rw [← t.layout_run] at h ⊢
    exact renders_putRun mem s (t.run s depth) b h
  · rw [← x.layout_run] at h ⊢
    exact renders_putRun mem s (x.run s depth) b h

/-- A block of two lines, first tried in a window that holds exactly its text. -/
theorem step_renders_block :
    Accepted .standard ⟨11, 2, .start⟩ ⟨"> "⟩
        ((Node.block [.ident "a", .ident "b"]).shownText 2 .start 2) ∧
      Renders ⟨11, 2, .start⟩ ⟨"> "⟩ "\x7b\n  a\n  b\n\x7d"
        (step .standard (.node ⟨11, 2, .start⟩ 2 (.block [.ident "a", .ident "b"])) ⟨"> "⟩) := by
  have h : Accepted .standard ⟨11, 2, .start⟩ ⟨"> "⟩
      ((Node.block [.ident "a", .ident "b"]).shownText 2 .start 2) := ⟨by decide, by decide⟩
  exact ⟨h, (step_renders .standard ⟨11, 2, .start⟩ 2 ⟨"> "⟩).1 _ h⟩

end Buffer

open Buffer in
/-- Exactly if its requests are granted, a run has a dump, and this is its text. -/
theorem dumpRun_eq_ok_iff (mem : Memory) (s : Settings) (run : Run) (t : String) :
    dumpRun mem s run = .ok t ↔
      Accepted mem s .empty (Piece.layout run) ∧ t = Piece.layout run := by
  constructor
  · intro h
    obtain ⟨n, hn, hover, hend⟩ := fit_cases mem s.initialGuess.toNat [run] Buffer.empty
    rw [dumpRun, putRun] at h
    generalize fit mem s.initialGuess.toNat [run] Buffer.empty = a at h hend
    cases hend with
    | refused _ => cases h
    | stops _ _ => cases h
    | fits hgrant hfits =>
      rw [needAt, runAt_singleton] at hfits
      refine ⟨?_, ?_⟩
      · -- The call that fits is the first or the second one.
        rcases Nat.le_one_iff_eq_zero_or_eq_one.mp hn with rfl | rfl
        · exact ⟨hgrant, fun hle => absurd hfits (Nat.not_lt.mpr hle)⟩
        · have hroom : roomAt s.initialGuess.toNat [run] 1 =
              (Piece.layout run).utf8ByteSize + 1 := by
            rw [roomAt, roomFrom, needAt, runAt_singleton]
          rw [hroom] at hgrant
          exact ⟨hover.granted 0 Nat.one_pos, fun _ => hgrant⟩
      · rw [runAt_singleton] at h
        injection h with h
        exact h.symm.trans String.empty_append
  · rintro ⟨h, rfl⟩
    have hrenders := renders_putRun mem s run Buffer.empty h
    rw [dumpRun, Attempt.result, hrenders.fault, hrenders.text]
    exact congrArg Except.ok String.empty_append

theorem Node.dump_eq_ok_iff (mem : Memory) (s : Settings) {depth : Nat} (h : 1 ≤ depth)
    (n : Node) (t : String) :
    n.dump mem s depth = .ok t ↔
      Buffer.Accepted mem s .empty (n.shownText s.indentWidth s.loopStep depth) ∧
        t = n.shownText s.indentWidth s.loopStep depth := by
  rw [Node.dump, dumpRun_eq_ok_iff, n.layout_run, Nat.max_eq_left h]

/-- A node that is one text at every depth has this text for its dump. -/
theorem Node.dump_eq_ok_iff_of_text {n : Node} {text : String}
    (h : ∀ s level depth, depth ≠ 0 → n.pieces s level depth = [.text text]) (mem : Memory)
    (s : Settings) (depth : Nat) (t : String) :
    n.dump mem s depth = .ok t ↔ Buffer.Accepted mem s .empty t ∧ t = text := by
  have hlayout : Piece.layout (n.run s depth) = text := by
    rw [Node.run, h s 0 (max depth 1) (by omega)]
    simp [Piece.layout, Piece.layoutFrom_cons, Piece.shown, Piece.writes]
  rw [Node.dump, dumpRun_eq_ok_iff, hlayout]
  constructor
  · rintro ⟨haccepted, rfl⟩
    exact ⟨haccepted, rfl⟩
  · rintro ⟨haccepted, rfl⟩
    exact ⟨haccepted, rfl⟩

end CodeDump
