import CodeDump.Proofs.ListingItems

/-!
# Columns of a listing

Columns are counted in bytes from the start of the line. A comment stands in column 32, or one
space behind what precedes it if that is too long; a location stands in column 43, or two spaces
behind the comment. Here the part of a line in front of its comment is put together field by
field, and the columns are those of the line as it stands in the buffer, whatever stands above it.
-/

namespace CodeDump.Ir

/-- The line is `front`, then only spaces, and then `back`, whose first byte is in a column. -/
def Tabbed (front : String) (column : Nat) (back line : String) : Prop :=
  ∃ n, line = front ++ Piece.spaces n ++ back ∧ (front ++ Piece.spaces n).utf8ByteSize = column

namespace Value

/-- The number, the type filled up to four bytes, the operator filled up to six, the operands and
the scalar. -/
def headText (s : Settings) (v : Value) : String :=
  "    " ++ valueName 2 v.id ++ " " ++ Piece.layout (typeRun s v.ty) ++
    Piece.spaces (4 - (Piece.layout (typeRun s v.ty)).utf8ByteSize) ++ " = " ++
    Radix.padRight 6 v.op.name ++ String.join (v.args.map argText) ++ String.join v.payloadTexts

/-- The number of uses and the comment, unless this is empty. -/
def noteText (v : Value) : String :=
  "# [" ++ Radix.decimal v.uses.toNat ++ "]" ++
    match v.comment with
    | some c => if c = "" then "" else " " ++ c
    | none => ""

/-- Where the comment and the location of a value stand. A location that is not known adds
nothing. -/
def Aligned (s : Settings) (v : Value) (line : String) : Prop :=
  ∃ noted, Tabbed (v.headText s) (max 32 ((v.headText s).utf8ByteSize + 1)) v.noteText noted ∧
    match v.loc.filter Location.isKnown with
    | some loc => Tabbed noted (max 43 (noted.utf8ByteSize + 2)) loc.text line
    | none => line = noted

end Value

namespace Block

/-- The label and the predecessors. -/
def headText (b : Block) : String := b.labelText ++ String.join b.predsTexts

/-- Where the comment of a label stands. -/
def Aligned (b : Block) (line : String) : Prop :=
  match b.comment with
  | some c => Tabbed b.headText (max 32 (b.headText.utf8ByteSize + 1)) ("# " ++ c) line
  | none => line = b.headText

end Block

theorem spaces_succ (n : Nat) : Piece.spaces (n + 1) = Piece.spaces n ++ " " := by
  rw [← String.toList_inj]
  simp [Piece.spaces, List.replicate_succ']

theorem utf8ByteSize_spaces (n : Nat) : (Piece.spaces n).utf8ByteSize = n := by
  induction n with
  | zero => rfl
  | succ n ih => rw [spaces_succ, String.utf8ByteSize_append, ih]; rfl

/-- A gap leads to its column, or is one space where the line is already longer. -/
theorem tabbed_gap (front back : String) (column : Nat) :
    Tabbed front (max column (front.utf8ByteSize + 1)) back
      (front ++ gap front.utf8ByteSize column ++ back) := by
  refine ⟨max (column - front.utf8ByteSize) 1, rfl, ?_⟩
  rw [String.utf8ByteSize_append, utf8ByteSize_spaces]
  omega

theorem Tabbed.append {front back line : String} {column : Nat} (h : Tabbed front column back line)
    (tail : String) : Tabbed front column (back ++ tail) (line ++ tail) := by
  obtain ⟨n, rfl, hcolumn⟩ := h
  exact ⟨n, String.append_assoc, hcolumn⟩

/-- A gap with a space behind it leads to the next column. -/
theorem tabbed_gap_space (front back : String) (column : Nat) :
    Tabbed front (max (column + 1) (front.utf8ByteSize + 2)) back
      (front ++ gap front.utf8ByteSize column ++ (" " ++ back)) := by
  refine ⟨max (column - front.utf8ByteSize) 1 + 1, ?_, ?_⟩
  · rw [spaces_succ, gap]
    simp only [String.append_assoc]
  · rw [String.utf8ByteSize_append, utf8ByteSize_spaces]
    omega

theorem Block.aligned_labelLine (b : Block) : b.Aligned b.labelLine := by
  have hsize : b.labelText.utf8ByteSize + (String.join b.predsTexts).utf8ByteSize =
      b.headText.utf8ByteSize := String.utf8ByteSize_append.symm
  have hline : b.labelLine = b.headText ++ String.join b.commentTexts := by
    rw [Block.labelLine, String.join_append, ← String.append_assoc]
    rfl
  rw [hline, Block.Aligned, Block.commentTexts_eq, hsize]
  cases b.comment with
  | none => exact String.append_empty
  | some c =>
    rw [String.join_cons, join_singleton, ← String.append_assoc]
    exact tabbed_gap b.headText ("# " ++ c) commentColumn

namespace Value

variable (s : Settings) (v : Value)

theorem headText_eq :
    v.headText s = v.leadText ++ Piece.layout (typeRun s v.ty) ++
      String.join (v.operationTexts (Piece.layout (typeRun s v.ty)).utf8ByteSize) := by
  rw [headText, leadText, operationTexts_eq, String.join_append, String.join_append, join_singleton]
  simp only [String.append_assoc]

theorem noteText_eq : v.noteText = String.join v.commentTexts := by
  rw [noteText, commentTexts_eq, String.join_cons]
  congr 1
  cases v.comment with
  | none => rfl
  | some c =>
    by_cases h : c = ""
    · simp [h]
    · simp [h]

theorem locationTexts_eq_filter (used : Nat) :
    v.locationTexts used =
      match v.loc.filter Location.isKnown with
      | some loc => [gap used locationColumn, " " ++ loc.text]
      | none => [] := by
  rw [locationTexts_eq]
  cases v.loc with
  | none => rfl
  | some loc =>
    cases h : loc.isKnown with
    | false => simp [h, Option.filter_some_neg h]
    | true => simp [h, Option.filter_some_pos h]

/-- The line up to the end of the comment. -/
def notedText : String :=
  v.headText s ++ gap (v.headText s).utf8ByteSize commentColumn ++ v.noteText

theorem line_eq :
    v.line s = v.notedText s ++ String.join (v.locationTexts (v.notedText s).utf8ByteSize) := by
  have hhead : v.leadText.utf8ByteSize + (Piece.layout (typeRun s v.ty)).utf8ByteSize +
      (String.join (v.operationTexts (Piece.layout (typeRun s v.ty)).utf8ByteSize)).utf8ByteSize =
        (v.headText s).utf8ByteSize := by
    rw [headText_eq, String.utf8ByteSize_append, String.utf8ByteSize_append]
  rw [line, restTexts_eq, notedText]
  simp only [hhead, String.join_append, String.join_cons, ← noteText_eq,
    String.utf8ByteSize_append, Nat.add_assoc]
  simp only [headText_eq, String.append_assoc]

theorem aligned_line : v.Aligned s (v.line s) := by
  refine ⟨v.notedText s, tabbed_gap (v.headText s) v.noteText commentColumn, ?_⟩
  rw [line_eq, locationTexts_eq_filter]
  cases v.loc.filter Location.isKnown with
  | none => exact String.append_empty
  | some loc =>
    rw [String.join_cons, join_singleton, ← String.append_assoc]
    exact tabbed_gap_space (v.notedText s) loc.text locationColumn

variable {s v}

/-- Behind a short head the comment is in its own column. -/
theorem Aligned.tabbed {line : String} (h : v.Aligned s line)
    (hshort : (v.headText s).utf8ByteSize < 32) :
    ∃ tail, Tabbed (v.headText s) 32 (v.noteText ++ tail) line := by
  obtain ⟨noted, hnoted, hline⟩ := h
  have htail : ∃ tail, line = noted ++ tail := by
    cases hloc : v.loc.filter Location.isKnown with
    | none =>
      rw [hloc] at hline
      exact ⟨"", by rw [hline, String.append_empty]⟩
    | some loc =>
      rw [hloc] at hline
      obtain ⟨n, heq, _⟩ := hline
      exact ⟨Piece.spaces n ++ loc.text, by rw [heq, String.append_assoc]⟩
  obtain ⟨tail, rfl⟩ := htail
  rw [Nat.max_eq_left hshort] at hnoted
  exact ⟨tail, hnoted.append tail⟩

end Value

end CodeDump.Ir

namespace CodeDump.Buffer

open Ir

/-- Wherever an item of a module stands in the buffer, comment and location are in their columns of
its line. All comments behind short heads are in one column. -/
theorem columns_of_putModule {mem : Memory} {s : Settings} {m : Ir.Module} {b : Buffer}
    {above below : List Item} {item : Item} (hdone : (putModule mem s m b).fault = none)
    (hitems : m.items = above ++ item :: below) :
    (putModule mem s m b).buffer.text =
        b.text ++ Item.listing s above ++ "\n" ++ item.line s ++ Item.listing s below ∧
      (∀ v, item = .value v → v.Aligned s (item.line s) ∧
        ((v.headText s).utf8ByteSize < 32 →
          ∃ tail, Tabbed (v.headText s) 32 (v.noteText ++ tail) (item.line s))) ∧
      ∀ k, item = .label k → k.Aligned (item.line s) := by
  refine ⟨Module.text_of_putModule hdone hitems, ?_, ?_⟩
  · rintro v rfl
    have haligned := v.aligned_line s
    exact ⟨haligned, haligned.tabbed⟩
  · rintro k rfl
    exact k.aligned_labelLine

/-- A label and a value behind a text and a head, all of them with names of several bytes a
character. The head of the value has thirty-two bytes, so that its comment is one column further. -/
theorem columns_of_putModule_wide :
    let v : Value := { Value.intConst 7 (.unresolved "größe") 0xabcde with
      uses := 1, comment := some "ß", loc := some (.simple 5 1) }
    let k : Block := ⟨3, [1, 2], .ret none, some "é", [v]⟩
    let m : Ir.Module := ⟨[⟨"f", none, [k]⟩]⟩
    (putModule .standard .default m ⟨"ü"⟩).fault = none ∧
      (v.headText .default).utf8ByteSize = 32 ∧ v.Aligned .default (v.line .default) ∧
      k.Aligned k.labelLine := by
  intro v k m
  have hsize : (v.headText .default).utf8ByteSize = 32 := by decide +kernel
  have hdone : (putModule .standard .default m ⟨"ü"⟩).fault = none := by decide +kernel
  have hlabel : m.items =
      [.head ⟨"f", none, [k]⟩] ++ .label k :: [.value v, .exit (.ret none), .close] := rfl
  have hvalue : m.items =
      [.head ⟨"f", none, [k]⟩, .label k] ++ .value v :: [.exit (.ret none), .close] := rfl
  exact ⟨hdone, hsize, ((columns_of_putModule hdone hvalue).2.1 v rfl).1,
    (columns_of_putModule hdone hlabel).2.2 k rfl⟩

end CodeDump.Buffer
