import CodeDump.Proofs.ShownNames

/-!
# Listings as lines

The text of a module is a list of lines, each behind a line feed: for every function a head,
for every block a label, its values and its exit, and a closing brace. In an `Unbroken` module no
line has a line feed of its own, so the lines can be told from the text. A `Legible` module is an
unbroken one whose types can be told from what stands behind them.
-/

namespace CodeDump.Ir

namespace Value

def line (s : Settings) (v : Value) : String :=
  v.leadText ++ Piece.layout (typeRun s v.ty) ++
    String.join (v.restTexts (Piece.layout (typeRun s v.ty)).utf8ByteSize)

/-- No line feed in any text that is shown. -/
structure Unbroken (v : Value) : Prop where
  names : ∀ n ∈ v.ty.names, Free '\n' n
  comment : ∀ c ∈ v.comment, Free '\n' c
  input : ∀ loc ∈ v.loc, ∀ i ∈ loc.input, Free '\n' i.name

instance (v : Value) : Decidable v.Unbroken :=
  decidable_of_iff ((∀ n ∈ v.ty.names, Free '\n' n) ∧ (∀ c ∈ v.comment, Free '\n' c) ∧
      ∀ loc ∈ v.loc, ∀ i ∈ loc.input, Free '\n' i.name)
    ⟨fun ⟨hn, hc, hi⟩ => ⟨hn, hc, hi⟩, fun h => ⟨h.names, h.comment, h.input⟩⟩

/-- No line feed in any text that is shown, and no equals sign in a name within the type. -/
structure Legible (v : Value) : Prop where
  names : ∀ n ∈ v.ty.names, Free '\n' n
  equals : ∀ n ∈ v.ty.names, Free '=' n
  comment : ∀ c ∈ v.comment, Free '\n' c
  input : ∀ loc ∈ v.loc, ∀ i ∈ loc.input, Free '\n' i.name

theorem Legible.unbroken {v : Value} (h : v.Legible) : v.Unbroken := ⟨h.names, h.comment, h.input⟩

end Value

namespace Block

def labelLine (b : Block) : String := b.labelText ++ String.join (b.predsTexts ++ b.commentTexts)

def exitLine (b : Block) : String := "  " ++ b.exit.text

def lines (s : Settings) (b : Block) : List String :=
  [b.labelLine] ++ b.values.map (Value.line s) ++ [b.exitLine]

structure Unbroken (b : Block) : Prop where
  comment : ∀ c ∈ b.comment, Free '\n' c
  values : ∀ v ∈ b.values, v.Unbroken

instance (b : Block) : Decidable b.Unbroken :=
  decidable_of_iff ((∀ c ∈ b.comment, Free '\n' c) ∧ ∀ v ∈ b.values, v.Unbroken)
    ⟨fun ⟨hc, hv⟩ => ⟨hc, hv⟩, fun h => ⟨h.comment, h.values⟩⟩

structure Legible (b : Block) : Prop where
  comment : ∀ c ∈ b.comment, Free '\n' c
  values : ∀ v ∈ b.values, v.Legible

theorem Legible.unbroken {b : Block} (h : b.Legible) : b.Unbroken :=
  ⟨h.comment, fun v hv => (h.values v hv).unbroken⟩

end Block

namespace Func

def headLine (s : Settings) (f : Func) : String :=
  "fun " ++ f.name ++ "(" ++ String.join ((f.signatureSpans s).map Span.text)

def lines (s : Settings) (f : Func) : List String :=
  [f.headLine s] ++ f.blocks.flatMap (Block.lines s) ++ ["\x7d"]

structure Unbroken (f : Func) : Prop where
  name : Free '\n' f.name
  params : ∀ d ∈ f.source, ∀ x ∈ d.params, ∀ n ∈ x.names, Free '\n' n
  result : ∀ d ∈ f.source, ∀ n ∈ d.result.names, Free '\n' n
  blocks : ∀ b ∈ f.blocks, b.Unbroken

instance (f : Func) : Decidable f.Unbroken :=
  decidable_of_iff (Free '\n' f.name ∧
      (∀ d ∈ f.source, ∀ x ∈ d.params, ∀ n ∈ x.names, Free '\n' n) ∧
      (∀ d ∈ f.source, ∀ n ∈ d.result.names, Free '\n' n) ∧ ∀ b ∈ f.blocks, b.Unbroken)
    ⟨fun ⟨hn, hp, hr, hb⟩ => ⟨hn, hp, hr, hb⟩, fun h => ⟨h.name, h.params, h.result, h.blocks⟩⟩

structure Legible (f : Func) : Prop where
  name : Free '\n' f.name
  params : ∀ d ∈ f.source, ∀ x ∈ d.params, ∀ n ∈ x.names, Free '\n' n
  result : ∀ d ∈ f.source, ∀ n ∈ d.result.names, Free '\n' n
  blocks : ∀ b ∈ f.blocks, b.Legible

theorem Legible.unbroken {f : Func} (h : f.Legible) : f.Unbroken :=
  ⟨h.name, h.params, h.result, fun b hb => (h.blocks b hb).unbroken⟩

end Func

namespace Module

def lines (s : Settings) (m : Module) : List String := m.functions.flatMap (Func.lines s)

def Unbroken (m : Module) : Prop := ∀ f ∈ m.functions, f.Unbroken

instance (m : Module) : Decidable m.Unbroken :=
  inferInstanceAs (Decidable (∀ f ∈ m.functions, f.Unbroken))

def Legible (m : Module) : Prop := ∀ f ∈ m.functions, f.Legible

theorem Legible.unbroken {m : Module} (h : m.Legible) : m.Unbroken :=
  fun f hf => (h f hf).unbroken

end Module

section Characters

variable (s : Settings)

/-- The characters of a list of spans. -/
def spanChars (spans : List Span) : List Char := spans.flatMap fun span => span.text.toList

/-- The characters of lines that each stand behind a line feed. -/
def lineChars (lines : List String) : List Char := lines.flatMap fun line => '\n' :: line.toList

theorem spanChars_append (xs ys : List Span) :
    spanChars (xs ++ ys) = spanChars xs ++ spanChars ys :=
  List.flatMap_append

theorem lineChars_append (xs ys : List String) :
    lineChars (xs ++ ys) = lineChars xs ++ lineChars ys :=
  List.flatMap_append

theorem spanChars_eq (spans : List Span) :
    spanChars spans = (String.join (spans.map Span.text)).toList := by
  rw [spanChars, String.toList_join, List.flatMap_map]

theorem Value.spanChars_spans (v : Value) : spanChars (v.spans s) = '\n' :: (v.line s).toList := by
  rw [Value.spans, spanChars_append, spanChars_eq (restSpans _ v), Value.line]
  simp only [spanChars, Span.text_fragment, text_leadSpan, restTexts, List.flatMap_cons,
    List.flatMap_nil, String.toList_append, List.append_nil, List.append_assoc]
  rfl

theorem Block.spanChars_spans (b : Block) : spanChars (b.spans s) = lineChars (b.lines s) := by
  have hvalues : spanChars (b.values.flatMap (Value.spans s)) =
      lineChars (b.values.map (Value.line s)) := by
    simp only [spanChars, lineChars, List.flatMap_assoc, List.flatMap_map]
    exact congrArg (List.flatMap · b.values) (funext (Value.spanChars_spans s))
  have htexts : (b.predsSpans ++ b.commentSpans).map Span.text = b.predsTexts ++ b.commentTexts :=
    List.map_append
  rw [Block.spans, Block.lines, spanChars_append, spanChars_append, spanChars_append,
    spanChars_eq (b.predsSpans ++ _), htexts, hvalues, lineChars_append, lineChars_append]
  simp only [spanChars, lineChars, text_labelSpan, Exit.text_span, labelLine, exitLine,
    List.flatMap_cons, List.flatMap_nil, String.toList_append, List.append_nil]
  rfl

theorem Func.spanChars_spans (f : Func) : spanChars (f.spans s) = lineChars (f.lines s) := by
  have hblocks : spanChars (f.blocks.flatMap (Block.spans s)) =
      lineChars (f.blocks.flatMap (Block.lines s)) := by
    simp only [spanChars, lineChars, List.flatMap_assoc]
    exact congrArg (List.flatMap · f.blocks) (funext (Block.spanChars_spans s))
  rw [Func.spans, Func.lines, spanChars_append, spanChars_append, spanChars_append, hblocks,
    lineChars_append, lineChars_append]
  simp only [spanChars, lineChars, text_headSpan, headLine, List.flatMap_cons, List.flatMap_nil,
    String.toList_append, String.toList_join, List.flatMap_map, List.append_nil]
  rfl

theorem Module.toList_text (m : Module) : (m.text s).toList = lineChars (m.lines s) := by
  have hspans : (m.text s).toList = spanChars (m.spans s) := by
    rw [Module.text, String.toList_join, List.flatMap_map]
    rfl
  rw [hspans, Module.spans, Module.lines]
  simp only [spanChars, lineChars, List.flatMap_assoc]
  exact congrArg (List.flatMap · m.functions) (funext (Func.spanChars_spans s))

/-- Lines without line feeds are what a text splits into. -/
theorem splitOn_lineChars {lines : List String} (h : ∀ l ∈ lines, Free '\n' l) :
    (lineChars lines).splitOn '\n' = [] :: lines.map String.toList := by
  have hsplit (first : List Char) (hf : '\n' ∉ first) :
      (first ++ lineChars lines).splitOn '\n' = first :: lines.map String.toList := by
    induction lines generalizing first with
    | nil => simpa [lineChars] using List.splitOn_eq_singleton hf
    | cons l lines ih =>
      obtain ⟨hl, hlines⟩ := List.forall_mem_cons.mp h
      rw [lineChars, List.flatMap_cons, List.cons_append,
        List.splitOn_append_cons_self_of_not_mem hf, List.map_cons]
      exact congrArg (first :: ·) (ih hlines l.toList hl)
  exact hsplit [] List.not_mem_nil

end Characters

/-- Holds for every character outside of names, types, comments and the marks around them. -/
def isPlainChar (c : Char) : Bool :=
  isNumeralChar c || c.isLower || "_= <>?:".toList.contains c

theorem newline_not_plain : isPlainChar '\n' = false := by decide

theorem hash_not_plain : isPlainChar '#' = false := by decide

section Plain

variable {c : Char}

theorem isNumeralChar_eq_false (h : isPlainChar c = false) : isNumeralChar c = false := by
  simp only [isPlainChar, Bool.or_eq_false_iff] at h
  exact h.1.1

theorem isFigure_eq_false (h : isPlainChar c = false) : Radix.isFigure c = false := by
  simp only [isPlainChar, isNumeralChar, Bool.or_eq_false_iff] at h
  exact h.1.1.1

theorem ne_space (h : isPlainChar c = false) : c ≠ ' ' := by
  rintro rfl
  cases h

theorem free_gap (h : isPlainChar c = false) (used col : Nat) : Free c (gap used col) :=
  free_spaces (ne_space h) _

theorem free_opName (h : isPlainChar c = false) (op : Op) : Free c op.name := by
  have hnames : Op.all.all (fun op => op.name.toList.all isPlainChar) = true := by
    decide +kernel
  exact free_of_all h (List.all_eq_true.mp hnames op op.mem_all)

theorem free_valueName (h : isPlainChar c = false) (width : Nat) (id : ValueId) :
    Free c (valueName width id) :=
  (free_append _ _).mpr ⟨free_of_all h (by decide),
    free_padRight (ne_space h) _ _ (free_decimal (isFigure_eq_false h) _)⟩

theorem free_blockName (h : isPlainChar c = false) (id : BlockId) : Free c (blockName id) :=
  (free_append _ _).mpr ⟨free_of_all h (by decide), free_decimal (isFigure_eq_false h) _⟩

theorem Value.free_leadText (h : isPlainChar c = false) (v : Value) : Free c v.leadText := by
  rw [leadText, free_append, free_append]
  exact ⟨⟨free_of_all h (by decide), free_valueName h _ _⟩, free_of_all h (by decide)⟩

theorem Value.free_payloadTexts (h : isPlainChar c = false) (v : Value) :
    ∀ t ∈ v.payloadTexts, Free c t := by
  have hblank : Free c " " := free_of_all h (by decide)
  have ha := isFigure_eq_false h
  rw [payloadTexts_eq]
  split
  · exact List.forall_mem_singleton.mpr ((free_append _ _).mpr ⟨hblank, free_decimal ha _⟩)
  · refine List.forall_mem_singleton.mpr ((free_append _ _).mpr ⟨hblank, ?_⟩)
    exact (free_append _ _).mpr ⟨free_of_all h (by decide), free_hexadecimal ha _⟩
  · refine List.forall_mem_cons.mpr ⟨hblank, List.forall_mem_singleton.mpr ?_⟩
    exact free_general (isNumeralChar_eq_false h) _
  · exact List.forall_mem_nil _

theorem Value.free_operationTexts (h : isPlainChar c = false) (v : Value) (typeWidth : Nat) :
    ∀ t ∈ v.operationTexts typeWidth, Free c t := by
  rw [operationTexts_eq]
  refine List.forall_mem_append.mpr ⟨List.forall_mem_append.mpr ⟨?_, ?_⟩, v.free_payloadTexts h⟩
  · rw [List.forall_mem_singleton, free_append, free_append]
    exact ⟨⟨free_spaces (ne_space h) _, free_of_all h (by decide)⟩,
      free_padRight (ne_space h) _ _ (free_opName h _)⟩
  · intro t ht
    obtain ⟨a, _, rfl⟩ := List.mem_map.mp ht
    exact (free_append _ _).mpr ⟨free_of_all h (by decide), free_valueName h _ _⟩

theorem Block.free_labelText (h : isPlainChar c = false) (b : Block) : Free c b.labelText := by
  rw [labelText, free_append, free_append]
  exact ⟨⟨free_of_all h (by decide), free_blockName h _⟩, free_of_all h (by decide)⟩

theorem Block.free_predsTexts (h : isPlainChar c = false) (b : Block) :
    ∀ t ∈ b.predsTexts, Free c t := by
  have harrow : Free c " <- " := free_of_all h (by decide)
  rw [predsTexts_eq]
  split
  · exact List.forall_mem_nil _
  · rw [List.forall_mem_singleton, free_append]
    exact ⟨harrow, free_blockName h _⟩
  · rw [List.forall_mem_singleton, free_append, free_append, free_append]
    exact ⟨⟨⟨harrow, free_blockName h _⟩, free_of_all h (by decide)⟩, free_blockName h _⟩

theorem Exit.free_text (h : isPlainChar c = false) (e : Exit) : Free c e.text := by
  have hbranch (lead : String) (hl : Free c lead) (v : ValueId) (yes no : BlockId) :
      Free c (lead ++ valueName 0 v ++ " -> " ++ blockName yes ++ " " ++ blockName no) := by
    simp only [free_append]
    exact ⟨⟨⟨⟨⟨hl, free_valueName h _ _⟩, free_of_all h (by decide)⟩, free_blockName h _⟩,
      free_of_all h (by decide)⟩, free_blockName h _⟩
  cases e with
  | goto next =>
    cases next with
    | none => exact free_of_all h (by decide)
    | some next => exact (free_append _ _).mpr ⟨free_of_all h (by decide), free_blockName h next⟩
  | first v yes no => exact hbranch "first " (free_of_all h (by decide)) v yes no
  | branch v yes no => exact hbranch "if " (free_of_all h (by decide)) v yes no
  | ret value =>
    cases value with
    | none => exact free_of_all h (by decide)
    | some v => exact (free_append _ _).mpr ⟨free_of_all h (by decide), free_valueName h 0 v⟩

end Plain

section Unbroken

variable (s : Settings)

theorem free_newline_decimal (n : Nat) : Free '\n' (Radix.decimal n) :=
  free_decimal (isFigure_eq_false newline_not_plain) n

theorem free_newline_location (loc : Location) (h : ∀ i ∈ loc.input, Free '\n' i.name) :
    Free '\n' loc.text := by
  obtain ⟨input, row, column⟩ := loc
  have hcolon : Free '\n' ":" := by decide
  simp only [Location.text_eq, free_append]
  refine ⟨⟨⟨?_, free_newline_decimal _⟩, hcolon⟩, free_newline_decimal _⟩
  cases input with
  | none => exact free_empty
  | some i => exact (free_append _ _).mpr ⟨h i rfl, hcolon⟩

theorem free_newline_typeRun {t : Ty} (h : ∀ n ∈ t.names, Free '\n' n) :
    Free '\n' (Piece.layout (typeRun s t)) :=
  (t.without_pieces s 0 (by decide) h).free_layoutFrom false

theorem free_newline_paramRun {b : Binding} (h : ∀ n ∈ b.names, Free '\n' n) :
    Free '\n' (Piece.layout (paramRun s b)) :=
  (b.without_pieces s 0 (by decide) h).free_layoutFrom false

theorem Value.Unbroken.free_commentTexts {v : Value} (h : v.Unbroken) :
    ∀ t ∈ v.commentTexts, Free '\n' t := by
  have hblank : Free '\n' " " := by decide
  have huses : Free '\n' ("# [" ++ Radix.decimal v.uses.toNat ++ "]") := by
    rw [free_append, free_append]
    exact ⟨⟨by decide, free_newline_decimal _⟩, by decide⟩
  rw [Value.commentTexts_eq]
  refine List.forall_mem_cons.mpr ⟨huses, ?_⟩
  split
  · rename_i c hc
    split
    · exact List.forall_mem_nil _
    · exact List.forall_mem_cons.mpr ⟨hblank, List.forall_mem_singleton.mpr (h.comment c hc)⟩
  · exact List.forall_mem_nil _

theorem Value.Unbroken.free_locationTexts {v : Value} (h : v.Unbroken) (used : Nat) :
    ∀ t ∈ v.locationTexts used, Free '\n' t := by
  have hblank : Free '\n' " " := by decide
  rw [Value.locationTexts_eq]
  split
  · rename_i loc hloc
    split
    · refine List.forall_mem_cons.mpr
        ⟨free_gap newline_not_plain _ _, List.forall_mem_singleton.mpr ?_⟩
      exact (free_append _ _).mpr ⟨hblank, free_newline_location loc (h.input loc hloc)⟩
    · exact List.forall_mem_nil _
  · exact List.forall_mem_nil _

theorem Value.Unbroken.free_line {v : Value} (h : v.Unbroken) : Free '\n' (v.line s) := by
  rw [Value.line, free_append, free_append, free_join]
  refine ⟨⟨v.free_leadText newline_not_plain, free_newline_typeRun s h.names⟩, ?_⟩
  rw [Value.restTexts_eq]
  refine List.forall_mem_append.mpr ⟨List.forall_mem_append.mpr ⟨?_, ?_⟩, h.free_locationTexts _⟩
  · exact v.free_operationTexts newline_not_plain _
  · exact List.forall_mem_cons.mpr ⟨free_gap newline_not_plain _ _, h.free_commentTexts⟩

theorem Block.Unbroken.free_labelLine {b : Block} (h : b.Unbroken) : Free '\n' b.labelLine := by
  rw [Block.labelLine, free_append, free_join]
  refine ⟨b.free_labelText newline_not_plain,
    List.forall_mem_append.mpr ⟨b.free_predsTexts newline_not_plain, ?_⟩⟩
  rw [Block.commentTexts_eq]
  split
  · rename_i c hc
    refine List.forall_mem_cons.mpr
      ⟨free_gap newline_not_plain _ _, List.forall_mem_singleton.mpr ?_⟩
    exact (free_append _ _).mpr ⟨by decide, h.comment c hc⟩
  · exact List.forall_mem_nil _

theorem Block.free_exitLine (b : Block) : Free '\n' b.exitLine :=
  (free_append _ _).mpr ⟨by decide, b.exit.free_text newline_not_plain⟩

theorem Block.Unbroken.free_lines {b : Block} (h : b.Unbroken) : ∀ l ∈ b.lines s, Free '\n' l := by
  refine List.forall_mem_append.mpr ⟨List.forall_mem_append.mpr ⟨?_, ?_⟩, ?_⟩
  · exact List.forall_mem_singleton.mpr h.free_labelLine
  · intro l hl
    obtain ⟨v, hv, rfl⟩ := List.mem_map.mp hl
    exact (h.values v hv).free_line s
  · exact List.forall_mem_singleton.mpr b.free_exitLine

theorem Func.free_paramSpans (bs : List Binding) (h : ∀ x ∈ bs, ∀ n ∈ x.names, Free '\n' n) :
    ∀ t ∈ (Func.paramSpans s bs).map Span.text, Free '\n' t := by
  fun_induction Func.paramSpans s bs with
  | case1 => exact List.forall_mem_nil _
  | case2 b =>
    exact List.forall_mem_singleton.mpr (free_newline_paramRun s (h b List.mem_cons_self))
  | case3 b rest hrest ih =>
    obtain ⟨hb, hr⟩ := List.forall_mem_cons.mp h
    rw [List.map_append]
    refine List.forall_mem_append.mpr ⟨List.forall_mem_cons.mpr ⟨?_, ?_⟩, ih hr⟩
    · exact free_newline_paramRun s hb
    · exact List.forall_mem_singleton.mpr (by decide)

theorem Func.Unbroken.free_headLine {f : Func} (h : f.Unbroken) : Free '\n' (f.headLine s) := by
  rw [Func.headLine, free_append, free_append, free_append, free_join]
  refine ⟨⟨⟨by decide, h.name⟩, by decide⟩, ?_⟩
  unfold Func.signatureSpans
  split
  · rename_i d hd
    have hclose : Free '\n' ") " := by decide
    have hopen : Free '\n' " \x7b" := by decide
    rw [List.map_append]
    refine List.forall_mem_append.mpr ⟨Func.free_paramSpans s d.params (h.params d hd), ?_⟩
    exact List.forall_mem_cons.mpr ⟨hclose, List.forall_mem_cons.mpr
      ⟨free_newline_typeRun s (h.result d hd), List.forall_mem_singleton.mpr hopen⟩⟩
  · exact List.forall_mem_singleton.mpr (by decide)

theorem Func.Unbroken.free_lines {f : Func} (h : f.Unbroken) : ∀ l ∈ f.lines s, Free '\n' l := by
  refine List.forall_mem_append.mpr ⟨List.forall_mem_append.mpr ⟨?_, ?_⟩, ?_⟩
  · exact List.forall_mem_singleton.mpr (h.free_headLine s)
  · intro l hl
    obtain ⟨b, hb, hl⟩ := List.mem_flatMap.mp hl
    exact (h.blocks b hb).free_lines s l hl
  · exact List.forall_mem_singleton.mpr (by decide)

theorem Module.Unbroken.free_lines {m : Module} (h : m.Unbroken) :
    ∀ l ∈ m.lines s, Free '\n' l := by
  intro l hl
  obtain ⟨f, hf, hl⟩ := List.mem_flatMap.mp hl
  exact (h f hf).free_lines s l hl

theorem Module.Unbroken.splitOn_text {m : Module} (h : m.Unbroken) :
    (m.text s).toList.splitOn '\n' = [] :: (m.lines s).map String.toList := by
  rw [m.toList_text s]
  exact splitOn_lineChars (h.free_lines s)

end Unbroken

end CodeDump.Ir
