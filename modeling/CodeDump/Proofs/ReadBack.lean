import CodeDump.Proofs.AppendOnly
import CodeDump.Proofs.ReadLines

/-!
# Listings show the outline

The lines of a listing give its outline back, so the outline is a function of the text. Two
legible modules with one listing have one outline.
-/

namespace CodeDump.Ir

section Outlines

variable (s : Settings)

def readLines (lines : List String) : List Line := lines.filterMap fun l => readLine l.toList

theorem readLines_append (xs ys : List String) :
    readLines (xs ++ ys) = readLines xs ++ readLines ys :=
  List.filterMap_append

theorem readLines_singleton {l : String} {line : Line} (h : readLine l.toList = some line) :
    readLines [l] = [line] :=
  List.filterMap_cons_some h

theorem Block.Legible.readLines_lines {b : Block} (h : b.Legible) :
    readLines (b.lines s) = b.outline.lines := by
  have hvalues : readLines (b.values.map (Value.line s)) = b.outline.values.map .value := by
    rw [readLines, List.filterMap_map, Block.outline, List.map_map]
    exact List.filterMap_eq_map_iff_forall_eq_some.mpr fun v hv => (h.values v hv).readLine_line s
  rw [Block.lines, readLines_append, readLines_append, hvalues,
    readLines_singleton (readLine_labelLine b), readLines_singleton (readLine_exitLine b)]
  rfl

theorem Func.Legible.readLines_lines {f : Func} (h : f.Legible) :
    readLines (f.lines s) = functionLines f.outline := by
  have hblocks : readLines (f.blocks.flatMap (Block.lines s)) =
      f.outline.flatMap BlockOutline.lines := by
    rw [readLines, List.filterMap_flatMap, Func.outline, List.flatMap_map]
    exact List.flatMap_congr fun b hb => (h.blocks b hb).readLines_lines s
  have hclose : readLines ["\x7d"] = [.close] := readLines_singleton rfl
  rw [Func.lines, readLines_append, readLines_append, hblocks, hclose,
    readLines_singleton (readLine_headLine s f)]
  rfl

/-- The outline of a module is read from its text. -/
theorem Module.Legible.readOutline_text {m : Module} (h : m.Legible) :
    readOutline (m.text s).toList = m.outline := by
  have hlines : readLines (m.lines s) = m.outline.flatMap functionLines := by
    rw [readLines, Module.lines, List.filterMap_flatMap, Module.outline, List.flatMap_map]
    exact List.flatMap_congr fun f hf => (h f hf).readLines_lines s
  have hread : ((m.text s).toList.splitOn '\n').filterMap readLine = readLines (m.lines s) := by
    rw [h.unbroken.splitOn_text s, List.filterMap_cons_none rfl, List.filterMap_map]
    rfl
  rw [readOutline, hread, hlines, gather_flatMap]

end Outlines

end CodeDump.Ir

namespace CodeDump.Buffer

theorem text_of_putModule {mem : Memory} {s : Settings} {m : Ir.Module} {b : Buffer}
    {out : String} (hdone : (putModule mem s m b).fault = none)
    (hout : (putModule mem s m b).buffer.text = b.text ++ out) : m.text s = out := by
  rw [buffer_of_putModule hdone] at hout
  exact (String.append_right_inj _).mp hout

/-- Two legible modules that are listed by the same text, whatever the settings, the memory and
the buffers were, have the same functions with the same blocks: labels, predecessors, comments,
exits and values. -/
theorem outline_eq_of_putModule {mem mem' : Memory} {s s' : Settings} {m m' : Ir.Module}
    {b b' : Buffer} {out : String} (hm : m.Legible) (hm' : m'.Legible)
    (hdone : (putModule mem s m b).fault = none)
    (hdone' : (putModule mem' s' m' b').fault = none)
    (hout : (putModule mem s m b).buffer.text = b.text ++ out)
    (hout' : (putModule mem' s' m' b').buffer.text = b'.text ++ out) :
    m.outline = m'.outline := by
  calc m.outline
    _ = Ir.readOutline (m.text s).toList := (hm.readOutline_text s).symm
    _ = Ir.readOutline out.toList := by rw [text_of_putModule hdone hout]
    _ = Ir.readOutline (m'.text s').toList := by rw [text_of_putModule hdone' hout']
    _ = m'.outline := hm'.readOutline_text s'

/-- A block with three predecessors, the last of which is not shown. -/
def merge (last : Ir.BlockId) : Ir.Module :=
  ⟨[⟨"f", none, [⟨4, [1, 2, last], .branch 7 5 6, some "# b9: <- b8",
    [{ Ir.Value.arg 7 (.unresolved "T # [3]") 12 with uses := 3 }]⟩]⟩]⟩

theorem legible_merge (last : Ir.BlockId) : (merge last).Legible := by
  have hname : Free '\n' "f" := by decide
  refine List.forall_mem_singleton.mpr
    { name := hname
      params := fun d hd => nomatch hd
      result := fun d hd => nomatch hd
      blocks := List.forall_mem_singleton.mpr { comment := ?_, values := ?_ } }
  · intro c hc
    cases hc
    decide
  · exact List.forall_mem_singleton.mpr
      { names := List.forall_mem_singleton.mpr (by decide)
        equals := List.forall_mem_singleton.mpr (by decide)
        comment := fun c hc => nomatch hc
        input := fun loc hloc => nomatch hloc }

theorem outline_eq_merge :
    (merge 3).Legible ∧ (merge 300).Legible ∧
      putModule .standard .default (merge 3) .empty =
        putModule .standard .default (merge 300) .empty ∧
      (merge 3).outline = (merge 300).outline := by
  have hsame : putModule .standard .default (merge 3) .empty =
      putModule .standard .default (merge 300) .empty := by decide +kernel
  have hdone : (putModule .standard .default (merge 3) .empty).fault = none := by decide +kernel
  have hout : (putModule .standard .default (merge 3) .empty).buffer.text =
      Buffer.empty.text ++ (merge 3).text .default := by decide +kernel
  exact ⟨legible_merge 3, legible_merge 300, hsame,
    outline_eq_of_putModule (legible_merge 3) (legible_merge 300) hdone (hsame ▸ hdone) hout
      (hsame ▸ hout)⟩

end CodeDump.Buffer
