import CodeDump.Proofs.ListingItems
import CodeDump.Proofs.SettingsFree

/-!
# Listings without memory for a window

Most of a listing is written directly; only parameters, results and the types of values are
fragments, which are fitted into a window of the size that the settings give. If the memory refuses
this window and grants all that is written directly, a listing comes to its end exactly if it has no
fragment. Otherwise it stops at the first one: the size that is reported counts what was written up
to there, although the buffer is then cut back to what it held before.

A direct write can ask for as many bytes as the window. So a memory that refuses the size of the
window, wherever it is asked for, may well end a listing without a fragment.
-/

namespace CodeDump

namespace Span

/-- The texts that a span asks room for one by one; a fragment asks for a window. -/
def texts : Span → List String
  | direct s => [s]
  | formatted texts => texts
  | fragment _ => []

def isFragment : Span → Bool
  | fragment _ => true
  | _ => false

end Span

namespace Ir

namespace Item

/-- The text of a line in front of its first fragment, and the fragment. -/
def firstFragment? (s : Settings) : Item → Option (String × Run)
  | head f =>
      f.source.map fun d =>
        match d.params with
        | [] => ("fun " ++ f.name ++ "() ", typeRun s d.result)
        | p :: _ => ("fun " ++ f.name ++ "(", paramRun s p)
  | value v => some (v.leadText, typeRun s v.ty)
  | label _ | exit _ | close => none

/-- What is put into the buffer for the line of an item. -/
def spans (s : Settings) : Item → List Span
  | head f => [.formatted ["\nfun ", f.name, "("]] ++ f.signatureSpans s
  | label b => [b.labelSpan] ++ (b.predsSpans ++ b.commentSpans)
  | value v => v.spans s
  | exit e => [e.span]
  | close => [.direct "\n\x7d"]

/-- All of some spans are written directly. -/
def Written (spans : List Span) : Prop := ∀ span ∈ spans, span.isFragment = false

variable {s : Settings} {item : Item}

theorem written_append {xs ys : List Span} (hx : Written xs) (hy : Written ys) :
    Written (xs ++ ys) :=
  List.forall_mem_append.mpr ⟨hx, hy⟩

theorem written_label (b : Block) : Written ((label b).spans s) := by
  have hpreds : Written b.predsSpans := by
    unfold Block.predsSpans
    split <;> simp [Written, Span.isFragment]
  have hcomment : Written b.commentSpans := by
    unfold Block.commentSpans
    cases b.comment <;> simp [Written, Span.isFragment]
  exact written_append (List.forall_mem_singleton.mpr rfl) (written_append hpreds hcomment)

theorem written_exit (e : Exit) : Written ((exit e).spans s) := by
  refine List.forall_mem_singleton.mpr ?_
  cases e with
  | goto next => cases next <;> rfl
  | first _ _ _ => rfl
  | branch _ _ _ => rfl
  | ret value => cases value <;> rfl

theorem spans_of_none (h : item.firstFragment? s = none) : Written (item.spans s) := by
  cases item with
  | head f =>
    have hsource : f.source = none := Option.map_eq_none_iff.mp h
    rw [spans, Func.signatureSpans, hsource]
    simp [Written, Span.isFragment]
  | label b => exact written_label b
  | value v => cases h
  | exit e => exact written_exit e
  | close => exact List.forall_mem_singleton.mpr rfl

theorem exists_paramSpans_cons (s : Settings) (p : Binding) (params : List Binding) :
    ∃ rest, Func.paramSpans s (p :: params) = .fragment (paramRun s p) :: rest := by
  cases params with
  | nil => exact ⟨[], rfl⟩
  | cons q params => exact ⟨.direct ", " :: Func.paramSpans s (q :: params), rfl⟩

/-- The first fragment of an item is the first one among its spans. -/
theorem spans_of_some {lead : String} {run : Run} (h : item.firstFragment? s = some (lead, run)) :
    ∃ front rest, item.spans s = front ++ .fragment run :: rest ∧ Written front ∧
      String.join (front.map Span.text) = "\n" ++ lead := by
  cases item with
  | head f =>
    obtain ⟨d, hsource, hfragment⟩ := Option.map_eq_some_iff.mp h
    have hspans : (head f).spans s = .formatted ["\nfun ", f.name, "("] ::
        (Func.paramSpans s d.params ++
          [.direct ") ", .fragment (typeRun s d.result), .direct " \x7b"]) := by
      rw [spans, Func.signatureSpans, hsource]
      rfl
    rw [hspans]
    cases hparams : d.params with
    | nil =>
      rw [hparams, Prod.mk.injEq] at hfragment
      obtain ⟨rfl, rfl⟩ := hfragment
      refine ⟨[.formatted ["\nfun ", f.name, "("], .direct ") "], [.direct " \x7b"], rfl,
        by simp [Written, Span.isFragment], ?_⟩
      have hclose : "() " = "(" ++ ") " := rfl
      rw [List.map_cons, String.join_cons, f.text_headSpan, List.map_singleton, join_singleton,
        Span.text_direct, hclose]
      simp only [String.append_assoc]
    | cons p params =>
      rw [hparams, Prod.mk.injEq] at hfragment
      obtain ⟨rfl, rfl⟩ := hfragment
      obtain ⟨rest, hrest⟩ := exists_paramSpans_cons s p params
      rw [hrest]
      exact ⟨[.formatted ["\nfun ", f.name, "("]], _, rfl, List.forall_mem_singleton.mpr rfl,
        (join_singleton _).trans f.text_headSpan⟩
  | label b => cases h
  | value v =>
    obtain ⟨rfl, rfl⟩ := Prod.mk.inj (Option.some.inj h)
    exact ⟨[v.leadSpan], _, rfl, List.forall_mem_singleton.mpr rfl,
      (join_singleton _).trans v.text_leadSpan⟩
  | exit e => cases h
  | close => cases h

/-- The spans of an item are its line behind a line feed. -/
theorem join_spans (s : Settings) (item : Item) :
    String.join ((item.spans s).map Span.text) = "\n" ++ item.line s := by
  cases item with
  | head f =>
    rw [spans, List.map_append, String.join_append, List.map_singleton, join_singleton,
      f.text_headSpan, line, Func.headLine, String.append_assoc]
  | label b =>
    have htexts : (b.predsSpans ++ b.commentSpans).map Span.text = b.predsTexts ++ b.commentTexts :=
      List.map_append
    rw [spans, List.map_append, String.join_append, List.map_singleton, join_singleton,
      b.text_labelSpan, htexts, line, Block.labelLine, String.append_assoc]
  | value v =>
    rw [spans, Value.spans, List.map_append, String.join_append, List.map_cons, List.map_singleton,
      String.join_cons, join_singleton, v.text_leadSpan, Span.text_fragment, line, Value.line,
      Value.restTexts]
    simp only [String.append_assoc]
  | exit e =>
    have hindent : "\n  " ++ e.text = "\n" ++ ("  " ++ e.text) := by
      rw [← String.append_assoc]
      rfl
    exact (join_singleton _).trans (e.text_span.trans hindent)
  | close => rfl

theorem join_flatMap_spans (s : Settings) (items : List Item) :
    String.join ((items.flatMap (spans s)).map Span.text) = listing s items := by
  induction items with
  | nil => rfl
  | cons item items ih =>
    rw [List.flatMap_cons, List.map_append, String.join_append, join_spans, ih, listing_cons]

end Item

section Items

variable (s : Settings)

theorem Block.spans_eq_items (b : Block) : b.spans s = b.items.flatMap (Item.spans s) := by
  rw [Block.spans, Block.items, List.flatMap_append, List.flatMap_append, List.flatMap_singleton,
    List.flatMap_singleton, List.flatMap_map]
  rfl

theorem Func.spans_eq_items (f : Func) : f.spans s = f.items.flatMap (Item.spans s) := by
  rw [Func.spans, Func.items, List.flatMap_append, List.flatMap_append, List.flatMap_singleton,
    List.flatMap_singleton, List.flatMap_assoc]
  simp only [← Block.spans_eq_items s]
  rfl

theorem Module.spans_eq_items (m : Module) : m.spans s = m.items.flatMap (Item.spans s) := by
  rw [Module.spans, Module.items, List.flatMap_assoc]
  simp only [← Func.spans_eq_items s]

variable {s}

theorem written_of_forall_none {items : List Item} (h : ∀ i ∈ items, i.firstFragment? s = none) :
    Item.Written (items.flatMap (Item.spans s)) := by
  intro span hspan
  obtain ⟨item, hitem, hspan⟩ := List.mem_flatMap.mp hspan
  exact Item.spans_of_none (h item hitem) span hspan

end Items

/-- In the listing of a module, `front` stands before the first fragment: whole lines without any,
and the start of the line that holds the fragment. -/
structure FirstFragment (s : Settings) (m : Module) (front : String) (run : Run) (rest : String) :
    Prop where
  lines : ∃ above item below lead, m.items = above ++ item :: below ∧
    (∀ i ∈ above, i.firstFragment? s = none) ∧ item.firstFragment? s = some (lead, run) ∧
    front = Item.listing s above ++ "\n" ++ lead
  listing : m.listing = front ++ Piece.layout run ++ rest

/-- Before the first fragment everything is written directly. -/
theorem FirstFragment.spans_eq {s : Settings} {m : Module} {front rest : String} {run : Run}
    (h : FirstFragment s m front run rest) :
    ∃ written more, m.spans s = written ++ .fragment run :: more ∧ Item.Written written ∧
      String.join (written.map Span.text) = front := by
  obtain ⟨above, item, below, lead, hitems, habove, hitem, rfl⟩ := h.lines
  obtain ⟨written, more, hspans, hwritten, hjoin⟩ := Item.spans_of_some hitem
  refine ⟨above.flatMap (Item.spans s) ++ written, more ++ below.flatMap (Item.spans s), ?_,
    Item.written_append (written_of_forall_none habove) hwritten, ?_⟩
  · rw [m.spans_eq_items s, hitems, List.flatMap_append, List.flatMap_cons, hspans]
    simp only [List.append_assoc, List.cons_append]
  · rw [List.map_append, String.join_append, Item.join_flatMap_spans, hjoin, String.append_assoc]

end Ir

namespace Buffer

section Refused

variable {mem : Memory} (guess : Nat) {low high : Nat}

end Refused

section Listing

variable {mem : Memory} {s : Settings} {m : Ir.Module} {b : Buffer}

end Listing

end Buffer

end CodeDump
