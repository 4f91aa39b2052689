import CodeDump.Print.Dump

/-!
# Shallower dumps only leave out

A dump at a smaller depth is a dump at a larger one in which some parts are missing, each with a
placeholder in its place. `Piece.Shortens` says this of two runs, piece by piece: texts and line
starts of the shallower run stand in the deeper one in the same order, and where it has a
placeholder the deeper run may have any part.

The seven places where a depth cuts something off differ in what they show at depth one and in
whether their parts are printed at the same depth or at one less. They all come down to
`Shortens.collapse` or to a text in front of a placeholder.
-/

namespace CodeDump

namespace Piece

/-- The characters of a text, without spaces and line feeds. -/
def ink (s : String) : List Char := s.toList.filter fun c => c != ' ' && c != '\n'

/-- The ink of the text that a run shows apart from its placeholders. -/
def kept (ps : Run) : List Char := ink (layout (ps.filter fun p => !p.isElided))

/-- What may stand for a part that is left out. -/
def placeholders : List String := ["...", "struct", ""]

inductive Shortens : Run → Run → Prop
  | nil : Shortens [] []
  | text {s t : String} {ps qs : Run} (hst : ink s = ink t) (h : Shortens ps qs) :
      Shortens (.text s :: ps) (.text t :: qs)
  | line {n : Nat} {ps qs : Run} (h : Shortens ps qs) : Shortens (.line n :: ps) (.line n :: qs)
  | cut {t : String} (ht : t ∈ placeholders) (part : Run) {ps qs : Run} (h : Shortens ps qs) :
      Shortens (.elided t :: ps) (part ++ qs)

namespace Shortens

theorem append {ps qs ps' qs' : Run} (h : Shortens ps qs) (h' : Shortens ps' qs') :
    Shortens (ps ++ ps') (qs ++ qs') := by
  induction h with
  | nil => exact h'
  | text hst _ ih => exact .text hst ih
  | line _ ih => exact .line ih
  | cut ht part _ ih =>
    rw [List.append_assoc]
    exact .cut ht part ih

/-- A run without placeholders shortens itself. -/
theorem same {ps : Run} (h : ps.all (fun p => !p.isElided) = true) : Shortens ps ps := by
  induction ps with
  | nil => exact .nil
  | cons p ps ih =>
    rw [List.all_cons, Bool.and_eq_true] at h
    cases p with
    | text s => exact .text rfl (ih h.2)
    | line n => exact .line (ih h.2)
    | elided s => cases h.1

theorem of_cut {t : String} (ht : t ∈ placeholders) (part : Run) : Shortens [.elided t] part := by
  have h := cut ht part nil
  rwa [List.append_nil] at h

/-- A part that is left out at depth one. -/
theorem collapse {d e : Nat} (h : d ≤ e) {t t' : String} (ht : t ∈ placeholders) {ps qs : Run}
    (hps : ¬ d ≤ 1 → Shortens ps qs) :
    Shortens (if d ≤ 1 then [.elided t] else ps) (if e ≤ 1 then [.elided t'] else qs) := by
  by_cases hd : d ≤ 1
  · rw [if_pos hd]
    exact of_cut ht _
  · rw [if_neg hd, if_neg (by omega)]
    exact hps hd

theorem elided_mem {ps qs : Run} (h : Shortens ps qs) {t : String} (ht : .elided t ∈ ps) :
    t ∈ placeholders := by
  induction h with
  | nil => cases ht
  | text _ _ ih => exact ih ((List.mem_cons.mp ht).resolve_left Piece.noConfusion)
  | line _ ih => exact ih ((List.mem_cons.mp ht).resolve_left Piece.noConfusion)
  | cut hcut _ _ ih =>
    rcases List.mem_cons.mp ht with heq | ht
    · cases heq
      exact hcut
    · exact ih ht

end Shortens

/-- The ink of a piece, which does not depend on what went before. -/
def mark : Piece → List Char
  | text s => ink s
  | elided s => ink s
  | line _ => []

theorem ink_append (s t : String) : ink (s ++ t) = ink s ++ ink t := by
  rw [ink, String.toList_append, List.filter_append]
  rfl

theorem ink_join (ss : List String) : ink (String.join ss) = ss.flatMap ink := by
  induction ss with
  | nil => rfl
  | cons s ss ih => rw [String.join_cons, ink_append, ih, List.flatMap_cons]

theorem ink_shown (started : Bool) (p : Piece) : ink (p.shown started) = p.mark := by
  rw [shown, ink_join]
  cases p with
  | text s => exact List.append_nil _
  | elided s => exact List.append_nil _
  | line n =>
    have hspace : ink " " = [] := by decide
    have hbreak : ink "\n" = [] := by decide
    have hspaces : (List.replicate n " ").flatMap ink = [] := by
      rw [List.flatMap_eq_nil_iff]
      intro x hx
      rw [List.eq_of_mem_replicate hx, hspace]
    rw [writes, List.flatMap_append, hspaces, List.append_nil]
    cases started with
    | true => rw [if_pos rfl, List.flatMap_singleton, hbreak, mark]
    | false => rfl

theorem ink_layoutFrom (started : Bool) (ps : Run) :
    ink (layoutFrom started ps) = ps.flatMap mark := by
  induction ps generalizing started with
  | nil => rfl
  | cons p ps ih => rw [layoutFrom_cons, ink_append, ink_shown, ih, List.flatMap_cons]

theorem kept_eq (ps : Run) : kept ps = (ps.filter fun p => !p.isElided).flatMap mark :=
  ink_layoutFrom false _

theorem kept_append (ps qs : Run) : kept (ps ++ qs) = kept ps ++ kept qs := by
  simp only [kept_eq, List.filter_append, List.flatMap_append]

theorem kept_text_cons (s : String) (ps : Run) : kept (.text s :: ps) = ink s ++ kept ps := by
  simp only [kept_eq, isElided, Bool.not_false, List.filter_cons_of_pos, List.flatMap_cons, mark]

theorem kept_line_cons (n : Nat) (ps : Run) : kept (.line n :: ps) = kept ps := by
  simp only [kept_eq, isElided, Bool.not_false, List.filter_cons_of_pos, List.flatMap_cons, mark,
    List.nil_append]

theorem kept_elided_cons (t : String) (ps : Run) : kept (.elided t :: ps) = kept ps := by
  simp only [kept_eq, isElided, Bool.not_true, Bool.false_eq_true, not_false_eq_true,
    List.filter_cons_of_neg]

theorem Shortens.kept_sublist {ps qs : Run} (h : Shortens ps qs) :
    (kept ps).Sublist (kept qs) := by
  induction h with
  | nil => exact List.Sublist.refl _
  | text hst _ ih =>
    rw [kept_text_cons, kept_text_cons, hst]
    exact ih.append_left _
  | line _ ih =>
    rw [kept_line_cons, kept_line_cons]
    exact ih
  | cut _ part _ ih =>
    rw [kept_elided_cons, kept_append]
    exact ih.trans (List.sublist_append_right _ _)

end Piece

open Piece (Shortens)

section Depths

variable (s : Settings)

mutual

theorem Ty.shortens_pieces {d e : Nat} (hd : 1 ≤ d) (h : d ≤ e) (level : Nat) (t : Ty) :
    Shortens (t.pieces s level d) (t.pieces s level e) := by
  have hd0 : d ≠ 0 := by omega
  have he0 : e ≠ 0 := by omega
  match t with
  | .prim _ | .unknown | .unresolved _ =>
    simp only [Ty.pieces, if_neg hd0, if_neg he0]
    exact .same rfl
  | .struct name fields =>
    have hfields := Binding.shortens_fieldLines hd h (level + 1) fields
    simp only [Ty.pieces, if_neg hd0, if_neg he0]
    refine .append (.same (by cases name <;> rfl)) (.collapse h ?_ ?_)
    · cases name <;> simp [Piece.placeholders]
    · intro _
      have hopen : Shortens ((if name.isSome then [.text " "] else []) ++ [.text "\x7b"])
          ((if name.isSome then [.text " "] else []) ++ [.text "\x7b"]) :=
        .same (by cases name <;> rfl)
      have hclose : Shortens (if fields.isEmpty then [] else [s.lineAt level])
          (if fields.isEmpty then [] else [s.lineAt level]) := .same (by cases fields <;> rfl)
      exact ((hopen.append hfields).append hclose).append (.same rfl)
  | .func params result =>
    have hparams := Binding.shortens_grouped hd h level params
    have hresult := Ty.shortens_pieces hd h level result
    simp only [Ty.pieces, if_neg hd0, if_neg he0]
    exact (((Shortens.same rfl).append hparams).append (.same rfl)).append hresult
  | .array elem length =>
    have helem := Ty.shortens_pieces hd h level elem
    simp only [Ty.pieces, if_neg hd0, if_neg he0]
    refine (((Shortens.same rfl).append helem).append (.same ?_)).append (.same rfl)
    by_cases hl : length = 0
    · rw [if_pos hl]
      rfl
    · rw [if_neg hl]
      rfl
  | .slice elem isMut =>
    have helem := Ty.shortens_pieces hd h level elem
    simp only [Ty.pieces, if_neg hd0, if_neg he0]
    exact ((Shortens.same rfl).append helem).append (.same rfl)
  | .pointer elem | .reference elem _ | .optional elem =>
    have helem := Ty.shortens_pieces hd h level elem
    simp only [Ty.pieces, if_neg hd0, if_neg he0]
    exact (Shortens.same rfl).append helem
  | .named name elem =>
    have helem := Ty.shortens_pieces hd h level elem
    simp only [Ty.pieces, if_neg hd0, if_neg he0]
    refine (Shortens.same rfl).append (.collapse h (by decide) ?_)
    intro _
    exact (Shortens.same rfl).append helem
termination_by structural t

theorem TypeRef.shortens_pieces {d e : Nat} (hd : 1 ≤ d) (h : d ≤ e) (level : Nat) (r : TypeRef) :
    Shortens (r.pieces s level d) (r.pieces s level e) := by
  match r with
  | ⟨_, t⟩ => exact Ty.shortens_pieces hd h level t
termination_by structural r

theorem TypeRef.shortens_piecesOr {d e : Nat} (hd : 1 ≤ d) (h : d ≤ e) (level : Nat)
    (r : Option TypeRef) :
    Shortens (TypeRef.piecesOr s level d r) (TypeRef.piecesOr s level e r) := by
  match r with
  | none =>
    simp only [TypeRef.piecesOr, if_neg (show d ≠ 0 by omega), if_neg (show e ≠ 0 by omega)]
    exact .same rfl
  | some r => exact TypeRef.shortens_pieces hd h level r
termination_by structural r

theorem Binding.shortens_pieces {d e : Nat} (hd : 1 ≤ d) (h : d ≤ e) (level : Nat) (b : Binding) :
    Shortens (b.pieces s level d) (b.pieces s level e) := by
  match b with
  | ⟨name, ty, none⟩ =>
    have hty := TypeRef.shortens_piecesOr hd h level ty
    simp only [Binding.pieces]
    exact ((Shortens.same rfl).append hty).append .nil
  | ⟨name, ty, some value⟩ =>
    have hty := TypeRef.shortens_piecesOr hd h level ty
    have hvalue := Node.shortens_pieces hd h level value
    simp only [Binding.pieces]
    refine ((Shortens.same rfl).append hty).append (.collapse h (by decide) ?_)
    intro _
    exact (Shortens.same rfl).append hvalue
termination_by structural b

theorem Binding.shortens_fieldPieces {d e : Nat} (hd : 1 ≤ d) (h : d ≤ e) (level : Nat)
    (b : Binding) : Shortens (b.fieldPieces s level d) (b.fieldPieces s level e) := by
  match b with
  | ⟨name, ty, none⟩ =>
    have hty := TypeRef.shortens_piecesOr hd h level ty
    simp only [Binding.fieldPieces]
    exact ((Shortens.same rfl).append hty).append .nil
  | ⟨name, ty, some value⟩ =>
    have hty := TypeRef.shortens_piecesOr hd h level ty
    have hvalue := Node.shortens_pieces hd h level value
    simp only [Binding.fieldPieces]
    exact ((Shortens.same rfl).append hty).append ((Shortens.same rfl).append hvalue)
termination_by structural b

theorem Binding.shortens_fieldLines {d e : Nat} (hd : 1 ≤ d) (h : d ≤ e) (level : Nat)
    (bs : List Binding) :
    Shortens (Binding.fieldLines s level d bs) (Binding.fieldLines s level e bs) := by
  match bs with
  | [] => exact .nil
  | b :: rest =>
    have hb := Binding.shortens_fieldPieces hd h level b
    have hrest := Binding.shortens_fieldLines hd h level rest
    simp only [Binding.fieldLines]
    exact ((Shortens.same rfl).append hb).append hrest
termination_by structural bs

theorem Binding.shortens_groupedType {d e : Nat} (hd : 1 ≤ d) (h : d ≤ e) (level : Nat)
    (next : Option Binding) (b : Binding) :
    Shortens (Binding.groupedType s level d next b) (Binding.groupedType s level e next b) := by
  match b with
  | ⟨name, ty, init⟩ =>
    have hty := TypeRef.shortens_piecesOr hd h level ty
    simp only [Binding.groupedType]
    split
    · exact .nil
    · exact (Shortens.same rfl).append hty
termination_by structural b

theorem Binding.shortens_grouped {d e : Nat} (hd : 1 ≤ d) (h : d ≤ e) (level : Nat)
    (bs : List Binding) :
    Shortens (Binding.grouped s level d bs) (Binding.grouped s level e bs) := by
  match bs with
  | [] => exact .nil
  | b :: rest =>
    have hb := Binding.shortens_groupedType hd h level rest.head? b
    have hrest := Binding.shortens_grouped hd h level rest
    simp only [Binding.grouped]
    exact (((Shortens.same rfl).append hb).append (.same (by cases rest <;> rfl))).append hrest
termination_by structural bs

theorem Binding.shortens_listed {d e : Nat} (hd : 1 ≤ d) (h : d ≤ e) (level : Nat)
    (bs : List Binding) :
    Shortens (Binding.listed s level d bs) (Binding.listed s level e bs) := by
  match bs with
  | [] => exact .nil
  | b :: rest =>
    have hb := Binding.shortens_pieces hd h level b
    have hrest := Binding.shortens_listed hd h level rest
    simp only [Binding.listed]
    exact (hb.append (.same (by cases rest <;> rfl))).append hrest
termination_by structural bs

theorem FunDef.shortens_pieces {d e : Nat} (hd : 1 ≤ d) (h : d ≤ e) (level : Nat) (f : FunDef) :
    Shortens (f.pieces s level d) (f.pieces s level e) := by
  match f with
  | ⟨name, params, result, none⟩ =>
    have hparams := Binding.shortens_listed hd h level params
    have hresult := Ty.shortens_pieces hd h level result
    simp only [FunDef.pieces]
    exact ((((Shortens.same rfl).append hparams).append (.same rfl)).append hresult).append .nil
  | ⟨name, params, result, some body⟩ =>
    have hparams := Binding.shortens_listed hd h level params
    have hresult := Ty.shortens_pieces hd h level result
    have hbody := Node.shortens_pieces hd h level body
    simp only [FunDef.pieces]
    exact ((((Shortens.same rfl).append hparams).append (.same rfl)).append hresult).append
      ((Shortens.same rfl).append hbody)
termination_by structural f

theorem Node.shortens_pieces {d e : Nat} (hd : 1 ≤ d) (h : d ≤ e) (level : Nat) (n : Node) :
    Shortens (n.pieces s level d) (n.pieces s level e) := by
  have hd0 : d ≠ 0 := by omega
  have he0 : e ≠ 0 := by omega
  match n with
  | .bad | .comment _ | .ident _ | .boolLit _ | .intLit _ _ | .floatLit _ | .strLit _ =>
    simp only [Node.pieces, if_neg hd0, if_neg he0]
    exact .same rfl
  | .unit items =>
    simp only [Node.pieces, if_neg hd0, if_neg he0]
    by_cases hc : d ≤ 1 ∧ ¬items.isEmpty
    · rw [if_pos hc]
      exact .of_cut (by decide) _
    · rw [if_neg hc]
      match items with
      | [] => simpa [Node.lines] using Shortens.nil
      | n :: rest =>
        have hd1 : ¬ d ≤ 1 := fun hd1 => hc ⟨hd1, by simp⟩
        have hlines := Node.shortens_lines (d := d - 1) (e := e - 1) (by omega) (by omega) level
          (n :: rest)
        rw [if_neg (by omega)]
        exact hlines
  | .typeDef t =>
    have ht := Ty.shortens_pieces hd h level t
    simp only [Node.pieces, if_neg hd0, if_neg he0]
    exact (Shortens.same rfl).append ht
  | .typeNode t =>
    have ht := Ty.shortens_pieces hd h level t
    simp only [Node.pieces, if_neg hd0, if_neg he0]
    exact ht
  | .binding role b =>
    have hb := Binding.shortens_pieces hd h level b
    simp only [Node.pieces, if_neg hd0, if_neg he0]
    exact (Shortens.same (by cases role <;> rfl)).append hb
  | .func f =>
    have hf := FunDef.shortens_pieces hd h level f
    simp only [Node.pieces, if_neg hd0, if_neg he0]
    exact hf
  | .block items =>
    simp only [Node.pieces, if_neg hd0, if_neg he0]
    refine ((Shortens.same rfl).append ?_).append (.same rfl)
    split
    · exact .nil
    · refine .collapse h (by decide) ?_
      intro hd1
      have hlines := Node.shortens_lines (d := d - 1) (e := e - 1) (by omega) (by omega)
        (level + 1) items
      exact hlines.append (.same rfl)
  | .call callee args =>
    have hcallee := Node.shortens_pieces hd h level callee
    have hargs := Node.shortens_listed hd h level args
    simp only [Node.pieces, if_neg hd0, if_neg he0]
    exact ((hcallee.append (.same rfl)).append hargs).append (.same rfl)
  | .construct t arg =>
    have ht := Ty.shortens_pieces hd h level t
    have harg := Node.shortens_piecesOr hd h level arg
    simp only [Node.pieces, if_neg hd0, if_neg he0]
    exact ((ht.append (.same rfl)).append harg).append (.same rfl)
  | .member base name =>
    have hbase := Node.shortens_pieces hd h level base
    simp only [Node.pieces, if_neg hd0, if_neg he0]
    exact hbase.append (.same rfl)
  | .branch cond yes none =>
    have hcond := Node.shortens_pieces hd h level cond
    have hyes := Node.shortens_pieces hd h level yes
    simp only [Node.pieces, if_neg hd0, if_neg he0]
    exact ((((Shortens.same rfl).append hcond).append (.same rfl)).append hyes).append .nil
  | .branch cond yes (some no) =>
    have hcond := Node.shortens_pieces hd h level cond
    have hyes := Node.shortens_pieces hd h level yes
    have hno := Node.shortens_pieces hd h level no
    simp only [Node.pieces, if_neg hd0, if_neg he0]
    exact ((((Shortens.same rfl).append hcond).append (.same rfl)).append hyes).append
      ((Shortens.same rfl).append hno)
  | .loop start cond step body =>
    simp only [Node.pieces, if_neg hd0, if_neg he0]
    by_cases hd1 : d ≤ 1
    · rw [if_pos hd1]
      by_cases he1 : e ≤ 1
      · rw [if_pos he1]
        exact .text rfl (.of_cut (by decide) _)
      · rw [if_neg he1]
        simp only [List.append_assoc, List.singleton_append]
        exact .text (by decide) (.of_cut (by decide) _)
    · have hd' : 1 ≤ d - 1 := by omega
      have h' : d - 1 ≤ e - 1 := by omega
      have hstart := Node.shortens_piecesOr hd' h' level start
      have hcond := Node.shortens_piecesOr hd' h' level cond
      have hstep := Node.shortens_piecesOr hd' h' level step
      have hbody := Node.shortens_pieces hd' h' level body
      rw [if_neg hd1, if_neg (show ¬ e ≤ 1 by omega)]
      refine (((Shortens.same rfl).append ?_).append (.same rfl)).append hbody
      split
      · refine ((((Shortens.append ?_ (.same rfl)).append hcond).append (.same rfl)).append ?_)
        · split
          · exact hstart
          · exact .nil
        · split
          · cases s.loopStep with
            | start => exact hstart
            | stop => exact hstep
          · exact .nil
      · exact hcond
  | .ret none =>
    simp only [Node.pieces, if_neg hd0, if_neg he0]
    exact .same rfl
  | .ret (some value) =>
    have hvalue := Node.shortens_pieces hd h level value
    simp only [Node.pieces, if_neg hd0, if_neg he0]
    exact (Shortens.same rfl).append ((Shortens.same rfl).append hvalue)
  | .deref arg | .prefixed _ arg =>
    have harg := Node.shortens_pieces hd h level arg
    simp only [Node.pieces, if_neg hd0, if_neg he0]
    exact (Shortens.same rfl).append harg
  | .postfixed _ arg =>
    have harg := Node.shortens_pieces hd h level arg
    simp only [Node.pieces, if_neg hd0, if_neg he0]
    exact harg.append (.same rfl)
  | .assign _ left right | .binary _ left right =>
    have hleft := Node.shortens_pieces hd h level left
    have hright := Node.shortens_pieces hd h level right
    simp only [Node.pieces, if_neg hd0, if_neg he0]
    exact (hleft.append (.same rfl)).append hright
  | .arrayLit items =>
    have hitems := Node.shortens_listed hd h level items
    simp only [Node.pieces, if_neg hd0, if_neg he0]
    exact ((Shortens.same rfl).append (.collapse h (by decide) fun _ => hitems)).append (.same rfl)
termination_by structural n

theorem Node.shortens_piecesOr {d e : Nat} (hd : 1 ≤ d) (h : d ≤ e) (level : Nat)
    (n : Option Node) : Shortens (Node.piecesOr s level d n) (Node.piecesOr s level e n) := by
  match n with
  | none =>
    simp only [Node.piecesOr, if_neg (show d ≠ 0 by omega), if_neg (show e ≠ 0 by omega)]
    exact .same rfl
  | some n => exact Node.shortens_pieces hd h level n
termination_by structural n

theorem Node.shortens_lines {d e : Nat} (hd : 1 ≤ d) (h : d ≤ e) (level : Nat)
    (ns : List Node) : Shortens (Node.lines s level d ns) (Node.lines s level e ns) := by
  match ns with
  | [] => exact .nil
  | n :: rest =>
    have hn := Node.shortens_pieces hd h level n
    have hrest := Node.shortens_lines hd h level rest
    simp only [Node.lines]
    exact ((Shortens.same rfl).append hn).append hrest
termination_by structural ns

theorem Node.shortens_listed {d e : Nat} (hd : 1 ≤ d) (h : d ≤ e) (level : Nat)
    (ns : List Node) : Shortens (Node.listed s level d ns) (Node.listed s level e ns) := by
  match ns with
  | [] => exact .nil
  | n :: rest =>
    have hn := Node.shortens_pieces hd h level n
    have hrest := Node.shortens_listed hd h level rest
    simp only [Node.listed]
    exact (hn.append (.same (by cases rest <;> rfl))).append hrest
termination_by structural ns

end

end Depths

/-- At depths `d ≤ e` the shallower dump of a node keeps nothing but what the deeper one keeps,
in the same order, once spaces and line breaks are dropped; and what it has beside that are
placeholders. -/
theorem Node.kept_run_sublist (s : Settings) (n : Node) {d e : Nat} (hd : 1 ≤ d) (h : d ≤ e) :
    (Piece.kept (n.run s d)).Sublist (Piece.kept (n.run s e)) ∧
      ∀ t, .elided t ∈ n.run s d → t ∈ Piece.placeholders := by
  have hshort : Shortens (n.run s d) (n.run s e) := by
    rw [Node.run, Node.run, Nat.max_eq_left hd, Nat.max_eq_left (Nat.le_trans hd h)]
    exact Node.shortens_pieces s hd h 0 n
  exact ⟨hshort.kept_sublist, fun t ht => hshort.elided_mem ht⟩

/-- A loop whose body is a block, without and with its parts. -/
theorem Node.kept_run_sublist_loop :
    let n : Node := .block [.loop none (some (.ident "x y")) none (.block [.bad])]
    Piece.layout (n.run .default 2) = "\x7b\n  for\n\x7d" ∧
      Piece.layout (n.run .default 3) = "\x7b\n  for x y \x7b...\x7d\n\x7d" ∧
      "\x7bfor\x7d".toList.Sublist "\x7bforxy\x7b\x7d\x7d".toList := by
  intro n
  have hkept : Piece.kept (n.run .default 2) = "\x7bfor\x7d".toList := by decide +kernel
  have hkept' : Piece.kept (n.run .default 3) = "\x7bforxy\x7b\x7d\x7d".toList := by
    decide +kernel
  refine ⟨by decide +kernel, by decide +kernel, ?_⟩
  rw [← hkept, ← hkept']
  exact (Node.kept_run_sublist .default n (by decide) (by decide)).1

end CodeDump
