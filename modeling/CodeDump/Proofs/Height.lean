import Mathlib.Order.MinMax
import CodeDump.Print.Dump

/-!
# The depth that shows everything

Every tree has a height: the depth from which on nothing of it is left out. The members of units
and blocks and the parts of loops are printed one level shallower than their parent, so they count
one more. Array literals, structs, named types and initializers only ask for depth two, whatever is
in them. All other forms are as high as the highest of the parts that they print.

From its height on, a tree is one and the same run, without a placeholder.
-/

namespace CodeDump

mutual

def Ty.height (t : Ty) : Nat :=
  match t with
  | .prim _ | .unknown | .unresolved _ => 1
  | .struct _ fields => max 2 (Binding.heights fields)
  | .func params result => max (Binding.groupedHeight params) result.height
  | .array elem _ | .slice elem _ | .pointer elem | .reference elem _ | .optional elem =>
      elem.height
  | .named _ elem => max 2 elem.height
termination_by structural t

def TypeRef.height (r : TypeRef) : Nat :=
  match r with
  | ⟨_, t⟩ => t.height
termination_by structural r

def TypeRef.heightOr (r : Option TypeRef) : Nat :=
  match r with
  | none => 1
  | some r => r.height
termination_by structural r

def Binding.height (b : Binding) : Nat :=
  match b with
  | ⟨_, ty, none⟩ => TypeRef.heightOr ty
  | ⟨_, ty, some value⟩ => max 2 (max (TypeRef.heightOr ty) value.height)
termination_by structural b

def Binding.heights (bs : List Binding) : Nat :=
  match bs with
  | [] => 1
  | b :: rest => max b.height (Binding.heights rest)
termination_by structural bs

/-- The height of what a parameter of a function type shows behind its name. -/
def Binding.typeHeight (next : Option Binding) (b : Binding) : Nat :=
  match b with
  | ⟨name, ty, init⟩ =>
      if next.any (Binding.sharesType ⟨name, ty, init⟩) then 1 else TypeRef.heightOr ty
termination_by structural b

def Binding.groupedHeight (bs : List Binding) : Nat :=
  match bs with
  | [] => 1
  | b :: rest => max (b.typeHeight rest.head?) (Binding.groupedHeight rest)
termination_by structural bs

def FunDef.height (f : FunDef) : Nat :=
  match f with
  | ⟨_, params, result, body⟩ =>
      max (Binding.heights params) (max result.height (Node.heightOr body))
termination_by structural f

def Node.height (n : Node) : Nat :=
  match n with
  | .bad | .comment _ | .ident _ | .boolLit _ | .intLit _ _ | .floatLit _ | .strLit _ => 1
  | .unit items | .block items => if items.isEmpty then 1 else 1 + Node.heights items
  | .typeDef t | .typeNode t => t.height
  | .binding _ b => b.height
  | .func f => f.height
  | .call callee args => max callee.height (Node.heights args)
  | .construct t arg => max t.height (Node.heightOr arg)
  | .branch cond yes no => max cond.height (max yes.height (Node.heightOr no))
  | .loop start cond step body =>
      1 + max (Node.heightOr start)
        (max (Node.heightOr cond) (max (Node.heightOr step) body.height))
  | .ret value => Node.heightOr value
  | .member arg _ | .deref arg | .prefixed _ arg | .postfixed _ arg => arg.height
  | .assign _ left right | .binary _ left right => max left.height right.height
  | .arrayLit items => max 2 (Node.heights items)
termination_by structural n

/-- An absent part is not higher than a leaf. -/
def Node.heightOr (n : Option Node) : Nat :=
  match n with
  | none => 1
  | some n => n.height
termination_by structural n

def Node.heights (ns : List Node) : Nat :=
  match ns with
  | [] => 1
  | n :: rest => max n.height (Node.heights rest)
termination_by structural ns

end

theorem Binding.one_le_heights (bs : List Binding) : 1 ≤ Binding.heights bs := by
  induction bs with
  | nil => exact Nat.le_refl 1
  | cons b rest ih =>
    rw [Binding.heights]
    exact le_max_of_le_right ih

theorem Binding.one_le_groupedHeight (bs : List Binding) : 1 ≤ Binding.groupedHeight bs := by
  induction bs with
  | nil => exact Nat.le_refl 1
  | cons b rest ih =>
    rw [Binding.groupedHeight]
    exact le_max_of_le_right ih

theorem Node.one_le_heights (ns : List Node) : 1 ≤ Node.heights ns := by
  induction ns with
  | nil => exact Nat.le_refl 1
  | cons n rest ih =>
    rw [Node.heights]
    exact le_max_of_le_right ih

theorem Ty.one_le_height (t : Ty) : 1 ≤ t.height := by
  match t with
  | .prim _ | .unknown | .unresolved _ => exact Nat.le_refl 1
  | .struct _ _ | .named _ _ =>
    rw [Ty.height]
    exact le_max_of_le_left (by decide)
  | .func params _ =>
    rw [Ty.height]
    exact le_max_of_le_left (Binding.one_le_groupedHeight params)
  | .array elem _ | .slice elem _ | .pointer elem | .reference elem _ | .optional elem =>
    exact Ty.one_le_height elem
termination_by structural t

theorem TypeRef.one_le_heightOr (r : Option TypeRef) : 1 ≤ TypeRef.heightOr r := by
  cases r with
  | none => exact Nat.le_refl 1
  | some r =>
    obtain ⟨_, t⟩ := r
    exact t.one_le_height

theorem Binding.one_le_height (b : Binding) : 1 ≤ b.height := by
  obtain ⟨name, ty, init⟩ := b
  cases init with
  | none => exact TypeRef.one_le_heightOr ty
  | some value =>
    rw [Binding.height]
    exact le_max_of_le_left (by decide)

theorem Node.one_le_height (n : Node) : 1 ≤ n.height := by
  match n with
  | .bad | .comment _ | .ident _ | .boolLit _ | .intLit _ _ | .floatLit _ | .strLit _
  | .ret none => exact Nat.le_refl 1
  | .unit items | .block items =>
    rw [Node.height]
    split
    · exact Nat.le_refl 1
    · exact Nat.le_add_right 1 _
  | .typeDef t | .typeNode t => exact t.one_le_height
  | .binding _ b => exact b.one_le_height
  | .func ⟨_, params, _, _⟩ =>
    rw [Node.height, FunDef.height]
    exact le_max_of_le_left (Binding.one_le_heights params)
  | .call _ args =>
    rw [Node.height]
    exact le_max_of_le_right (Node.one_le_heights args)
  | .construct t _ =>
    rw [Node.height]
    exact le_max_of_le_left t.one_le_height
  | .branch cond _ _ =>
    rw [Node.height]
    exact le_max_of_le_left (Node.one_le_height cond)
  | .loop _ _ _ _ =>
    rw [Node.height]
    exact Nat.le_add_right 1 _
  | .member arg _ | .deref arg | .prefixed _ arg | .postfixed _ arg | .ret (some arg) =>
    exact Node.one_le_height arg
  | .assign _ left _ | .binary _ left _ =>
    rw [Node.height]
    exact le_max_of_le_left (Node.one_le_height left)
  | .arrayLit _ =>
    rw [Node.height]
    exact le_max_of_le_left (by decide)
termination_by structural n

namespace Piece

/-- One run twice, with nothing left out. -/
structure Whole (ps qs : Run) : Prop where
  eq : ps = qs
  full : ∀ p ∈ ps, p.isElided = false

namespace Whole

variable {ps qs ps' qs' : Run}

theorem nil : Whole [] [] := ⟨rfl, List.forall_mem_nil _⟩

theorem text (s : String) : Whole [.text s] [.text s] := ⟨rfl, List.forall_mem_singleton.mpr rfl⟩

theorem line (n : Nat) : Whole [.line n] [.line n] := ⟨rfl, List.forall_mem_singleton.mpr rfl⟩

theorem append (h : Whole ps qs) (h' : Whole ps' qs') : Whole (ps ++ ps') (qs ++ qs') :=
  ⟨congrArg₂ (· ++ ·) h.eq h'.eq, List.forall_mem_append.mpr ⟨h.full, h'.full⟩⟩

/-- A separator in front of all members but the first. -/
theorem separator (last : Bool) :
    Whole (if last then [] else [.text ", "]) (if last then [] else [.text ", "]) := by
  cases last with
  | true => exact nil
  | false => exact text ", "

end Whole

end Piece

open Piece (Whole)

section Depths

variable (s : Settings)

mutual

theorem Ty.whole_pieces {d e : Nat} (level : Nat) (t : Ty) (hd : t.height ≤ d)
    (he : t.height ≤ e) : Whole (t.pieces s level d) (t.pieces s level e) := by
  have hone := t.one_le_height
  have hd0 : d ≠ 0 := by omega
  have he0 : e ≠ 0 := by omega
  match t with
  | .prim p =>
    simp only [Ty.pieces, if_neg hd0, if_neg he0]
    exact .text p.keyword
  | .unknown =>
    simp only [Ty.pieces, if_neg hd0, if_neg he0]
    exact .text "unknown"
  | .unresolved name =>
    simp only [Ty.pieces, if_neg hd0, if_neg he0]
    exact .text name
  | .struct name fields =>
    simp only [Ty.height, max_le_iff] at hd he
    have hfields := Binding.whole_fieldLines (level + 1) fields hd.2 he.2
    simp only [Ty.pieces, if_neg hd0, if_neg he0, if_neg (show ¬ d ≤ 1 by omega),
      if_neg (show ¬ e ≤ 1 by omega)]
    refine .append ?_ (.append (.append (.append (.append ?_ (.text _)) hfields) ?_) (.text _))
    · cases name with
      | none => exact .nil
      | some n => exact .text n
    · split
      · exact .text " "
      · exact .nil
    · split
      · exact .nil
      · exact .line _
  | .func params result =>
    simp only [Ty.height, max_le_iff] at hd he
    have hparams := Binding.whole_grouped level params hd.1 he.1
    have hresult := Ty.whole_pieces level result hd.2 he.2
    simp only [Ty.pieces, if_neg hd0, if_neg he0]
    have hopen := (Whole.text "fun").append (.text "(")
    exact ((hopen.append hparams).append (.text ") ")).append hresult
  | .array elem length =>
    have helem := Ty.whole_pieces level elem hd he
    simp only [Ty.pieces, if_neg hd0, if_neg he0]
    refine (((Whole.text "[").append helem).append ?_).append (.text "]")
    split
    · exact .nil
    · exact .text _
  | .slice elem isMut =>
    have helem := Ty.whole_pieces level elem hd he
    simp only [Ty.pieces, if_neg hd0, if_neg he0]
    exact ((Whole.text _).append helem).append (.text "]")
  | .pointer elem | .reference elem _ | .optional elem =>
    have helem := Ty.whole_pieces level elem hd he
    simp only [Ty.pieces, if_neg hd0, if_neg he0]
    exact (Whole.text _).append helem
  | .named name elem =>
    simp only [Ty.height, max_le_iff] at hd he
    have helem := Ty.whole_pieces level elem hd.2 he.2
    simp only [Ty.pieces, if_neg hd0, if_neg he0, if_neg (show ¬ d ≤ 1 by omega),
      if_neg (show ¬ e ≤ 1 by omega)]
    exact (Whole.text name).append ((Whole.text " ").append helem)
termination_by structural t

theorem TypeRef.whole_pieces {d e : Nat} (level : Nat) (r : TypeRef) (hd : r.height ≤ d)
    (he : r.height ≤ e) : Whole (r.pieces s level d) (r.pieces s level e) := by
  match r with
  | ⟨_, t⟩ => exact Ty.whole_pieces level t hd he
termination_by structural r

theorem TypeRef.whole_piecesOr {d e : Nat} (level : Nat) (r : Option TypeRef)
    (hd : TypeRef.heightOr r ≤ d) (he : TypeRef.heightOr r ≤ e) :
    Whole (TypeRef.piecesOr s level d r) (TypeRef.piecesOr s level e r) := by
  match r with
  | none =>
    simp only [TypeRef.heightOr] at hd he
    simp only [TypeRef.piecesOr, if_neg (show d ≠ 0 by omega), if_neg (show e ≠ 0 by omega)]
    exact .text absentText
  | some r => exact TypeRef.whole_pieces level r hd he
termination_by structural r

theorem Binding.whole_pieces {d e : Nat} (level : Nat) (b : Binding) (hd : b.height ≤ d)
    (he : b.height ≤ e) : Whole (b.pieces s level d) (b.pieces s level e) := by
  match b with
  | ⟨name, ty, none⟩ =>
    have hty := TypeRef.whole_piecesOr level ty hd he
    simp only [Binding.pieces]
    exact (((Whole.text name).append (.text " ")).append hty).append .nil
  | ⟨name, ty, some value⟩ =>
    simp only [Binding.height, max_le_iff] at hd he
    have hty := TypeRef.whole_piecesOr level ty hd.2.1 he.2.1
    have hvalue := Node.whole_pieces level value hd.2.2 he.2.2
    simp only [Binding.pieces, if_neg (show ¬ d ≤ 1 by omega), if_neg (show ¬ e ≤ 1 by omega)]
    exact (((Whole.text name).append (.text " ")).append hty).append
      ((Whole.text " = ").append hvalue)
termination_by structural b

theorem Binding.whole_fieldPieces {d e : Nat} (level : Nat) (b : Binding) (hd : b.height ≤ d)
    (he : b.height ≤ e) : Whole (b.fieldPieces s level d) (b.fieldPieces s level e) := by
  match b with
  | ⟨name, ty, none⟩ =>
    have hty := TypeRef.whole_piecesOr level ty hd he
    simp only [Binding.fieldPieces]
    exact (((Whole.text name).append (.text " ")).append hty).append .nil
  | ⟨name, ty, some value⟩ =>
    simp only [Binding.height, max_le_iff] at hd he
    have hty := TypeRef.whole_piecesOr level ty hd.2.1 he.2.1
    have hvalue := Node.whole_pieces level value hd.2.2 he.2.2
    simp only [Binding.fieldPieces]
    exact (((Whole.text name).append (.text " ")).append hty).append
      ((Whole.text " = ").append hvalue)
termination_by structural b

theorem Binding.whole_fieldLines {d e : Nat} (level : Nat) (bs : List Binding)
    (hd : Binding.heights bs ≤ d) (he : Binding.heights bs ≤ e) :
    Whole (Binding.fieldLines s level d bs) (Binding.fieldLines s level e bs) := by
  match bs with
  | [] => exact .nil
  | b :: rest =>
    simp only [Binding.heights, max_le_iff] at hd he
    have hb := Binding.whole_fieldPieces level b hd.1 he.1
    have hrest := Binding.whole_fieldLines level rest hd.2 he.2
    simp only [Binding.fieldLines]
    exact ((Whole.line _).append hb).append hrest
termination_by structural bs

theorem Binding.whole_groupedType {d e : Nat} (level : Nat) (next : Option Binding) (b : Binding)
    (hd : b.typeHeight next ≤ d) (he : b.typeHeight next ≤ e) :
    Whole (Binding.groupedType s level d next b) (Binding.groupedType s level e next b) := by
  match b with
  | ⟨name, ty, init⟩ =>
    simp only [Binding.typeHeight] at hd he
    simp only [Binding.groupedType]
    by_cases hshare : next.any (Binding.sharesType ⟨name, ty, init⟩)
    · rw [if_pos hshare, if_pos hshare]
      exact .nil
    · rw [if_neg hshare] at hd he ⊢
      rw [if_neg hshare]
      exact (Whole.text " ").append (TypeRef.whole_piecesOr level ty hd he)
termination_by structural b

theorem Binding.whole_grouped {d e : Nat} (level : Nat) (bs : List Binding)
    (hd : Binding.groupedHeight bs ≤ d) (he : Binding.groupedHeight bs ≤ e) :
    Whole (Binding.grouped s level d bs) (Binding.grouped s level e bs) := by
  match bs with
  | [] => exact .nil
  | b :: rest =>
    simp only [Binding.groupedHeight, max_le_iff] at hd he
    have hb := Binding.whole_groupedType level rest.head? b hd.1 he.1
    have hrest := Binding.whole_grouped level rest hd.2 he.2
    simp only [Binding.grouped]
    exact (((Whole.text b.name).append hb).append (.separator _)).append hrest
termination_by structural bs

theorem Binding.whole_listed {d e : Nat} (level : Nat) (bs : List Binding)
    (hd : Binding.heights bs ≤ d) (he : Binding.heights bs ≤ e) :
    Whole (Binding.listed s level d bs) (Binding.listed s level e bs) := by
  match bs with
  | [] => exact .nil
  | b :: rest =>
    simp only [Binding.heights, max_le_iff] at hd he
    have hb := Binding.whole_pieces level b hd.1 he.1
    have hrest := Binding.whole_listed level rest hd.2 he.2
    simp only [Binding.listed]
    exact (hb.append (.separator _)).append hrest
termination_by structural bs

theorem FunDef.whole_pieces {d e : Nat} (level : Nat) (f : FunDef) (hd : f.height ≤ d)
    (he : f.height ≤ e) : Whole (f.pieces s level d) (f.pieces s level e) := by
  match f with
  | ⟨name, params, result, none⟩ =>
    simp only [FunDef.height, max_le_iff] at hd he
    have hopen := ((Whole.text "fun ").append (.text name)).append (.text "(")
    have hparams := Binding.whole_listed level params hd.1 he.1
    have hresult := Ty.whole_pieces level result hd.2.1 he.2.1
    simp only [FunDef.pieces]
    exact (((hopen.append hparams).append (.text ") ")).append hresult).append .nil
  | ⟨name, params, result, some body⟩ =>
    simp only [FunDef.height, max_le_iff] at hd he
    have hopen := ((Whole.text "fun ").append (.text name)).append (.text "(")
    have hparams := Binding.whole_listed level params hd.1 he.1
    have hresult := Ty.whole_pieces level result hd.2.1 he.2.1
    have hbody := Node.whole_pieces level body hd.2.2 he.2.2
    simp only [FunDef.pieces]
    exact (((hopen.append hparams).append (.text ") ")).append hresult).append
      ((Whole.text " ").append hbody)
termination_by structural f

theorem Node.whole_pieces {d e : Nat} (level : Nat) (n : Node) (hd : n.height ≤ d)
    (he : n.height ≤ e) : Whole (n.pieces s level d) (n.pieces s level e) := by
  have hone := n.one_le_height
  have hd0 : d ≠ 0 := by omega
  have he0 : e ≠ 0 := by omega
  match n with
  | .bad | .comment _ | .ident _ | .boolLit _ | .intLit _ _ | .floatLit _ | .strLit _ =>
    simp only [Node.pieces, if_neg hd0, if_neg he0]
    exact .text _
  | .unit [] =>
    simp only [Node.pieces, if_neg hd0, if_neg he0, List.isEmpty_nil, not_true, and_false,
      if_false, Node.lines]
    exact .nil
  | .unit (n :: rest) =>
    simp only [Node.height, List.isEmpty_cons, Bool.false_eq_true, if_false] at hd he
    have hmembers := Node.one_le_heights (n :: rest)
    have hlines := Node.whole_lines (d := d - 1) (e := e - 1) level (n :: rest) (by omega)
      (by omega)
    simp only [Node.pieces, if_neg hd0, if_neg he0]
    rw [if_neg (fun h => absurd h.1 (by omega)), if_neg (fun h => absurd h.1 (by omega))]
    exact hlines
  | .block [] =>
    simp only [Node.pieces, if_neg hd0, if_neg he0, List.isEmpty_nil, if_true]
    exact ((Whole.text _).append .nil).append (.text _)
  | .block (n :: rest) =>
    simp only [Node.height, List.isEmpty_cons, Bool.false_eq_true, if_false] at hd he
    have hmembers := Node.one_le_heights (n :: rest)
    have hlines := Node.whole_lines (d := d - 1) (e := e - 1) (level + 1) (n :: rest) (by omega)
      (by omega)
    simp only [Node.pieces, if_neg hd0, if_neg he0, List.isEmpty_cons, Bool.false_eq_true,
      if_false, if_neg (show ¬ d ≤ 1 by omega), if_neg (show ¬ e ≤ 1 by omega)]
    exact ((Whole.text _).append (hlines.append (.line _))).append (.text _)
  | .typeDef t =>
    have ht := Ty.whole_pieces level t hd he
    simp only [Node.pieces, if_neg hd0, if_neg he0]
    exact (Whole.text "type ").append ht
  | .typeNode t =>
    have ht := Ty.whole_pieces level t hd he
    simp only [Node.pieces, if_neg hd0, if_neg he0]
    exact ht
  | .binding role b =>
    have hb := Binding.whole_pieces level b hd he
    simp only [Node.pieces, if_neg hd0, if_neg he0]
    refine .append ?_ hb
    cases role with
    | param | field => exact .nil
    | letBound | varBound => exact .text _
  | .func f =>
    have hf := FunDef.whole_pieces level f hd he
    simp only [Node.pieces, if_neg hd0, if_neg he0]
    exact hf
  | .call callee args =>
    simp only [Node.height, max_le_iff] at hd he
    have hcallee := Node.whole_pieces level callee hd.1 he.1
    have hargs := Node.whole_listed level args hd.2 he.2
    simp only [Node.pieces, if_neg hd0, if_neg he0]
    exact ((hcallee.append (.text "(")).append hargs).append (.text ")")
  | .construct t arg =>
    simp only [Node.height, max_le_iff] at hd he
    have ht := Ty.whole_pieces level t hd.1 he.1
    have harg := Node.whole_piecesOr level arg hd.2 he.2
    simp only [Node.pieces, if_neg hd0, if_neg he0]
    exact ((ht.append (.text "(")).append harg).append (.text ")")
  | .member base name =>
    have hbase := Node.whole_pieces level base hd he
    simp only [Node.pieces, if_neg hd0, if_neg he0]
    exact hbase.append ((Whole.text ".").append (.text name))
  | .branch cond yes none =>
    simp only [Node.height, max_le_iff] at hd he
    have hcond := Node.whole_pieces level cond hd.1 he.1
    have hyes := Node.whole_pieces level yes hd.2.1 he.2.1
    simp only [Node.pieces, if_neg hd0, if_neg he0]
    exact ((((Whole.text "if ").append hcond).append (.text " ")).append hyes).append .nil
  | .branch cond yes (some no) =>
    simp only [Node.height, max_le_iff] at hd he
    have hcond := Node.whole_pieces level cond hd.1 he.1
    have hyes := Node.whole_pieces level yes hd.2.1 he.2.1
    have hno := Node.whole_pieces level no hd.2.2 he.2.2
    simp only [Node.pieces, if_neg hd0, if_neg he0]
    exact ((((Whole.text "if ").append hcond).append (.text " ")).append hyes).append
      ((Whole.text " else ").append hno)
  | .loop start cond step body =>
    have hbody := body.one_le_height
    simp only [Node.height] at hd he
    have hstart := Node.whole_piecesOr (d := d - 1) (e := e - 1) level start (by omega) (by omega)
    have hcond := Node.whole_piecesOr (d := d - 1) (e := e - 1) level cond (by omega) (by omega)
    have hstep := Node.whole_piecesOr (d := d - 1) (e := e - 1) level step (by omega) (by omega)
    have hbody := Node.whole_pieces (d := d - 1) (e := e - 1) level body (by omega) (by omega)
    simp only [Node.pieces, if_neg hd0, if_neg he0, if_neg (show ¬ d ≤ 1 by omega),
      if_neg (show ¬ e ≤ 1 by omega)]
    refine (((Whole.text "for ").append ?_).append (.text " ")).append hbody
    split
    · refine ((((Whole.append ?_ (.text "; ")).append hcond).append (.text "; ")).append ?_)
      · split
        · exact hstart
        · exact .nil
      · split
        · cases s.loopStep with
          | start => exact hstart
          | stop => exact hstep
        · exact .nil
    · exact hcond
  | .ret none =>
    simp only [Node.pieces, if_neg hd0, if_neg he0]
    exact (Whole.text "return").append .nil
  | .ret (some value) =>
    have hvalue := Node.whole_pieces level value hd he
    simp only [Node.pieces, if_neg hd0, if_neg he0]
    exact (Whole.text "return").append ((Whole.text " ").append hvalue)
  | .deref arg | .prefixed _ arg =>
    have harg := Node.whole_pieces level arg hd he
    simp only [Node.pieces, if_neg hd0, if_neg he0]
    exact (Whole.text _).append harg
  | .postfixed _ arg =>
    have harg := Node.whole_pieces level arg hd he
    simp only [Node.pieces, if_neg hd0, if_neg he0]
    exact harg.append (.text _)
  | .assign op left right | .binary op left right =>
    simp only [Node.height, max_le_iff] at hd he
    have hleft := Node.whole_pieces level left hd.1 he.1
    have hright := Node.whole_pieces level right hd.2 he.2
    simp only [Node.pieces, if_neg hd0, if_neg he0]
    exact (hleft.append (((Whole.text " ").append (.text op.symbol)).append (.text " "))).append
      hright
  | .arrayLit items =>
    simp only [Node.height, max_le_iff] at hd he
    have hitems := Node.whole_listed level items hd.2 he.2
    simp only [Node.pieces, if_neg hd0, if_neg he0, if_neg (show ¬ d ≤ 1 by omega),
      if_neg (show ¬ e ≤ 1 by omega)]
    exact ((Whole.text "[").append hitems).append (.text "]")
termination_by structural n

theorem Node.whole_piecesOr {d e : Nat} (level : Nat) (n : Option Node)
    (hd : Node.heightOr n ≤ d) (he : Node.heightOr n ≤ e) :
    Whole (Node.piecesOr s level d n) (Node.piecesOr s level e n) := by
  match n with
  | none =>
    simp only [Node.heightOr] at hd he
    simp only [Node.piecesOr, if_neg (show d ≠ 0 by omega), if_neg (show e ≠ 0 by omega)]
    exact .text absentText
  | some n => exact Node.whole_pieces level n hd he
termination_by structural n

theorem Node.whole_lines {d e : Nat} (level : Nat) (ns : List Node) (hd : Node.heights ns ≤ d)
    (he : Node.heights ns ≤ e) : Whole (Node.lines s level d ns) (Node.lines s level e ns) := by
  match ns with
  | [] => exact .nil
  | n :: rest =>
    simp only [Node.heights, max_le_iff] at hd he
    have hn := Node.whole_pieces level n hd.1 he.1
    have hrest := Node.whole_lines level rest hd.2 he.2
    simp only [Node.lines]
    exact ((Whole.line _).append hn).append hrest
termination_by structural ns

theorem Node.whole_listed {d e : Nat} (level : Nat) (ns : List Node) (hd : Node.heights ns ≤ d)
    (he : Node.heights ns ≤ e) : Whole (Node.listed s level d ns) (Node.listed s level e ns) := by
  match ns with
  | [] => exact .nil
  | n :: rest =>
    simp only [Node.heights, max_le_iff] at hd he
    have hn := Node.whole_pieces level n hd.1 he.1
    have hrest := Node.whole_listed level rest hd.2 he.2
    simp only [Node.listed]
    exact (hn.append (.separator _)).append hrest
termination_by structural ns

end

end Depths

/-- From its height on, a node has one and the same dump at every depth, and nothing of it is
left out. -/
theorem Node.dump_of_height_le (s : Settings) (n : Node) {d : Nat} (h : n.height ≤ d) :
    (∀ mem, n.dump mem s d = n.dump mem s n.height) ∧
      ∀ p ∈ n.run s d, p.isElided = false := by
  have hone := n.one_le_height
  have hwhole : Piece.Whole (n.run s d) (n.run s n.height) := by
    rw [Node.run, Node.run, Nat.max_eq_left hone, Nat.max_eq_left (hone.trans h)]
    exact n.whole_pieces s 0 h le_rfl
  refine ⟨fun mem => ?_, hwhole.full⟩
  rw [Node.dump, Node.dump, hwhole.eq]

/-- A block, a loop and its body are each one higher than what is in them, and the initializer
inside has height two. -/
theorem Node.dump_of_height_le_loop :
    let init : Node := .binding .letBound ⟨"y", none, some (.boolLit true)⟩
    let n : Node := .block [.loop none (some (.ident "x")) none (.block [init])]
    n.height = 5 ∧ n.dump .standard .default 9 = n.dump .standard .default 5 ∧
      Piece.elided "" ∈ n.run .default 4 ∧ ∀ p ∈ n.run .default 9, p.isElided = false := by
  intro init n
  obtain ⟨hdump, hfull⟩ := Node.dump_of_height_le .default n (show n.height ≤ 9 by decide)
  exact ⟨by decide, hdump .standard, by decide, hfull⟩

end CodeDump
