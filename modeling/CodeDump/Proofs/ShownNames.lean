import CodeDump.Proofs.Words

/-!
# Names in fragments

A listing shows types and parameters at depth one. At that depth no line is started and no
initializer is reached, and the names that are shown are few: those of structs, named and
unresolved types, and of the parameters of function types. All other text is fixed, so a line
feed or an equals sign can get into a fragment only through one of its names.
-/

namespace CodeDump

mutual

/-- The names that a type shows at depth one. -/
def Ty.names (t : Ty) : List String :=
  match t with
  | .prim _ | .unknown => []
  | .struct name _ => name.toList
  | .func params result => Binding.namesOf params ++ result.names
  | .array elem _ | .slice elem _ | .pointer elem | .reference elem _ | .optional elem =>
      elem.names
  | .named name _ | .unresolved name => [name]
termination_by structural t

def TypeRef.names (r : TypeRef) : List String :=
  match r with
  | ⟨_, t⟩ => t.names
termination_by structural r

def TypeRef.namesOr (r : Option TypeRef) : List String :=
  match r with
  | none => []
  | some r => r.names
termination_by structural r

/-- The name of a binding and those of its type. -/
def Binding.names (b : Binding) : List String :=
  match b with
  | ⟨name, ty, _⟩ => name :: TypeRef.namesOr ty
termination_by structural b

def Binding.namesOf (bs : List Binding) : List String :=
  match bs with
  | [] => []
  | b :: rest => b.names ++ Binding.namesOf rest
termination_by structural bs

end

namespace Piece

/-- The run starts no line and none of its texts has the character. -/
def Without (c : Char) (ps : Run) : Prop :=
  ∀ p ∈ ps, match p with
    | text s => Free c s
    | elided s => Free c s
    | line _ => False

theorem Without.append {c : Char} {ps qs : Run} (hp : Without c ps) (hq : Without c qs) :
    Without c (ps ++ qs) :=
  List.forall_mem_append.mpr ⟨hp, hq⟩

theorem without_nil (c : Char) : Without c [] := List.forall_mem_nil _

theorem without_text {c : Char} {s : String} (h : Free c s) : Without c [text s] :=
  List.forall_mem_singleton.mpr h

theorem without_elided {c : Char} {s : String} (h : Free c s) : Without c [elided s] :=
  List.forall_mem_singleton.mpr h

theorem Without.free_layoutFrom {c : Char} {ps : Run} (h : Without c ps) (started : Bool) :
    Free c (layoutFrom started ps) := by
  induction ps generalizing started with
  | nil => exact free_empty
  | cons p ps ih =>
    obtain ⟨hp, hps⟩ := List.forall_mem_cons.mp h
    rw [layoutFrom_cons, free_append]
    refine ⟨?_, ih hps _⟩
    rw [shown, free_join]
    cases p with
    | text s => exact List.forall_mem_singleton.mpr hp
    | elided s => exact List.forall_mem_singleton.mpr hp
    | line n => exact hp.elim

/-- Holds for the characters of the texts that are the same in all fragments. -/
def isFixedChar (c : Char) : Bool :=
  Radix.isFigure c || c.isLower || "NUL()[]&?, ".toList.contains c

theorem without_fixed {c : Char} (hc : isFixedChar c = false) {s : String}
    (hs : s.toList.all isFixedChar = true) : Without c [text s] :=
  without_text (free_of_all hc hs)

end Piece

theorem Prim.keyword_fixed (p : Prim) : p.keyword.toList.all Piece.isFixedChar = true := by
  cases p <;> decide

theorem Radix.decimal_fixed (n : Nat) :
    (" " ++ Radix.decimal n).toList.all Piece.isFixedChar = true := by
  rw [List.all_eq_true]
  intro x hx
  simp only [String.toList_append, Radix.decimal, String.toList_ofList] at hx
  rcases List.mem_append.mp hx with hx | hx
  · rw [List.mem_singleton.mp hx]
    decide
  · rw [Piece.isFixedChar, Radix.isFigure_of_mem_map hx, Bool.true_or, Bool.true_or]

section Fragments

open Piece

variable {c : Char} (s : Settings) (level : Nat)

mutual

theorem Ty.without_pieces (hc : isFixedChar c = false) (t : Ty) (h : ∀ n ∈ t.names, Free c n) :
    Without c (t.pieces s level 1) := by
  match t with
  | .prim p =>
    simp only [Ty.pieces, Nat.one_ne_zero, if_false]
    exact without_fixed hc p.keyword_fixed
  | .unknown =>
    simp only [Ty.pieces, Nat.one_ne_zero, if_false]
    exact without_fixed hc (by decide)
  | .unresolved name =>
    simp only [Ty.pieces, Nat.one_ne_zero, if_false]
    exact without_text (h name (by simp [Ty.names]))
  | .struct none _ =>
    simp only [Ty.pieces, Nat.one_ne_zero, if_false, le_refl, if_true]
    exact (without_nil c).append (without_elided (free_of_all hc (by decide)))
  | .struct (some name) _ =>
    simp only [Ty.pieces, Nat.one_ne_zero, if_false, le_refl, if_true]
    exact (without_text (h name (by simp [Ty.names]))).append (without_elided free_empty)
  | .named name _ =>
    simp only [Ty.pieces, Nat.one_ne_zero, if_false, le_refl, if_true]
    exact (without_text (h name (by simp [Ty.names]))).append (without_elided free_empty)
  | .func params result =>
    simp only [Ty.names, List.forall_mem_append] at h
    have hp := Binding.without_grouped hc params h.1
    have hr := Ty.without_pieces hc result h.2
    have hopen : Without c [text "fun", text "("] :=
      (without_fixed hc (by decide)).append (without_fixed hc (by decide))
    simp only [Ty.pieces, Nat.one_ne_zero, if_false]
    exact ((hopen.append hp).append (without_fixed hc (by decide))).append hr
  | .array elem length =>
    have he := Ty.without_pieces hc elem h
    simp only [Ty.pieces, Nat.one_ne_zero, if_false]
    refine (((without_fixed hc (by decide)).append he).append ?_).append
      (without_fixed hc (by decide))
    split
    · exact without_nil c
    · exact without_fixed hc (Radix.decimal_fixed length.toNat)
  | .slice elem isMut =>
    have he := Ty.without_pieces hc elem h
    simp only [Ty.pieces, Nat.one_ne_zero, if_false]
    exact ((without_fixed hc (by cases isMut <;> decide)).append he).append
      (without_fixed hc (by decide))
  | .reference elem isMut =>
    have he := Ty.without_pieces hc elem h
    simp only [Ty.pieces, Nat.one_ne_zero, if_false]
    exact (without_fixed hc (by cases isMut <;> decide)).append he
  | .pointer elem | .optional elem =>
    have he := Ty.without_pieces hc elem h
    simp only [Ty.pieces, Nat.one_ne_zero, if_false]
    exact (without_fixed hc (by decide)).append he
termination_by structural t

theorem TypeRef.without_pieces (hc : isFixedChar c = false) (r : TypeRef)
    (h : ∀ n ∈ r.names, Free c n) : Without c (r.pieces s level 1) := by
  match r with
  | ⟨_, t⟩ => exact Ty.without_pieces hc t h
termination_by structural r

theorem TypeRef.without_piecesOr (hc : isFixedChar c = false) (r : Option TypeRef)
    (h : ∀ n ∈ TypeRef.namesOr r, Free c n) : Without c (TypeRef.piecesOr s level 1 r) := by
  match r with
  | none => exact without_fixed hc (by decide)
  | some r => exact TypeRef.without_pieces hc r h
termination_by structural r

theorem Binding.without_groupedType (hc : isFixedChar c = false) (next : Option Binding)
    (b : Binding) (h : ∀ n ∈ b.names, Free c n) :
    Without c (Binding.groupedType s level 1 next b) := by
  match b with
  | ⟨name, ty, init⟩ =>
    have ht := TypeRef.without_piecesOr hc ty fun n hn => h n (List.mem_cons_of_mem name hn)
    simp only [Binding.groupedType]
    split
    · exact without_nil c
    · exact (without_fixed hc (by decide)).append ht
termination_by structural b

theorem Binding.without_grouped (hc : isFixedChar c = false) (bs : List Binding)
    (h : ∀ n ∈ Binding.namesOf bs, Free c n) : Without c (Binding.grouped s level 1 bs) := by
  match bs with
  | [] => exact without_nil c
  | b :: rest =>
    simp only [Binding.namesOf, List.forall_mem_append] at h
    have hb := Binding.without_groupedType hc rest.head? b h.1
    have hr := Binding.without_grouped hc rest h.2
    simp only [Binding.grouped]
    refine (((without_text ?_).append hb).append ?_).append hr
    · exact h.1 b.name (by cases b; exact List.mem_cons_self)
    · split
      · exact without_nil c
      · exact without_fixed hc (by decide)
termination_by structural bs

end

theorem Binding.without_pieces (hc : isFixedChar c = false) (b : Binding)
    (h : ∀ n ∈ b.names, Free c n) : Without c (b.pieces s level 1) := by
  obtain ⟨name, ty, init⟩ := b
  have hn := h name List.mem_cons_self
  have ht := TypeRef.without_piecesOr s level hc ty fun n hn => h n (List.mem_cons_of_mem name hn)
  have hblank : Without c [text " "] := without_fixed hc (by decide)
  have hlead := ((without_text hn).append hblank).append ht
  cases init with
  | none =>
    rw [Binding.pieces]
    exact hlead.append (without_nil c)
  | some value =>
    rw [Binding.pieces]
    exact hlead.append (without_elided free_empty)

end Fragments

end CodeDump
