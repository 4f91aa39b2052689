import CodeDump.Print.Tree

/-!
# The parts of a printed tree

To print a node or a type is to write pieces and to visit further nodes and types, one after the
other. `parts` lists what is done for one of them and leaves out what the visits do in turn, so
nothing here is recursive but lists. Most forms pass their depth on. The members of units and blocks
and the parts of loops are visited one level `below`, and such a visit keeps the depth from which
the level is taken off.

The run of a visit is made of the runs of its parts, in their order (`Visit.run_eq`).
-/

namespace CodeDump

/-- What is to be printed; it may be absent. -/
inductive Child
  | node (n : Option Node)
  | ty (t : Option Ty)

structure Visit where
  child : Child
  level : Nat
  depth : Nat

inductive Part
  | write (p : Piece)
  | visit (v : Visit)
  /-- A visit one level shallower than the depth that is given. -/
  | below (v : Visit)

namespace Part

def text (t : String) : Part := write (.text t)

def visit? : Part → Option Visit
  | write _ => none
  | visit v => some v
  | below v => some { v with depth := v.depth - 1 }

/-- The parts of each member, with a comma between the members. -/
def listed : List (List Part) → List Part
  | [] => []
  | ps :: rest => ps ++ (if rest.isEmpty then [] else [text ", "]) ++ listed rest

end Part

section Parts

variable (s : Settings) (level depth : Nat)

def Binding.parts : Binding → List Part
  | ⟨name, ty, init⟩ =>
      [.text name, .text " ", .visit ⟨.ty (ty.map TypeRef.ty), level, depth⟩] ++
      match init with
      | none => []
      | some value =>
          if depth ≤ 1 then [.write (.elided "")]
          else [.text " = ", .visit ⟨.node (some value), level, depth⟩]

/-- A struct field on a line of its own. -/
def Binding.fieldParts : Binding → List Part
  | ⟨name, ty, init⟩ =>
      [.write (s.lineAt level), .text name, .text " ",
        .visit ⟨.ty (ty.map TypeRef.ty), level, depth⟩] ++
      match init with
      | none => []
      | some value => [.text " = ", .visit ⟨.node (some value), level, depth⟩]

def Binding.groupedParts : List Binding → List Part
  | [] => []
  | b :: rest =>
      [.text b.name] ++
      (if rest.head?.any b.sharesType then []
        else [.text " ", .visit ⟨.ty (b.ty.map TypeRef.ty), level, depth⟩]) ++
      (if rest.isEmpty then [] else [.text ", "]) ++ Binding.groupedParts rest

def FunDef.parts : FunDef → List Part
  | ⟨name, params, result, body⟩ =>
      [.text "fun ", .text name, .text "("] ++
      Part.listed (params.map (Binding.parts level depth)) ++
      [.text ") ", .visit ⟨.ty (some result), level, depth⟩] ++
      match body with
      | none => []
      | some n => [.text " ", .visit ⟨.node (some n), level, depth⟩]

def Ty.parts : Ty → List Part
  | .prim p => [.text p.keyword]
  | .struct name fields =>
      (match name with
        | none => []
        | some n => [.text n]) ++
      if depth ≤ 1 then [.write (.elided (if name.isNone then "struct" else ""))]
      else
        (if name.isSome then [.text " "] else []) ++ [.text "\x7b"] ++
        fields.flatMap (Binding.fieldParts s (level + 1) depth) ++
        (if fields.isEmpty then [] else [.write (s.lineAt level)]) ++ [.text "\x7d"]
  | .func params result =>
      [.text "fun", .text "("] ++ Binding.groupedParts level depth params ++
        [.text ") ", .visit ⟨.ty (some result), level, depth⟩]
  | .array elem length =>
      [.text "[", .visit ⟨.ty (some elem), level, depth⟩] ++
        (if length = 0 then [] else [.text (" " ++ Radix.decimal length.toNat)]) ++ [.text "]"]
  | .slice elem isMut =>
      [.text (if isMut then "mut&[" else "&["), .visit ⟨.ty (some elem), level, depth⟩, .text "]"]
  | .pointer elem => [.text "*", .visit ⟨.ty (some elem), level, depth⟩]
  | .reference elem isMut =>
      [.text (if isMut then "mut&" else "&"), .visit ⟨.ty (some elem), level, depth⟩]
  | .optional elem => [.text "?", .visit ⟨.ty (some elem), level, depth⟩]
  | .named name elem =>
      [.text name] ++
        if depth ≤ 1 then [.write (.elided "")]
        else [.text " ", .visit ⟨.ty (some elem), level, depth⟩]
  | .unknown => [.text "unknown"]
  | .unresolved name => [.text name]

/-- A member of a unit or a block. The level is taken off once for each member, so it is not when
there are none. -/
def Node.lineParts (n : Node) : List Part :=
  [.write (s.lineAt level), .below ⟨.node (some n), level, depth⟩]

def Node.listedParts (ns : List Node) : List Part :=
  Part.listed (ns.map fun n => [.visit ⟨.node (some n), level, depth⟩])

def Node.parts : Node → List Part
  | .bad => [.text "/*NODE_BAD*/"]
  | .comment _ => [.text "/*comment*/"]
  | .unit items =>
      if depth ≤ 1 ∧ ¬items.isEmpty then [.write (.elided "...")]
      else items.flatMap (Node.lineParts s level depth)
  | .typeDef t => [.text "type ", .visit ⟨.ty (some t), level, depth⟩]
  | .binding role b => role.keyword.map .write ++ b.parts level depth
  | .func f => f.parts level depth
  | .block items =>
      [.text "\x7b"] ++
      (if items.isEmpty then []
        else if depth ≤ 1 then [.write (.elided "...")]
        else items.flatMap (Node.lineParts s (level + 1) depth) ++ [.write (s.lineAt level)]) ++
      [.text "\x7d"]
  | .call callee args =>
      [.visit ⟨.node (some callee), level, depth⟩, .text "("] ++
        Node.listedParts level depth args ++ [.text ")"]
  | .construct t arg =>
      [.visit ⟨.ty (some t), level, depth⟩, .text "(", .visit ⟨.node arg, level, depth⟩, .text ")"]
  | .member base name => [.visit ⟨.node (some base), level, depth⟩, .text ".", .text name]
  | .branch cond yes no =>
      [.text "if ", .visit ⟨.node (some cond), level, depth⟩, .text " ",
        .visit ⟨.node (some yes), level, depth⟩] ++
      match no with
      | none => []
      | some n => [.text " else ", .visit ⟨.node (some n), level, depth⟩]
  | .loop start cond step body =>
      if depth ≤ 1 then [.text "for", .write (.elided "")]
      else
        [.text "for "] ++
        (if start.isSome || step.isSome then
          (if start.isSome then [.below ⟨.node start, level, depth⟩] else []) ++
          [.text "; ", .below ⟨.node cond, level, depth⟩, .text "; "] ++
          (if step.isSome then
            (match s.loopStep with
              | .start => [.below ⟨.node start, level, depth⟩]
              | .stop => [.below ⟨.node step, level, depth⟩])
          else [])
        else [.below ⟨.node cond, level, depth⟩]) ++
        [.text " ", .below ⟨.node (some body), level, depth⟩]
  | .ident name => [.text name]
  | .ret value =>
      [.text "return"] ++
      match value with
      | none => []
      | some n => [.text " ", .visit ⟨.node (some n), level, depth⟩]
  | .deref arg => [.text "*", .visit ⟨.node (some arg), level, depth⟩]
  | .prefixed op arg => [.text op.symbol, .visit ⟨.node (some arg), level, depth⟩]
  | .postfixed op arg => [.visit ⟨.node (some arg), level, depth⟩, .text op.symbol]
  | .assign op left right | .binary op left right =>
      [.visit ⟨.node (some left), level, depth⟩, .text " ", .text op.symbol, .text " ",
        .visit ⟨.node (some right), level, depth⟩]
  | .boolLit b => [.text (if b then "true" else "false")]
  | .intLit value ty => [.text (integerText value (ty.any Ty.isUnsigned))]
  | .floatLit x => [.text x.literal]
  | .strLit bytes => [.text (Quoted.text bytes)]
  | .arrayLit items =>
      [.text "["] ++
      (if depth ≤ 1 then [.write (.elided "...")] else Node.listedParts level depth items) ++
      [.text "]"]
  | .typeNode t => [.visit ⟨.ty (some t), level, depth⟩]

end Parts

namespace Visit

/-- At depth zero nothing is done. -/
def parts (s : Settings) (v : Visit) : List Part :=
  if v.depth = 0 then []
  else match v.child with
  | .node none | .ty none => [.text absentText]
  | .node (some n) => n.parts s v.level v.depth
  | .ty (some t) => t.parts s v.level v.depth

def run (s : Settings) (v : Visit) : Run :=
  match v.child with
  | .node n => Node.piecesOr s v.level v.depth n
  | .ty none => if v.depth = 0 then [] else [.text absentText]
  | .ty (some t) => t.pieces s v.level v.depth

end Visit

namespace Part

def run (s : Settings) : Part → Run
  | write p => [p]
  | visit v => v.run s
  | below v => Visit.run s { v with depth := v.depth - 1 }

variable (s : Settings)

@[simp] theorem run_write (p : Piece) : (write p).run s = [p] := rfl

@[simp] theorem run_text (t : String) : (text t).run s = [.text t] := rfl

@[simp] theorem run_node (n : Option Node) (level depth : Nat) :
    (visit ⟨.node n, level, depth⟩).run s = Node.piecesOr s level depth n := rfl

@[simp] theorem run_below (n : Option Node) (level depth : Nat) :
    (below ⟨.node n, level, depth⟩).run s = Node.piecesOr s level (depth - 1) n := rfl

@[simp] theorem run_ty (t : Ty) (level depth : Nat) :
    (visit ⟨.ty (some t), level, depth⟩).run s = t.pieces s level depth := rfl

@[simp] theorem run_typeRef (r : Option TypeRef) (level depth : Nat) :
    (visit ⟨.ty (r.map TypeRef.ty), level, depth⟩).run s = TypeRef.piecesOr s level depth r := by
  cases r with
  | none => rfl
  | some r => cases r; rfl

theorem run_of_visit? {p : Part} {v : Visit} (h : p.visit? = some v) : p.run s = v.run s := by
  cases p with
  | write _ => cases h
  | visit _ | below _ =>
    cases h
    rfl

end Part

theorem Ty.pieces_zero (s : Settings) (level : Nat) (t : Ty) : t.pieces s level 0 = [] := by
  unfold Ty.pieces
  exact if_pos rfl

theorem Node.pieces_zero (s : Settings) (level : Nat) (n : Node) : n.pieces s level 0 = [] := by
  unfold Node.pieces
  exact if_pos rfl

@[simp] theorem Node.piecesOr_some (s : Settings) (level depth : Nat) (n : Node) :
    Node.piecesOr s level depth (some n) = n.pieces s level depth := rfl

section Equations

variable (s : Settings) (level depth : Nat)

theorem Binding.pieces_eq (b : Binding) :
    b.pieces s level depth = (b.parts level depth).flatMap (Part.run s) := by
  obtain ⟨name, ty, init⟩ := b
  cases init with
  | none => simp [Binding.pieces, Binding.parts]
  | some value =>
    by_cases hdepth : depth ≤ 1
    · simp [Binding.pieces, Binding.parts, hdepth]
    · simp [Binding.pieces, Binding.parts, hdepth]

theorem Binding.fieldLines_eq_flatMap (bs : List Binding) :
    Binding.fieldLines s level depth bs =
      (bs.flatMap (Binding.fieldParts s level depth)).flatMap (Part.run s) := by
  induction bs with
  | nil => rfl
  | cons b rest ih =>
    obtain ⟨name, ty, init⟩ := b
    rw [Binding.fieldLines, ih]
    cases init <;> simp [Binding.fieldPieces, Binding.fieldParts]

theorem Binding.grouped_eq (bs : List Binding) :
    Binding.grouped s level depth bs =
      (Binding.groupedParts level depth bs).flatMap (Part.run s) := by
  induction bs with
  | nil => rfl
  | cons b rest ih =>
    obtain ⟨name, ty, init⟩ := b
    rw [Binding.grouped, ih, Binding.groupedParts, Binding.groupedType]
    split <;> split <;> simp

theorem Binding.listed_eq (bs : List Binding) :
    Binding.listed s level depth bs =
      (Part.listed (bs.map (Binding.parts level depth))).flatMap (Part.run s) := by
  induction bs with
  | nil => rfl
  | cons b rest ih =>
    rw [Binding.listed, ih, Binding.pieces_eq, List.map_cons, Part.listed]
    cases rest <;> simp

theorem FunDef.pieces_eq (f : FunDef) :
    f.pieces s level depth = (f.parts level depth).flatMap (Part.run s) := by
  obtain ⟨name, params, result, body⟩ := f
  cases body <;> simp [FunDef.pieces, FunDef.parts, Binding.listed_eq]

theorem Node.lines_eq_flatMap (ns : List Node) :
    Node.lines s level (depth - 1) ns =
      (ns.flatMap (Node.lineParts s level depth)).flatMap (Part.run s) := by
  induction ns with
  | nil => rfl
  | cons n rest ih =>
    rw [Node.lines, ih]
    simp [Node.lineParts]

theorem Node.listed_eq (ns : List Node) :
    Node.listed s level depth ns = (Node.listedParts level depth ns).flatMap (Part.run s) := by
  induction ns with
  | nil => rfl
  | cons n rest ih =>
    rw [Node.listed, ih, Node.listedParts, Node.listedParts, List.map_cons, Part.listed]
    cases rest <;> simp

variable {depth} (hd : depth ≠ 0)
include hd

theorem Ty.pieces_eq (t : Ty) :
    t.pieces s level depth = (t.parts s level depth).flatMap (Part.run s) := by
  cases t with
  | struct name fields =>
    simp only [Ty.pieces, if_neg hd, Ty.parts]
    by_cases hdepth : depth ≤ 1
    · cases name <;> simp [hdepth]
    · cases name <;> cases fields <;> simp [hdepth, Binding.fieldLines_eq_flatMap]
  | func params result => simp [Ty.pieces, hd, Ty.parts, Binding.grouped_eq]
  | array elem length =>
    simp only [Ty.pieces, if_neg hd, Ty.parts]
    split <;> simp
  | named name elem =>
    simp only [Ty.pieces, if_neg hd, Ty.parts]
    split <;> simp
  | prim _ | slice _ _ | pointer _ | reference _ _ | optional _ | unknown | unresolved _ =>
    simp [Ty.pieces, hd, Ty.parts]

theorem Node.pieces_eq (n : Node) :
    n.pieces s level depth = (n.parts s level depth).flatMap (Part.run s) := by
  cases n with
  | unit items =>
    simp only [Node.pieces, if_neg hd, Node.parts]
    split
    · rfl
    · exact Node.lines_eq_flatMap s level depth items
  | binding role b =>
    simp only [Node.pieces, if_neg hd, Node.parts, List.flatMap_append, Binding.pieces_eq]
    cases role <;> rfl
  | func f => simp only [Node.pieces, if_neg hd, Node.parts, FunDef.pieces_eq]
  | block items =>
    simp only [Node.pieces, if_neg hd, Node.parts]
    split
    · rfl
    · split
      · rfl
      · simp [Node.lines_eq_flatMap]
  | call callee args => simp [Node.pieces, hd, Node.parts, Node.listed_eq]
  | branch cond yes no => cases no <;> simp [Node.pieces, hd, Node.parts]
  | loop start cond step body =>
    simp only [Node.pieces, if_neg hd, Node.parts]
    by_cases hdepth : depth ≤ 1
    · simp [hdepth]
    · cases start <;> cases step <;> cases s.loopStep <;> simp [hdepth]
  | ret value => cases value <;> simp [Node.pieces, hd, Node.parts]
  | arrayLit items =>
    simp only [Node.pieces, if_neg hd, Node.parts]
    split <;> simp [Node.listed_eq]
  | bad | comment _ | typeDef _ | construct _ _ | member _ _ | ident _ | deref _ | prefixed _ _
  | postfixed _ _ | assign _ _ _ | binary _ _ _ | boolLit _ | intLit _ _ | floatLit _ | strLit _
  | typeNode _ => simp [Node.pieces, hd, Node.parts]

end Equations

theorem Visit.run_of_depth_eq_zero (s : Settings) {v : Visit} (h : v.depth = 0) : v.run s = [] := by
  obtain ⟨child, level, depth⟩ := v
  subst h
  match child with
  | .node none | .ty none => rfl
  | .node (some n) => exact Node.pieces_zero s level n
  | .ty (some t) => exact Ty.pieces_zero s level t

/-- A visit prints what its parts print. -/
theorem Visit.run_eq (s : Settings) (v : Visit) : v.run s = (v.parts s).flatMap (Part.run s) := by
  by_cases hd : v.depth = 0
  · rw [Visit.run_of_depth_eq_zero s hd, Visit.parts, if_pos hd]
    rfl
  · obtain ⟨child, level, depth⟩ := v
    rw [Visit.parts, if_neg hd]
    match child with
    | .node none => exact if_neg hd
    | .ty none => exact if_neg hd
    | .node (some n) => exact n.pieces_eq s level hd
    | .ty (some t) => exact t.pieces_eq s level hd

end CodeDump
