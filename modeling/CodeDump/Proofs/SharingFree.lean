import Mathlib.Data.List.Chain
import CodeDump.Print.Dump
import CodeDump.Proofs.Recoding

/-!
# Dumps do not show what is shared

A stored tree has lost the numbers of its type objects. The printer asks for them in one place
only: neighbours in the parameter list of a function type that share one object show it once. Where
no such neighbours share, the pieces of a tree are those of the `unshared` tree, so a tree that was
written and read back has the same dump, and so have any two trees that differ in sharing alone.

A stored module has also lost the bytes of its inputs. A listing shows the names of inputs, which
are kept.
-/

namespace CodeDump

namespace Binding

/-- Whether the types of two bindings are one object. -/
def sharesObject (b c : Binding) : Bool :=
  match b.ty, c.ty with
  | some r, some s => r.sameObject s
  | _, _ => false

/-- No two neighbours share a type object. -/
def Apart (params : List Binding) : Prop := params.IsChain fun b c => b.sharesObject c = false

instance (params : List Binding) : Decidable (Apart params) :=
  inferInstanceAs (Decidable (params.IsChain _))

end Binding

mutual

/-- The parameter lists of the function types in a type. -/
def Ty.signatures (t : Ty) : List (List Binding) :=
  match t with
  | .func params result => params :: (Binding.signaturesList params ++ Ty.signatures result)
  | .struct _ fields => Binding.signaturesList fields
  | .array elem _ | .slice elem _ | .reference elem _ => Ty.signatures elem
  | .pointer elem | .optional elem | .named _ elem => Ty.signatures elem
  | .prim _ | .unknown | .unresolved _ => []
termination_by structural t

def Ty.signaturesOption (t : Option Ty) : List (List Binding) :=
  match t with
  | none => []
  | some t => Ty.signatures t
termination_by structural t

def TypeRef.signatures (r : TypeRef) : List (List Binding) :=
  match r with
  | ⟨_, t⟩ => Ty.signatures t
termination_by structural r

def TypeRef.signaturesOption (r : Option TypeRef) : List (List Binding) :=
  match r with
  | none => []
  | some r => TypeRef.signatures r
termination_by structural r

def Binding.signatures (b : Binding) : List (List Binding) :=
  match b with
  | ⟨_, ty, init⟩ => TypeRef.signaturesOption ty ++ Node.signaturesOption init
termination_by structural b

def Binding.signaturesList (bs : List Binding) : List (List Binding) :=
  match bs with
  | [] => []
  | b :: rest => Binding.signatures b ++ Binding.signaturesList rest
termination_by structural bs

def FunDef.signatures (f : FunDef) : List (List Binding) :=
  match f with
  | ⟨_, params, result, body⟩ =>
      Binding.signaturesList params ++ (Ty.signatures result ++ Node.signaturesOption body)
termination_by structural f

def Node.signatures (n : Node) : List (List Binding) :=
  match n with
  | .bad | .comment _ | .ident _ | .boolLit _ | .floatLit _ | .strLit _ => []
  | .unit items | .block items | .arrayLit items => Node.signaturesList items
  | .typeDef t | .typeNode t => Ty.signatures t
  | .binding _ b => Binding.signatures b
  | .func f => FunDef.signatures f
  | .call callee args => Node.signatures callee ++ Node.signaturesList args
  | .construct t arg => Ty.signatures t ++ Node.signaturesOption arg
  | .member base _ => Node.signatures base
  | .branch cond yes no =>
      Node.signatures cond ++ (Node.signatures yes ++ Node.signaturesOption no)
  | .loop start cond step body =>
      Node.signaturesOption start ++ (Node.signaturesOption cond ++
        (Node.signaturesOption step ++ Node.signatures body))
  | .ret value => Node.signaturesOption value
  | .deref arg | .prefixed _ arg | .postfixed _ arg => Node.signatures arg
  | .assign _ left right | .binary _ left right => Node.signatures left ++ Node.signatures right
  | .intLit _ ty => Ty.signaturesOption ty
termination_by structural n

def Node.signaturesOption (n : Option Node) : List (List Binding) :=
  match n with
  | none => []
  | some n => Node.signatures n
termination_by structural n

def Node.signaturesList (ns : List Node) : List (List Binding) :=
  match ns with
  | [] => []
  | n :: rest => Node.signatures n ++ Node.signaturesList rest
termination_by structural ns

end

namespace Binding

theorem sharesType_eq (b c : Binding) :
    b.sharesType c = (b.sharesObject c || b.ty.isNone && c.ty.isNone) := by
  unfold sharesType sharesObject
  cases b.ty <;> cases c.ty <;> simp

/-- Only bindings without a type still share theirs. -/
theorem sharesType_unshared (b c : Binding) :
    b.unshared.sharesType c.unshared = (b.ty.isNone && c.ty.isNone) := by
  obtain ⟨_, _ | ⟨_, _⟩, _⟩ := b <;> obtain ⟨_, _ | ⟨_, _⟩, _⟩ := c
  all_goals rfl

theorem head?_unsharedList (bs : List Binding) :
    (unsharedList bs).head? = bs.head?.map unshared := by
  cases bs <;> rfl

theorem any_sharesType_unshared {b : Binding} {next : Option Binding}
    (h : ∀ c ∈ next, b.sharesObject c = false) :
    (next.map unshared).any b.unshared.sharesType = next.any b.sharesType := by
  cases next with
  | none => rfl
  | some c =>
    rw [Option.map_some, Option.any_some, Option.any_some, sharesType_unshared, sharesType_eq,
      h c rfl, Bool.false_or]

theorem isEmpty_unsharedList (bs : List Binding) : (unsharedList bs).isEmpty = bs.isEmpty := by
  cases bs <;> rfl

end Binding

theorem Node.isEmpty_unsharedList (ns : List Node) : (unsharedList ns).isEmpty = ns.isEmpty := by
  cases ns <;> rfl

theorem Node.isSome_unsharedOption (n : Option Node) : (unsharedOption n).isSome = n.isSome := by
  cases n <;> rfl

theorem Ty.isUnsigned_unsharedOption (t : Option Ty) :
    (unsharedOption t).any Ty.isUnsigned = t.any Ty.isUnsigned := by
  cases t with
  | none => rfl
  | some t => cases t <;> rfl

section Unshared

variable (s : Settings)

open Binding (Apart)

mutual

theorem Ty.pieces_unshared (level depth : Nat) :
    ∀ t : Ty, (∀ ps ∈ t.signatures, Apart ps) →
      t.unshared.pieces s level depth = t.pieces s level depth
  | .prim _, _ | .unknown, _ | .unresolved _, _ => rfl
  | .struct name fields, h => by
    have hf := Binding.fieldLines_unshared (level + 1) depth fields h
    simp only [Ty.unshared, Ty.pieces, hf, Binding.isEmpty_unsharedList]
  | .func params result, h => by
    obtain ⟨hapart, hrest⟩ := List.forall_mem_cons.mp h
    obtain ⟨hparams, hresult⟩ := List.forall_mem_append.mp hrest
    have hp := Binding.grouped_unshared level depth params hapart hparams
    have hr := Ty.pieces_unshared level depth result hresult
    simp only [Ty.unshared, Ty.pieces, hp, hr]
  | .array elem _, h | .slice elem _, h | .reference elem _, h | .pointer elem, h
  | .optional elem, h | .named _ elem, h => by
    have he := Ty.pieces_unshared level depth elem h
    simp only [Ty.unshared, Ty.pieces, he]
termination_by structural t => t

theorem TypeRef.pieces_unshared (level depth : Nat) :
    ∀ r : TypeRef, (∀ ps ∈ r.signatures, Apart ps) →
      r.unshared.pieces s level depth = r.pieces s level depth
  | ⟨_, t⟩, h => Ty.pieces_unshared level depth t h
termination_by structural r => r

theorem TypeRef.piecesOr_unshared (level depth : Nat) :
    ∀ r : Option TypeRef, (∀ ps ∈ TypeRef.signaturesOption r, Apart ps) →
      TypeRef.piecesOr s level depth (TypeRef.unsharedOption r) = TypeRef.piecesOr s level depth r
  | none, _ => rfl
  | some r, h => TypeRef.pieces_unshared level depth r h
termination_by structural r => r

theorem Binding.pieces_unshared (level depth : Nat) :
    ∀ b : Binding, (∀ ps ∈ b.signatures, Apart ps) →
      b.unshared.pieces s level depth = b.pieces s level depth
  | ⟨_, ty, none⟩, h => by
    have ht := TypeRef.piecesOr_unshared level depth ty (List.forall_mem_append.mp h).1
    simp only [Binding.unshared, Node.unsharedOption, Binding.pieces, ht]
  | ⟨_, ty, some value⟩, h => by
    obtain ⟨hty, hvalue⟩ := List.forall_mem_append.mp h
    have ht := TypeRef.piecesOr_unshared level depth ty hty
    have hv := Node.pieces_unshared level depth value hvalue
    simp only [Binding.unshared, Node.unsharedOption, Binding.pieces, ht, hv]
termination_by structural b => b

theorem Binding.fieldPieces_unshared (level depth : Nat) :
    ∀ b : Binding, (∀ ps ∈ b.signatures, Apart ps) →
      b.unshared.fieldPieces s level depth = b.fieldPieces s level depth
  | ⟨_, ty, none⟩, h => by
    have ht := TypeRef.piecesOr_unshared level depth ty (List.forall_mem_append.mp h).1
    simp only [Binding.unshared, Node.unsharedOption, Binding.fieldPieces, ht]
  | ⟨_, ty, some value⟩, h => by
    obtain ⟨hty, hvalue⟩ := List.forall_mem_append.mp h
    have ht := TypeRef.piecesOr_unshared level depth ty hty
    have hv := Node.pieces_unshared level depth value hvalue
    simp only [Binding.unshared, Node.unsharedOption, Binding.fieldPieces, ht, hv]
termination_by structural b => b

theorem Binding.fieldLines_unshared (level depth : Nat) :
    ∀ bs : List Binding, (∀ ps ∈ Binding.signaturesList bs, Apart ps) →
      Binding.fieldLines s level depth (Binding.unsharedList bs) =
        Binding.fieldLines s level depth bs
  | [], _ => rfl
  | b :: rest, h => by
    obtain ⟨hb, hrest⟩ := List.forall_mem_append.mp h
    have hfield := Binding.fieldPieces_unshared level depth b hb
    have hlines := Binding.fieldLines_unshared level depth rest hrest
    simp only [Binding.unsharedList, Binding.fieldLines, hfield, hlines]
termination_by structural bs => bs

theorem Binding.groupedType_unshared (level depth : Nat) (next : Option Binding) :
    ∀ b : Binding, (∀ c ∈ next, b.sharesObject c = false) → (∀ ps ∈ b.signatures, Apart ps) →
      Binding.groupedType s level depth (next.map Binding.unshared) b.unshared =
        Binding.groupedType s level depth next b
  | ⟨name, ty, init⟩, hnext, h => by
    have hany := Binding.any_sharesType_unshared hnext
    have ht := TypeRef.piecesOr_unshared level depth ty (List.forall_mem_append.mp h).1
    simp only [Binding.unshared, Binding.groupedType] at hany ⊢
    rw [hany, ht]
termination_by structural b => b

theorem Binding.grouped_unshared (level depth : Nat) :
    ∀ bs : List Binding, Apart bs → (∀ ps ∈ Binding.signaturesList bs, Apart ps) →
      Binding.grouped s level depth (Binding.unsharedList bs) = Binding.grouped s level depth bs
  | [], _, _ => rfl
  | b :: rest, hapart, h => by
    obtain ⟨hnext, hchain⟩ := List.isChain_cons.mp hapart
    obtain ⟨hb, hrest⟩ := List.forall_mem_append.mp h
    have htype := Binding.groupedType_unshared level depth rest.head? b hnext hb
    have hgrouped := Binding.grouped_unshared level depth rest hchain hrest
    have hname : b.unshared.name = b.name := by cases b; rfl
    rw [Binding.unsharedList, Binding.grouped, Binding.grouped, Binding.head?_unsharedList, htype,
      hgrouped, hname, Binding.isEmpty_unsharedList]
termination_by structural bs => bs

theorem Binding.listed_unshared (level depth : Nat) :
    ∀ bs : List Binding, (∀ ps ∈ Binding.signaturesList bs, Apart ps) →
      Binding.listed s level depth (Binding.unsharedList bs) = Binding.listed s level depth bs
  | [], _ => rfl
  | b :: rest, h => by
    obtain ⟨hb, hrest⟩ := List.forall_mem_append.mp h
    have hpieces := Binding.pieces_unshared level depth b hb
    have hlisted := Binding.listed_unshared level depth rest hrest
    simp only [Binding.unsharedList, Binding.listed, hpieces, hlisted,
      Binding.isEmpty_unsharedList]
termination_by structural bs => bs

theorem FunDef.pieces_unshared (level depth : Nat) :
    ∀ f : FunDef, (∀ ps ∈ f.signatures, Apart ps) →
      f.unshared.pieces s level depth = f.pieces s level depth
  | ⟨_, params, result, none⟩, h => by
    obtain ⟨hparams, hrest⟩ := List.forall_mem_append.mp h
    have hp := Binding.listed_unshared level depth params hparams
    have hr := Ty.pieces_unshared level depth result (List.forall_mem_append.mp hrest).1
    simp only [FunDef.unshared, Node.unsharedOption, FunDef.pieces, hp, hr]
  | ⟨_, params, result, some body⟩, h => by
    obtain ⟨hparams, hrest⟩ := List.forall_mem_append.mp h
    obtain ⟨hresult, hbody⟩ := List.forall_mem_append.mp hrest
    have hp := Binding.listed_unshared level depth params hparams
    have hr := Ty.pieces_unshared level depth result hresult
    have hb := Node.pieces_unshared level depth body hbody
    simp only [FunDef.unshared, Node.unsharedOption, FunDef.pieces, hp, hr, hb]
termination_by structural f => f

theorem Node.pieces_unshared (level depth : Nat) :
    ∀ n : Node, (∀ ps ∈ n.signatures, Apart ps) →
      n.unshared.pieces s level depth = n.pieces s level depth
  | .bad, _ | .comment _, _ | .ident _, _ | .boolLit _, _ | .floatLit _, _ | .strLit _, _
  | .ret none, _ => rfl
  | .intLit _ ty, _ => by
    simp only [Node.unshared, Node.pieces, Ty.isUnsigned_unsharedOption]
  | .unit items, h => by
    have hi := Node.lines_unshared level (depth - 1) items h
    simp only [Node.unshared, Node.pieces, hi, Node.isEmpty_unsharedList]
  | .typeDef t, h | .typeNode t, h => by
    have ht := Ty.pieces_unshared level depth t h
    simp only [Node.unshared, Node.pieces, ht]
  | .binding _ b, h => by
    have hb := Binding.pieces_unshared level depth b h
    simp only [Node.unshared, Node.pieces, hb]
  | .func f, h => by
    have hf := FunDef.pieces_unshared level depth f h
    simp only [Node.unshared, Node.pieces, hf]
  | .block items, h => by
    have hi := Node.lines_unshared (level + 1) (depth - 1) items h
    simp only [Node.unshared, Node.pieces, hi, Node.isEmpty_unsharedList]
  | .call callee args, h => by
    obtain ⟨hcallee, hargs⟩ := List.forall_mem_append.mp h
    have hc := Node.pieces_unshared level depth callee hcallee
    have ha := Node.listed_unshared level depth args hargs
    simp only [Node.unshared, Node.pieces, hc, ha]
  | .construct t arg, h => by
    obtain ⟨hty, harg⟩ := List.forall_mem_append.mp h
    have ht := Ty.pieces_unshared level depth t hty
    have ha := Node.piecesOr_unshared level depth arg harg
    simp only [Node.unshared, Node.pieces, ht, ha]
  | .member n _, h | .ret (some n), h | .deref n, h | .prefixed _ n, h | .postfixed _ n, h => by
    have hn := Node.pieces_unshared level depth n h
    simp only [Node.unshared, Node.unsharedOption, Node.pieces, hn]
  | .branch cond yes none, h => by
    obtain ⟨hcond, hrest⟩ := List.forall_mem_append.mp h
    have hc := Node.pieces_unshared level depth cond hcond
    have hy := Node.pieces_unshared level depth yes (List.forall_mem_append.mp hrest).1
    simp only [Node.unshared, Node.unsharedOption, Node.pieces, hc, hy]
  | .branch cond yes (some no), h => by
    obtain ⟨hcond, hrest⟩ := List.forall_mem_append.mp h
    obtain ⟨hyes, hno⟩ := List.forall_mem_append.mp hrest
    have hc := Node.pieces_unshared level depth cond hcond
    have hy := Node.pieces_unshared level depth yes hyes
    have hn := Node.pieces_unshared level depth no hno
    simp only [Node.unshared, Node.unsharedOption, Node.pieces, hc, hy, hn]
  | .loop start cond step body, h => by
    obtain ⟨hstart, hrest⟩ := List.forall_mem_append.mp h
    obtain ⟨hcond, hrest⟩ := List.forall_mem_append.mp hrest
    obtain ⟨hstep, hbody⟩ := List.forall_mem_append.mp hrest
    have hs := Node.piecesOr_unshared level (depth - 1) start hstart
    have hc := Node.piecesOr_unshared level (depth - 1) cond hcond
    have ht := Node.piecesOr_unshared level (depth - 1) step hstep
    have hb := Node.pieces_unshared level (depth - 1) body hbody
    simp only [Node.unshared, Node.pieces, hs, hc, ht, hb, Node.isSome_unsharedOption]
  | .assign _ left right, h | .binary _ left right, h => by
    obtain ⟨hleft, hright⟩ := List.forall_mem_append.mp h
    have hl := Node.pieces_unshared level depth left hleft
    have hr := Node.pieces_unshared level depth right hright
    simp only [Node.unshared, Node.pieces, hl, hr]
  | .arrayLit items, h => by
    have hi := Node.listed_unshared level depth items h
    simp only [Node.unshared, Node.pieces, hi]
termination_by structural n => n

theorem Node.piecesOr_unshared (level depth : Nat) :
    ∀ n : Option Node, (∀ ps ∈ Node.signaturesOption n, Apart ps) →
      Node.piecesOr s level depth (Node.unsharedOption n) = Node.piecesOr s level depth n
  | none, _ => rfl
  | some n, h => Node.pieces_unshared level depth n h
termination_by structural n => n

theorem Node.lines_unshared (level depth : Nat) :
    ∀ ns : List Node, (∀ ps ∈ Node.signaturesList ns, Apart ps) →
      Node.lines s level depth (Node.unsharedList ns) = Node.lines s level depth ns
  | [], _ => rfl
  | n :: rest, h => by
    obtain ⟨hn, hrest⟩ := List.forall_mem_append.mp h
    have hpieces := Node.pieces_unshared level depth n hn
    have hlines := Node.lines_unshared level depth rest hrest
    simp only [Node.unsharedList, Node.lines, hpieces, hlines]
termination_by structural ns => ns

theorem Node.listed_unshared (level depth : Nat) :
    ∀ ns : List Node, (∀ ps ∈ Node.signaturesList ns, Apart ps) →
      Node.listed s level depth (Node.unsharedList ns) = Node.listed s level depth ns
  | [], _ => rfl
  | n :: rest, h => by
    obtain ⟨hn, hrest⟩ := List.forall_mem_append.mp h
    have hpieces := Node.pieces_unshared level depth n hn
    have hlisted := Node.listed_unshared level depth rest hrest
    simp only [Node.unsharedList, Node.listed, hpieces, hlisted, Node.isEmpty_unsharedList]
termination_by structural ns => ns

end

end Unshared

theorem Node.dump_unshared {n : Node} (h : ∀ ps ∈ n.signatures, Binding.Apart ps) (mem : Memory)
    (s : Settings) (depth : Nat) : n.unshared.dump mem s depth = n.dump mem s depth := by
  have hpieces := n.pieces_unshared s 0 (max depth 1) h
  rw [Node.dump, Node.dump, Node.run, Node.run, hpieces]

namespace Location

/-- The same location in a closed input. -/
def closed (loc : Location) : Location := { loc with input := loc.input.map Input.close }

theorem encode_closed (loc : Location) : loc.closed.encode = loc.encode := by
  obtain ⟨_ | i, _, _⟩ := loc <;> rfl

theorem isKnown_closed (loc : Location) : loc.closed.isKnown = loc.isKnown := rfl

theorem texts_closed (loc : Location) : loc.closed.texts = loc.texts := by
  obtain ⟨_ | i, _, _⟩ := loc <;> rfl

theorem isOpen_of_mem_closed (loc : Location) : ∀ i ∈ loc.closed.inputs, i.isOpen = false := by
  obtain ⟨_ | i, _, _⟩ := loc <;> simp [closed, inputs, Input.close, Input.isOpen]

end Location

namespace Ir

namespace Value

def closed (v : Value) : Value := { v with loc := v.loc.map Location.closed }

theorem encode_closed (v : Value) : v.closed.encode = v.encode := by
  obtain ⟨_, _, _, _, _, _, _, _ | loc⟩ := v
  · rfl
  · simp [closed, encode, Location.encode_closed]

theorem isOpen_of_mem_closed (v : Value) : ∀ i ∈ v.closed.inputs, i.isOpen = false := by
  obtain ⟨_, _, _, _, _, _, _, _ | loc⟩ := v
  · simp [closed, inputs]
  · simpa [closed, inputs] using loc.isOpen_of_mem_closed

def signatures (v : Value) : List (List Binding) := v.ty.signatures

/-- What is written behind the type is what was written there. -/
theorem restSpans_stored (v : Value) (typeWidth : Nat) :
    v.closed.unshared.restSpans typeWidth = v.restSpans typeWidth := by
  have hloc (used : Nat) : v.closed.unshared.locationSpans used = v.locationSpans used := by
    obtain ⟨_, _, _, _, _, _, _, _ | loc⟩ := v
    · rfl
    · simp only [closed, unshared, locationSpans, Option.map_some, Location.texts_closed,
        Location.isKnown_closed]
  simp only [restSpans, hloc]
  rfl

theorem spans_stored (s : Settings) {v : Value} (h : ∀ ps ∈ v.signatures, Binding.Apart ps) :
    v.closed.unshared.spans s = v.spans s := by
  have htype : typeRun s v.closed.unshared.ty = typeRun s v.ty := v.ty.pieces_unshared s 0 1 h
  rw [spans, spans, htype, restSpans_stored]
  rfl

end Value

namespace Block

def closed (b : Block) : Block := { b with values := b.values.map Value.closed }

theorem encode_closed (b : Block) : b.closed.encode = b.encode := by
  simp [closed, encode, Function.comp_def, Value.encode_closed]

theorem isOpen_of_mem_closed (b : Block) : ∀ i ∈ b.closed.inputs, i.isOpen = false := by
  simp only [closed, inputs, List.forall_mem_flatMap, List.forall_mem_map]
  exact fun v _ => v.isOpen_of_mem_closed

def signatures (b : Block) : List (List Binding) := b.values.flatMap Value.signatures

theorem spans_stored (s : Settings) {b : Block} (h : ∀ ps ∈ b.signatures, Binding.Apart ps) :
    b.closed.unshared.spans s = b.spans s := by
  rw [signatures, List.forall_mem_flatMap] at h
  have hvalues : b.closed.unshared.values.flatMap (Value.spans s) =
      b.values.flatMap (Value.spans s) := by
    rw [unshared, closed, List.map_map, List.flatMap_map]
    exact List.flatMap_congr fun v hv => Value.spans_stored s (h v hv)
  rw [spans, spans, hvalues]
  rfl

end Block

namespace Func

def closed (f : Func) : Func := { f with blocks := f.blocks.map Block.closed }

theorem encode_closed (f : Func) : f.closed.encode = f.encode := by
  simp [closed, encode, Function.comp_def, Block.encode_closed]

theorem isOpen_of_mem_closed (f : Func) : ∀ i ∈ f.closed.inputs, i.isOpen = false := by
  simp only [closed, inputs, List.forall_mem_flatMap, List.forall_mem_map]
  exact fun b _ => b.isOpen_of_mem_closed

def signatures (f : Func) : List (List Binding) :=
  f.source.toList.flatMap FunDef.signatures ++ f.blocks.flatMap Block.signatures

theorem paramSpans_unshared (s : Settings) :
    ∀ bs : List Binding, (∀ ps ∈ Binding.signaturesList bs, Binding.Apart ps) →
      paramSpans s (Binding.unsharedList bs) = paramSpans s bs
  | [], _ => rfl
  | [b], h => by
    have hrun : paramRun s b.unshared = paramRun s b :=
      b.pieces_unshared s 0 1 (List.forall_mem_append.mp h).1
    rw [Binding.unsharedList, Binding.unsharedList, paramSpans, paramSpans, hrun]
  | b :: c :: rest, h => by
    obtain ⟨hb, hrest⟩ := List.forall_mem_append.mp h
    have hrun : paramRun s b.unshared = paramRun s b := b.pieces_unshared s 0 1 hb
    have hspans := paramSpans_unshared s (c :: rest) hrest
    change [_, _] ++ paramSpans s (Binding.unsharedList (c :: rest)) =
      [_, _] ++ paramSpans s (c :: rest)
    rw [hrun, hspans]

theorem signatureSpans_stored (s : Settings) {f : Func}
    (h : ∀ ps ∈ f.source.toList.flatMap FunDef.signatures, Binding.Apart ps) :
    f.closed.unshared.signatureSpans s = f.signatureSpans s := by
  obtain ⟨_, _ | ⟨name, params, result, body⟩, _⟩ := f
  · rfl
  · rw [Option.toList_some, List.flatMap_singleton] at h
    obtain ⟨hparams, hrest⟩ := List.forall_mem_append.mp h
    have hp := paramSpans_unshared s params hparams
    have hr : typeRun s result.unshared = typeRun s result :=
      result.pieces_unshared s 0 1 (List.forall_mem_append.mp hrest).1
    simp only [closed, unshared, signatureSpans, Option.map_some, FunDef.unshared, hp, hr]

theorem spans_stored (s : Settings) {f : Func} (h : ∀ ps ∈ f.signatures, Binding.Apart ps) :
    f.closed.unshared.spans s = f.spans s := by
  obtain ⟨hsource, hblocks⟩ := List.forall_mem_append.mp h
  rw [List.forall_mem_flatMap] at hblocks
  have hspans : f.closed.unshared.blocks.flatMap (Block.spans s) =
      f.blocks.flatMap (Block.spans s) := by
    rw [unshared, closed, List.map_map, List.flatMap_map]
    exact List.flatMap_congr fun b hb => Block.spans_stored s (hblocks b hb)
  rw [spans, spans, hspans, signatureSpans_stored s hsource]
  rfl

end Func

namespace Module

def closed (m : Module) : Module := ⟨m.functions.map Func.closed⟩

theorem encode_closed (m : Module) : m.closed.encode = m.encode := by
  simp [closed, encode, Function.comp_def, Func.encode_closed]

theorem isOpen_of_mem_closed (m : Module) : ∀ i ∈ m.closed.inputs, i.isOpen = false := by
  simp only [closed, inputs, List.forall_mem_flatMap, List.forall_mem_map]
  exact fun f _ => f.isOpen_of_mem_closed

theorem doubles_closed (m : Module) : m.closed.doubles = m.doubles := by
  simp only [closed, doubles, Func.closed, Func.doubles, Block.closed, Block.doubles,
    List.flatMap_map]
  rfl

/-- A module is read back with closed inputs and with every reference to an object of its own. -/
theorem decode_encode_closed (m : Module) (room : Nat) (h : m.encode.brackets ≤ room)
    (hd : ∀ x ∈ m.doubles, x.ReadsBack) : decode room m.encode = some m.closed.unshared := by
  rw [← m.encode_closed] at h ⊢
  rw [← m.doubles_closed] at hd
  exact m.closed.decode_encode room h hd m.isOpen_of_mem_closed

def signatures (m : Module) : List (List Binding) := m.functions.flatMap Func.signatures

theorem dump_stored {m : Module} (h : ∀ ps ∈ m.signatures, Binding.Apart ps) (mem : Memory)
    (s : Settings) : m.closed.unshared.dump mem s = m.dump mem s := by
  rw [signatures, List.forall_mem_flatMap] at h
  have hspans : m.closed.unshared.spans s = m.spans s := by
    rw [spans, spans, unshared, closed, List.map_map, List.flatMap_map]
    exact List.flatMap_congr fun f hf => Func.spans_stored s (h f hf)
  rw [dump, dump, Buffer.putModule, Buffer.putModule, hspans]

end Module

end Ir

namespace Stored

open Binding (Apart)

/-- A tree or a module that was written and read back has the dump it had before, at every depth
and under all settings; and so have any two of them that differ in nothing but sharing. All that is
asked of what is shared is that no neighbours in a function type share. -/
theorem dump_read_write :
    (∀ n : Node, n.encode.brackets ≤ maxBrackets → (∀ x ∈ n.doubles, x.ReadsBack) →
      (∀ ps ∈ n.signatures, Apart ps) →
        ∃ n' : Node, read (write n) = .ok n' ∧
          ∀ mem s depth, n'.dump mem s depth = n.dump mem s depth) ∧
    (∀ m : Ir.Module, m.encode.brackets ≤ maxBrackets → (∀ x ∈ m.doubles, x.ReadsBack) →
      (∀ ps ∈ m.signatures, Apart ps) →
        ∃ m' : Ir.Module, read (write m) = .ok m' ∧
          ∀ mem s, m'.dump mem s = m.dump mem s) ∧
    (∀ n n' : Node, n.unshared = n'.unshared → (∀ ps ∈ n.signatures, Apart ps) →
      (∀ ps ∈ n'.signatures, Apart ps) →
        ∀ mem s depth, n.dump mem s depth = n'.dump mem s depth) ∧
    (∀ m m' : Ir.Module, m.closed.unshared = m'.closed.unshared →
      (∀ ps ∈ m.signatures, Apart ps) → (∀ ps ∈ m'.signatures, Apart ps) →
        ∀ mem s, m.dump mem s = m'.dump mem s) := by
  refine ⟨?_, ?_, ?_, ?_⟩
  · intro n hn hd hapart
    have hdecode := n.decode_encode maxBrackets hn hd
    exact ⟨n.unshared, read_write_of_decode n.proper_encode hdecode, Node.dump_unshared hapart⟩
  · intro m hm hd hapart
    have hdecode := m.decode_encode_closed maxBrackets hm hd
    exact ⟨m.closed.unshared, read_write_of_decode m.proper_encode hdecode,
      Ir.Module.dump_stored hapart⟩
  · intro n n' heq hapart hapart' mem s depth
    rw [← Node.dump_unshared hapart, heq, Node.dump_unshared hapart']
  · intro m m' heq hapart hapart' mem s
    rw [← Ir.Module.dump_stored hapart, heq, Ir.Module.dump_stored hapart']

/-- One type object at three places, twice in one function type, with parameters between them that
have no type at all. -/
theorem dump_read_write_apart :
    let t : TypeRef := ⟨some 7, .prim .f64⟩
    let params : List Binding :=
      [.typed "x" t, .untyped "y", .untyped "z", .typed "w" t]
    let n : Node :=
      .block [.typeDef (.func params (.prim .void)), .binding .letBound (.typed "v" t)]
    (∀ ps ∈ n.signatures, Apart ps) ∧
      ∃ n' : Node, read (write n) = .ok n' ∧
        (n'.dump .standard .default 3).toOption =
          some "\x7b\n  type fun(x f64, y, z (NULL), w f64) void\n  let v f64\n\x7d" := by
  intro t params n
  have hapart : ∀ ps ∈ n.signatures, Apart ps := by decide +kernel
  obtain ⟨n', hread, hdump⟩ := dump_read_write.1 n (by decide +kernel) (by decide +kernel) hapart
  refine ⟨hapart, n', hread, ?_⟩
  rw [hdump]
  decide +kernel

/-- Neighbours that share are shown as one group, which is gone once they no longer share. -/
example :
    let t : Ty := .func [.typed "x" ⟨some 7, .prim .f64⟩, .typed "y" ⟨some 7, .prim .f64⟩]
      (.prim .void)
    Piece.layout (t.run .default 1) = "fun(x, y f64) void" ∧
      Piece.layout (t.unshared.run .default 1) = "fun(x f64, y f64) void" := by
  decide +kernel

end Stored

end CodeDump
