import CodeDump.Proofs.Identity
import CodeDump.Proofs.Rendering
import CodeDump.Proofs.SharingFree

/-!
# The step slot of loops

One setting of the printer says what the third slot of a loop header shows: the start expression
once more, or the step. A tree in which each step has been replaced by the start, as `restepped`
does it, looks under the second setting as the tree itself does under the first, so the settings
differ in nothing else.

The types in such a tree are other objects than before. How they are numbered is left open: all
that the text depends on is that parameters share a type exactly where they did.
-/

namespace CodeDump

section Restepped

variable (number : TypeRef → Option Nat)

mutual

/-- The same type with the step of each loop, if there is one, replaced by the start. A type object
has the number that `number` gives for what it was before. -/
def Ty.restepped (t : Ty) : Ty :=
  match t with
  | .prim p => .prim p
  | .struct name fields => .struct name (Binding.resteppedList fields)
  | .func params result => .func (Binding.resteppedList params) (Ty.restepped result)
  | .array elem length => .array (Ty.restepped elem) length
  | .slice elem isMut => .slice (Ty.restepped elem) isMut
  | .pointer elem => .pointer (Ty.restepped elem)
  | .reference elem isMut => .reference (Ty.restepped elem) isMut
  | .optional elem => .optional (Ty.restepped elem)
  | .named name elem => .named name (Ty.restepped elem)
  | .unknown => .unknown
  | .unresolved name => .unresolved name
termination_by structural t

def Ty.resteppedOption (t : Option Ty) : Option Ty :=
  match t with
  | none => none
  | some t => some (Ty.restepped t)
termination_by structural t

def TypeRef.restepped (r : TypeRef) : TypeRef :=
  match r with
  | ⟨object, t⟩ => ⟨number ⟨object, t⟩, Ty.restepped t⟩
termination_by structural r

def TypeRef.resteppedOption (r : Option TypeRef) : Option TypeRef :=
  match r with
  | none => none
  | some r => some (TypeRef.restepped r)
termination_by structural r

def Binding.restepped (b : Binding) : Binding :=
  match b with
  | ⟨name, ty, init⟩ => ⟨name, TypeRef.resteppedOption ty, Node.resteppedOption init⟩
termination_by structural b

def Binding.resteppedList (bs : List Binding) : List Binding :=
  match bs with
  | [] => []
  | b :: rest => Binding.restepped b :: Binding.resteppedList rest
termination_by structural bs

def FunDef.restepped (f : FunDef) : FunDef :=
  match f with
  | ⟨name, params, result, body⟩ =>
      ⟨name, Binding.resteppedList params, Ty.restepped result, Node.resteppedOption body⟩
termination_by structural f

def Node.restepped (n : Node) : Node :=
  match n with
  | .bad => .bad
  | .comment s => .comment s
  | .unit items => .unit (Node.resteppedList items)
  | .typeDef t => .typeDef (Ty.restepped t)
  | .binding role b => .binding role (Binding.restepped b)
  | .func f => .func (FunDef.restepped f)
  | .block items => .block (Node.resteppedList items)
  | .call callee args => .call (Node.restepped callee) (Node.resteppedList args)
  | .construct t arg => .construct (Ty.restepped t) (Node.resteppedOption arg)
  | .member base name => .member (Node.restepped base) name
  | .branch cond yes no =>
      .branch (Node.restepped cond) (Node.restepped yes) (Node.resteppedOption no)
  | .loop start cond step body =>
      .loop (Node.resteppedOption start) (Node.resteppedOption cond)
        (match step with
          | none => none
          | some _ => some ((Node.resteppedOption start).getD (.ident absentText)))
        (Node.restepped body)
  | .ident name => .ident name
  | .ret value => .ret (Node.resteppedOption value)
  | .deref arg => .deref (Node.restepped arg)
  | .prefixed op arg => .prefixed op (Node.restepped arg)
  | .postfixed op arg => .postfixed op (Node.restepped arg)
  | .assign op left right => .assign op (Node.restepped left) (Node.restepped right)
  | .binary op left right => .binary op (Node.restepped left) (Node.restepped right)
  | .boolLit b => .boolLit b
  | .intLit value ty => .intLit value (Ty.resteppedOption ty)
  | .floatLit x => .floatLit x
  | .strLit bytes => .strLit bytes
  | .arrayLit items => .arrayLit (Node.resteppedList items)
  | .typeNode t => .typeNode (Ty.restepped t)
termination_by structural n

def Node.resteppedOption (n : Option Node) : Option Node :=
  match n with
  | none => none
  | some n => some (Node.restepped n)
termination_by structural n

def Node.resteppedList (ns : List Node) : List Node :=
  match ns with
  | [] => []
  | n :: rest => Node.restepped n :: Node.resteppedList rest
termination_by structural ns

end

end Restepped

mutual

/-- No loop has a step. The type of an integer is not looked at, since it is never printed. -/
def Ty.stepless (t : Ty) : Bool :=
  match t with
  | .prim _ | .unknown | .unresolved _ => true
  | .struct _ fields => Binding.allStepless fields
  | .func params result => Binding.allStepless params && result.stepless
  | .array elem _ | .slice elem _ | .reference elem _ => elem.stepless
  | .pointer elem | .optional elem | .named _ elem => elem.stepless
termination_by structural t

def TypeRef.stepless (r : TypeRef) : Bool :=
  match r with
  | ⟨_, t⟩ => t.stepless
termination_by structural r

def TypeRef.steplessOr (r : Option TypeRef) : Bool :=
  match r with
  | none => true
  | some r => r.stepless
termination_by structural r

def Binding.stepless (b : Binding) : Bool :=
  match b with
  | ⟨_, ty, init⟩ => TypeRef.steplessOr ty && Node.steplessOr init
termination_by structural b

def Binding.allStepless (bs : List Binding) : Bool :=
  match bs with
  | [] => true
  | b :: rest => b.stepless && Binding.allStepless rest
termination_by structural bs

def FunDef.stepless (f : FunDef) : Bool :=
  match f with
  | ⟨_, params, result, body⟩ =>
      Binding.allStepless params && result.stepless && Node.steplessOr body
termination_by structural f

def Node.stepless (n : Node) : Bool :=
  match n with
  | .bad | .comment _ | .ident _ | .boolLit _ | .intLit _ _ | .floatLit _ | .strLit _ => true
  | .unit items | .block items | .arrayLit items => Node.allStepless items
  | .typeDef t | .typeNode t => t.stepless
  | .binding _ b => b.stepless
  | .func f => f.stepless
  | .call callee args => callee.stepless && Node.allStepless args
  | .construct t arg => t.stepless && Node.steplessOr arg
  | .member base _ => base.stepless
  | .branch cond yes no => cond.stepless && yes.stepless && Node.steplessOr no
  | .loop start cond step body =>
      step.isNone && Node.steplessOr start && Node.steplessOr cond && body.stepless
  | .ret value => Node.steplessOr value
  | .deref arg | .prefixed _ arg | .postfixed _ arg => arg.stepless
  | .assign _ left right | .binary _ left right => left.stepless && right.stepless
termination_by structural n

def Node.steplessOr (n : Option Node) : Bool :=
  match n with
  | none => true
  | some n => n.stepless
termination_by structural n

def Node.allStepless (ns : List Node) : Bool :=
  match ns with
  | [] => true
  | n :: rest => n.stepless && Node.allStepless rest
termination_by structural ns

end

/-- Neighbours share a type after the replacement exactly if they did before. -/
def Binding.SharingKept (number : TypeRef → Option Nat) (params : List Binding) : Prop :=
  params.IsChain fun b c =>
    (b.restepped number).sharesType (c.restepped number) = b.sharesType c

/-- In the function types of a node, parameters share a type as before. -/
def Node.SharingKept (number : TypeRef → Option Nat) (n : Node) : Prop :=
  ∀ ps ∈ n.signatures, Binding.SharingKept number ps

/-- References of neighbours that carry one object number are to one object. -/
def Binding.Coherent (params : List Binding) : Prop :=
  params.IsChain fun b c =>
    ∀ r ∈ b.ty, ∀ q ∈ c.ty, r.object.isSome = true → r.object = q.object → r = q

instance (params : List Binding) : Decidable (Binding.Coherent params) :=
  have : DecidableEq TypeRef := instDecidableEqOfLawfulBEq
  inferInstanceAs (Decidable (params.IsChain _))

section Sharing

variable {number : TypeRef → Option Nat}

theorem TypeRef.sameObject_restepped {r q : TypeRef}
    (hsome : (number r).isSome = r.object.isSome)
    (hinj : r.object.isSome = true → number r = number q → r = q) :
    (r.restepped number).sameObject (q.restepped number) = r.sameObject q := by
  have hobject (r : TypeRef) : (r.restepped number).object = number r := by cases r; rfl
  rw [Bool.eq_iff_iff, sameObject_iff, sameObject_iff, hobject, hsome]
  constructor
  · rintro ⟨hr, heq⟩
    have hnumber : number r = number q := by rw [← hobject r, heq, hobject]
    exact ⟨hr, hinj hr hnumber⟩
  · rintro ⟨hr, rfl⟩
    exact ⟨hr, rfl⟩

theorem Binding.sharesType_restepped {b c : Binding}
    (h : ∀ r ∈ b.ty, ∀ q ∈ c.ty,
      (r.restepped number).sameObject (q.restepped number) = r.sameObject q) :
    (b.restepped number).sharesType (c.restepped number) = b.sharesType c := by
  obtain ⟨_, _ | r, _⟩ := b <;> obtain ⟨_, _ | q, _⟩ := c
  · rfl
  · rfl
  · rfl
  · exact h r rfl q rfl

/-- Where one number is one object, the numbers can stay. -/
theorem Binding.Coherent.sharingKept {params : List Binding} (h : Coherent params) :
    SharingKept TypeRef.object params :=
  h.imp fun _ _ hbc => sharesType_restepped fun r hr q hq =>
    TypeRef.sameObject_restepped rfl (hbc r hr q hq)

end Sharing

/-- The types of the parameters in the function types of a node. -/
def Node.paramTypes (n : Node) : List TypeRef := n.signatures.flatten.filterMap Binding.ty

namespace TypeRef

/-- Numbers an object by its place in a list. -/
def place (refs : List TypeRef) (r : TypeRef) : Option Nat := r.object.map fun _ => refs.idxOf r

variable {refs : List TypeRef} {r q : TypeRef}

theorem isSome_place : (r.place refs).isSome = r.object.isSome := Option.isSome_map

theorem eq_of_place (hr : r ∈ refs) (hobject : r.object.isSome = true)
    (h : r.place refs = q.place refs) : r = q := by
  have hobject' : q.object.isSome = true := by rw [← isSome_place, ← h, isSome_place, hobject]
  obtain ⟨_, ho⟩ := Option.isSome_iff_exists.mp hobject
  obtain ⟨_, hp⟩ := Option.isSome_iff_exists.mp hobject'
  rw [place, place, ho, hp, Option.map_some, Option.map_some, Option.some.injEq] at h
  exact (List.idxOf_inj hr).mp h

end TypeRef

/-- In any tree objects can be told apart by their places. -/
theorem Node.sharingKept_place (n : Node) : n.SharingKept (TypeRef.place n.paramTypes) := by
  intro ps hps
  refine (List.pairwise_of_forall_mem_list fun b hb c _ => ?_).isChain
  refine Binding.sharesType_restepped fun r hr q _ => ?_
  have hmem : r ∈ n.paramTypes :=
    List.mem_filterMap.mpr ⟨b, List.mem_flatten.mpr ⟨ps, hps, hb⟩, hr⟩
  exact TypeRef.sameObject_restepped TypeRef.isSome_place (TypeRef.eq_of_place hmem)

namespace Settings

variable (s : Settings) (step : LoopStep)

@[simp] theorem lineAt_withLoopStep (level : Nat) :
    (s.withLoopStep step).lineAt level = s.lineAt level := rfl

@[simp] theorem loopStep_withLoopStep : (s.withLoopStep step).loopStep = step := rfl

end Settings

section Pieces

variable (s : Settings) (number : TypeRef → Option Nat)

namespace Binding

theorem head?_resteppedList (bs : List Binding) :
    (resteppedList number bs).head? = bs.head?.map (restepped number) := by
  cases bs <;> rfl

theorem isEmpty_resteppedList (bs : List Binding) :
    (resteppedList number bs).isEmpty = bs.isEmpty := by
  cases bs <;> rfl

variable {number} in
theorem any_sharesType_restepped {b : Binding} {next : Option Binding}
    (h : ∀ c ∈ next, (b.restepped number).sharesType (c.restepped number) = b.sharesType c) :
    (next.map (restepped number)).any (b.restepped number).sharesType =
      next.any b.sharesType := by
  cases next with
  | none => rfl
  | some c => exact h c rfl

end Binding

theorem Node.isEmpty_resteppedList (ns : List Node) :
    (resteppedList number ns).isEmpty = ns.isEmpty := by
  cases ns <;> rfl

theorem Node.isSome_resteppedOption (n : Option Node) :
    (resteppedOption number n).isSome = n.isSome := by
  cases n <;> rfl

theorem Ty.isUnsigned_resteppedOption (t : Option Ty) :
    (resteppedOption number t).any Ty.isUnsigned = t.any Ty.isUnsigned := by
  cases t with
  | none => rfl
  | some t => cases t <;> rfl

/-- An absent part is shown as an identifier with the text of one is. -/
theorem Node.piecesOr_getD_absent (level depth : Nat) (n : Option Node) :
    Node.piecesOr s level depth (some (n.getD (.ident absentText))) =
      Node.piecesOr s level depth n := by
  cases n <;> rfl

mutual

theorem Ty.pieces_restepped (level depth : Nat) :
    ∀ t : Ty, (∀ ps ∈ t.signatures, Binding.SharingKept number ps) →
      (t.restepped number).pieces (s.withLoopStep .stop) level depth =
        t.pieces (s.withLoopStep .start) level depth
  | .prim _, _ | .unknown, _ | .unresolved _, _ => rfl
  | .struct name fields, h => by
    have hf := Binding.fieldLines_restepped (level + 1) depth fields h
    simp only [Ty.restepped, Ty.pieces, hf, Binding.isEmpty_resteppedList,
      Settings.lineAt_withLoopStep]
  | .func params result, h => by
    obtain ⟨hkept, hrest⟩ := List.forall_mem_cons.mp h
    obtain ⟨hparams, hresult⟩ := List.forall_mem_append.mp hrest
    have hp := Binding.grouped_restepped level depth params hkept hparams
    have hr := Ty.pieces_restepped level depth result hresult
    simp only [Ty.restepped, Ty.pieces, hp, hr]
  | .array elem _, h | .slice elem _, h | .reference elem _, h | .pointer elem, h
  | .optional elem, h | .named _ elem, h => by
    have he := Ty.pieces_restepped level depth elem h
    simp only [Ty.restepped, Ty.pieces, he]
termination_by structural t => t

theorem TypeRef.pieces_restepped (level depth : Nat) :
    ∀ r : TypeRef, (∀ ps ∈ r.signatures, Binding.SharingKept number ps) →
      (r.restepped number).pieces (s.withLoopStep .stop) level depth =
        r.pieces (s.withLoopStep .start) level depth
  | ⟨_, t⟩, h => Ty.pieces_restepped level depth t h
termination_by structural r => r

theorem TypeRef.piecesOr_restepped (level depth : Nat) :
    ∀ r : Option TypeRef,
      (∀ ps ∈ TypeRef.signaturesOption r, Binding.SharingKept number ps) →
      TypeRef.piecesOr (s.withLoopStep .stop) level depth (TypeRef.resteppedOption number r) =
        TypeRef.piecesOr (s.withLoopStep .start) level depth r
  | none, _ => rfl
  | some r, h => TypeRef.pieces_restepped level depth r h
termination_by structural r => r

theorem Binding.pieces_restepped (level depth : Nat) :
    ∀ b : Binding, (∀ ps ∈ b.signatures, Binding.SharingKept number ps) →
      (b.restepped number).pieces (s.withLoopStep .stop) level depth =
        b.pieces (s.withLoopStep .start) level depth
  | ⟨_, ty, none⟩, h => by
    have ht := TypeRef.piecesOr_restepped level depth ty (List.forall_mem_append.mp h).1
    simp only [Binding.restepped, Node.resteppedOption, Binding.pieces, ht]
  | ⟨_, ty, some value⟩, h => by
    obtain ⟨hty, hvalue⟩ := List.forall_mem_append.mp h
    have ht := TypeRef.piecesOr_restepped level depth ty hty
    have hv := Node.pieces_restepped level depth value hvalue
    simp only [Binding.restepped, Node.resteppedOption, Binding.pieces, ht, hv]
termination_by structural b => b

theorem Binding.fieldPieces_restepped (level depth : Nat) :
    ∀ b : Binding, (∀ ps ∈ b.signatures, Binding.SharingKept number ps) →
      (b.restepped number).fieldPieces (s.withLoopStep .stop) level depth =
        b.fieldPieces (s.withLoopStep .start) level depth
  | ⟨_, ty, none⟩, h => by
    have ht := TypeRef.piecesOr_restepped level depth ty (List.forall_mem_append.mp h).1
    simp only [Binding.restepped, Node.resteppedOption, Binding.fieldPieces, ht]
  | ⟨_, ty, some value⟩, h => by
    obtain ⟨hty, hvalue⟩ := List.forall_mem_append.mp h
    have ht := TypeRef.piecesOr_restepped level depth ty hty
    have hv := Node.pieces_restepped level depth value hvalue
    simp only [Binding.restepped, Node.resteppedOption, Binding.fieldPieces, ht, hv]
termination_by structural b => b

theorem Binding.fieldLines_restepped (level depth : Nat) :
    ∀ bs : List Binding,
      (∀ ps ∈ Binding.signaturesList bs, Binding.SharingKept number ps) →
      Binding.fieldLines (s.withLoopStep .stop) level depth (Binding.resteppedList number bs) =
        Binding.fieldLines (s.withLoopStep .start) level depth bs
  | [], _ => rfl
  | b :: rest, h => by
    obtain ⟨hb, hrest⟩ := List.forall_mem_append.mp h
    have hfield := Binding.fieldPieces_restepped level depth b hb
    have hlines := Binding.fieldLines_restepped level depth rest hrest
    simp only [Binding.resteppedList, Binding.fieldLines, hfield, hlines,
      Settings.lineAt_withLoopStep]
termination_by structural bs => bs

theorem Binding.groupedType_restepped (level depth : Nat) (next : Option Binding) :
    ∀ b : Binding,
      (∀ c ∈ next, (b.restepped number).sharesType (c.restepped number) = b.sharesType c) →
      (∀ ps ∈ b.signatures, Binding.SharingKept number ps) →
      Binding.groupedType (s.withLoopStep .stop) level depth
          (next.map (Binding.restepped number)) (b.restepped number) =
        Binding.groupedType (s.withLoopStep .start) level depth next b
  | ⟨name, ty, init⟩, hnext, h => by
    have hany := Binding.any_sharesType_restepped hnext
    have ht := TypeRef.piecesOr_restepped level depth ty (List.forall_mem_append.mp h).1
    simp only [Binding.restepped, Binding.groupedType] at hany ⊢
    rw [hany, ht]
termination_by structural b => b

theorem Binding.grouped_restepped (level depth : Nat) :
    ∀ bs : List Binding, Binding.SharingKept number bs →
      (∀ ps ∈ Binding.signaturesList bs, Binding.SharingKept number ps) →
      Binding.grouped (s.withLoopStep .stop) level depth (Binding.resteppedList number bs) =
        Binding.grouped (s.withLoopStep .start) level depth bs
  | [], _, _ => rfl
  | b :: rest, hkept, h => by
    obtain ⟨hnext, hchain⟩ := List.isChain_cons.mp hkept
    obtain ⟨hb, hrest⟩ := List.forall_mem_append.mp h
    have htype := Binding.groupedType_restepped level depth rest.head? b hnext hb
    have hgrouped := Binding.grouped_restepped level depth rest hchain hrest
    have hname : (b.restepped number).name = b.name := by cases b; rfl
    rw [Binding.resteppedList, Binding.grouped, Binding.grouped, Binding.head?_resteppedList,
      htype, hgrouped, hname, Binding.isEmpty_resteppedList]
termination_by structural bs => bs

theorem Binding.listed_restepped (level depth : Nat) :
    ∀ bs : List Binding,
      (∀ ps ∈ Binding.signaturesList bs, Binding.SharingKept number ps) →
      Binding.listed (s.withLoopStep .stop) level depth (Binding.resteppedList number bs) =
        Binding.listed (s.withLoopStep .start) level depth bs
  | [], _ => rfl
  | b :: rest, h => by
    obtain ⟨hb, hrest⟩ := List.forall_mem_append.mp h
    have hpieces := Binding.pieces_restepped level depth b hb
    have hlisted := Binding.listed_restepped level depth rest hrest
    simp only [Binding.resteppedList, Binding.listed, hpieces, hlisted,
      Binding.isEmpty_resteppedList]
termination_by structural bs => bs

theorem FunDef.pieces_restepped (level depth : Nat) :
    ∀ f : FunDef, (∀ ps ∈ f.signatures, Binding.SharingKept number ps) →
      (f.restepped number).pieces (s.withLoopStep .stop) level depth =
        f.pieces (s.withLoopStep .start) level depth
  | ⟨_, params, result, none⟩, h => by
    obtain ⟨hparams, hrest⟩ := List.forall_mem_append.mp h
    have hp := Binding.listed_restepped level depth params hparams
    have hr := Ty.pieces_restepped level depth result (List.forall_mem_append.mp hrest).1
    simp only [FunDef.restepped, Node.resteppedOption, FunDef.pieces, hp, hr]
  | ⟨_, params, result, some body⟩, h => by
    obtain ⟨hparams, hrest⟩ := List.forall_mem_append.mp h
    obtain ⟨hresult, hbody⟩ := List.forall_mem_append.mp hrest
    have hp := Binding.listed_restepped level depth params hparams
    have hr := Ty.pieces_restepped level depth result hresult
    have hb := Node.pieces_restepped level depth body hbody
    simp only [FunDef.restepped, Node.resteppedOption, FunDef.pieces, hp, hr, hb]
termination_by structural f => f

theorem Node.pieces_restepped (level depth : Nat) :
    ∀ n : Node, (∀ ps ∈ n.signatures, Binding.SharingKept number ps) →
      (n.restepped number).pieces (s.withLoopStep .stop) level depth =
        n.pieces (s.withLoopStep .start) level depth
  | .bad, _ | .comment _, _ | .ident _, _ | .boolLit _, _ | .floatLit _, _ | .strLit _, _
  | .ret none, _ => rfl
  | .intLit _ ty, _ => by
    simp only [Node.restepped, Node.pieces, Ty.isUnsigned_resteppedOption]
  | .unit items, h => by
    have hi := Node.lines_restepped level (depth - 1) items h
    simp only [Node.restepped, Node.pieces, hi, Node.isEmpty_resteppedList]
  | .typeDef t, h | .typeNode t, h => by
    have ht := Ty.pieces_restepped level depth t h
    simp only [Node.restepped, Node.pieces, ht]
  | .binding _ b, h => by
    have hb := Binding.pieces_restepped level depth b h
    simp only [Node.restepped, Node.pieces, hb]
  | .func f, h => by
    have hf := FunDef.pieces_restepped level depth f h
    simp only [Node.restepped, Node.pieces, hf]
  | .block items, h => by
    have hi := Node.lines_restepped (level + 1) (depth - 1) items h
    simp only [Node.restepped, Node.pieces, hi, Node.isEmpty_resteppedList,
      Settings.lineAt_withLoopStep]
  | .call callee args, h => by
    obtain ⟨hcallee, hargs⟩ := List.forall_mem_append.mp h
    have hc := Node.pieces_restepped level depth callee hcallee
    have ha := Node.listed_restepped level depth args hargs
    simp only [Node.restepped, Node.pieces, hc, ha]
  | .construct t arg, h => by
    obtain ⟨hty, harg⟩ := List.forall_mem_append.mp h
    have ht := Ty.pieces_restepped level depth t hty
    have ha := Node.piecesOr_restepped level depth arg harg
    simp only [Node.restepped, Node.pieces, ht, ha]
  | .member n _, h | .ret (some n), h | .deref n, h | .prefixed _ n, h | .postfixed _ n, h => by
    have hn := Node.pieces_restepped level depth n h
    simp only [Node.restepped, Node.resteppedOption, Node.pieces, hn]
  | .branch cond yes none, h => by
    obtain ⟨hcond, hrest⟩ := List.forall_mem_append.mp h
    have hc := Node.pieces_restepped level depth cond hcond
    have hy := Node.pieces_restepped level depth yes (List.forall_mem_append.mp hrest).1
    simp only [Node.restepped, Node.resteppedOption, Node.pieces, hc, hy]
  | .branch cond yes (some no), h => by
    obtain ⟨hcond, hrest⟩ := List.forall_mem_append.mp h
    obtain ⟨hyes, hno⟩ := List.forall_mem_append.mp hrest
    have hc := Node.pieces_restepped level depth cond hcond
    have hy := Node.pieces_restepped level depth yes hyes
    have hn := Node.pieces_restepped level depth no hno
    simp only [Node.restepped, Node.resteppedOption, Node.pieces, hc, hy, hn]
  | .loop start cond step body, h => by
    obtain ⟨hstart, hrest⟩ := List.forall_mem_append.mp h
    obtain ⟨hcond, hrest⟩ := List.forall_mem_append.mp hrest
    have hs := Node.piecesOr_restepped level (depth - 1) start hstart
    have hc := Node.piecesOr_restepped level (depth - 1) cond hcond
    have hb := Node.pieces_restepped level (depth - 1) body (List.forall_mem_append.mp hrest).2
    -- Only a loop that has a step shows its third slot.
    cases step with
    | none =>
      simp only [Node.restepped, Node.pieces, hs, hc, hb, Node.isSome_resteppedOption,
        Option.isSome_none, Bool.false_eq_true, if_false]
    | some _ =>
      simp only [Node.restepped, Node.pieces, Settings.loopStep_withLoopStep,
        Node.piecesOr_getD_absent, hs, hc, hb, Node.isSome_resteppedOption, Option.isSome_some]
  | .assign _ left right, h | .binary _ left right, h => by
    obtain ⟨hleft, hright⟩ := List.forall_mem_append.mp h
    have hl := Node.pieces_restepped level depth left hleft
    have hr := Node.pieces_restepped level depth right hright
    simp only [Node.restepped, Node.pieces, hl, hr]
  | .arrayLit items, h => by
    have hi := Node.listed_restepped level depth items h
    simp only [Node.restepped, Node.pieces, hi]
termination_by structural n => n

theorem Node.piecesOr_restepped (level depth : Nat) :
    ∀ n : Option Node, (∀ ps ∈ Node.signaturesOption n, Binding.SharingKept number ps) →
      Node.piecesOr (s.withLoopStep .stop) level depth (Node.resteppedOption number n) =
        Node.piecesOr (s.withLoopStep .start) level depth n
  | none, _ => rfl
  | some n, h => Node.pieces_restepped level depth n h
termination_by structural n => n

theorem Node.lines_restepped (level depth : Nat) :
    ∀ ns : List Node, (∀ ps ∈ Node.signaturesList ns, Binding.SharingKept number ps) →
      Node.lines (s.withLoopStep .stop) level depth (Node.resteppedList number ns) =
        Node.lines (s.withLoopStep .start) level depth ns
  | [], _ => rfl
  | n :: rest, h => by
    obtain ⟨hn, hrest⟩ := List.forall_mem_append.mp h
    have hpieces := Node.pieces_restepped level depth n hn
    have hlines := Node.lines_restepped level depth rest hrest
    simp only [Node.resteppedList, Node.lines, hpieces, hlines, Settings.lineAt_withLoopStep]
termination_by structural ns => ns

theorem Node.listed_restepped (level depth : Nat) :
    ∀ ns : List Node, (∀ ps ∈ Node.signaturesList ns, Binding.SharingKept number ps) →
      Node.listed (s.withLoopStep .stop) level depth (Node.resteppedList number ns) =
        Node.listed (s.withLoopStep .start) level depth ns
  | [], _ => rfl
  | n :: rest, h => by
    obtain ⟨hn, hrest⟩ := List.forall_mem_append.mp h
    have hpieces := Node.pieces_restepped level depth n hn
    have hlisted := Node.listed_restepped level depth rest hrest
    simp only [Node.resteppedList, Node.listed, hpieces, hlisted, Node.isEmpty_resteppedList]
termination_by structural ns => ns

end

end Pieces

section Stepless

variable (s : Settings) (step : LoopStep)

mutual

theorem Ty.pieces_withLoopStep (level depth : Nat) :
    ∀ t : Ty, t.stepless = true →
      t.pieces (s.withLoopStep step) level depth = t.pieces s level depth
  | .prim _, _ | .unknown, _ | .unresolved _, _ => rfl
  | .struct name fields, h => by
    have hf := Binding.fieldLines_withLoopStep (level + 1) depth fields h
    simp only [Ty.pieces, hf, Settings.lineAt_withLoopStep]
  | .func params result, h => by
    obtain ⟨hparams, hresult⟩ := Bool.and_eq_true_iff.mp h
    have hp := Binding.grouped_withLoopStep level depth params hparams
    have hr := Ty.pieces_withLoopStep level depth result hresult
    simp only [Ty.pieces, hp, hr]
  | .array elem _, h | .slice elem _, h | .reference elem _, h | .pointer elem, h
  | .optional elem, h | .named _ elem, h => by
    have he := Ty.pieces_withLoopStep level depth elem h
    simp only [Ty.pieces, he]
termination_by structural t => t

theorem TypeRef.pieces_withLoopStep (level depth : Nat) :
    ∀ r : TypeRef, r.stepless = true →
      r.pieces (s.withLoopStep step) level depth = r.pieces s level depth
  | ⟨_, t⟩, h => Ty.pieces_withLoopStep level depth t h
termination_by structural r => r

theorem TypeRef.piecesOr_withLoopStep (level depth : Nat) :
    ∀ r : Option TypeRef, TypeRef.steplessOr r = true →
      TypeRef.piecesOr (s.withLoopStep step) level depth r = TypeRef.piecesOr s level depth r
  | none, _ => rfl
  | some r, h => TypeRef.pieces_withLoopStep level depth r h
termination_by structural r => r

theorem Binding.pieces_withLoopStep (level depth : Nat) :
    ∀ b : Binding, b.stepless = true →
      b.pieces (s.withLoopStep step) level depth = b.pieces s level depth
  | ⟨_, ty, none⟩, h => by
    have ht := TypeRef.piecesOr_withLoopStep level depth ty (Bool.and_eq_true_iff.mp h).1
    simp only [Binding.pieces, ht]
  | ⟨_, ty, some value⟩, h => by
    obtain ⟨hty, hvalue⟩ := Bool.and_eq_true_iff.mp h
    have ht := TypeRef.piecesOr_withLoopStep level depth ty hty
    have hv := Node.pieces_withLoopStep level depth value hvalue
    simp only [Binding.pieces, ht, hv]
termination_by structural b => b

theorem Binding.fieldPieces_withLoopStep (level depth : Nat) :
    ∀ b : Binding, b.stepless = true →
      b.fieldPieces (s.withLoopStep step) level depth = b.fieldPieces s level depth
  | ⟨_, ty, none⟩, h => by
    have ht := TypeRef.piecesOr_withLoopStep level depth ty (Bool.and_eq_true_iff.mp h).1
    simp only [Binding.fieldPieces, ht]
  | ⟨_, ty, some value⟩, h => by
    obtain ⟨hty, hvalue⟩ := Bool.and_eq_true_iff.mp h
    have ht := TypeRef.piecesOr_withLoopStep level depth ty hty
    have hv := Node.pieces_withLoopStep level depth value hvalue
    simp only [Binding.fieldPieces, ht, hv]
termination_by structural b => b

theorem Binding.fieldLines_withLoopStep (level depth : Nat) :
    ∀ bs : List Binding, Binding.allStepless bs = true →
      Binding.fieldLines (s.withLoopStep step) level depth bs =
        Binding.fieldLines s level depth bs
  | [], _ => rfl
  | b :: rest, h => by
    obtain ⟨hb, hrest⟩ := Bool.and_eq_true_iff.mp h
    have hfield := Binding.fieldPieces_withLoopStep level depth b hb
    have hlines := Binding.fieldLines_withLoopStep level depth rest hrest
    simp only [Binding.fieldLines, hfield, hlines, Settings.lineAt_withLoopStep]
termination_by structural bs => bs

theorem Binding.groupedType_withLoopStep (level depth : Nat) (next : Option Binding) :
    ∀ b : Binding, b.stepless = true →
      Binding.groupedType (s.withLoopStep step) level depth next b =
        Binding.groupedType s level depth next b
  | ⟨_, ty, _⟩, h => by
    have ht := TypeRef.piecesOr_withLoopStep level depth ty (Bool.and_eq_true_iff.mp h).1
    simp only [Binding.groupedType, ht]
termination_by structural b => b

theorem Binding.grouped_withLoopStep (level depth : Nat) :
    ∀ bs : List Binding, Binding.allStepless bs = true →
      Binding.grouped (s.withLoopStep step) level depth bs = Binding.grouped s level depth bs
  | [], _ => rfl
  | b :: rest, h => by
    obtain ⟨hb, hrest⟩ := Bool.and_eq_true_iff.mp h
    have htype := Binding.groupedType_withLoopStep level depth rest.head? b hb
    have hgrouped := Binding.grouped_withLoopStep level depth rest hrest
    simp only [Binding.grouped, htype, hgrouped]
termination_by structural bs => bs

theorem Binding.listed_withLoopStep (level depth : Nat) :
    ∀ bs : List Binding, Binding.allStepless bs = true →
      Binding.listed (s.withLoopStep step) level depth bs = Binding.listed s level depth bs
  | [], _ => rfl
  | b :: rest, h => by
    obtain ⟨hb, hrest⟩ := Bool.and_eq_true_iff.mp h
    have hpieces := Binding.pieces_withLoopStep level depth b hb
    have hlisted := Binding.listed_withLoopStep level depth rest hrest
    simp only [Binding.listed, hpieces, hlisted]
termination_by structural bs => bs

theorem FunDef.pieces_withLoopStep (level depth : Nat) :
    ∀ f : FunDef, f.stepless = true →
      f.pieces (s.withLoopStep step) level depth = f.pieces s level depth
  | ⟨_, params, result, none⟩, h => by
    obtain ⟨hparams, hresult⟩ := Bool.and_eq_true_iff.mp (Bool.and_eq_true_iff.mp h).1
    have hp := Binding.listed_withLoopStep level depth params hparams
    have hr := Ty.pieces_withLoopStep level depth result hresult
    simp only [FunDef.pieces, hp, hr]
  | ⟨_, params, result, some body⟩, h => by
    obtain ⟨hfront, hbody⟩ := Bool.and_eq_true_iff.mp h
    obtain ⟨hparams, hresult⟩ := Bool.and_eq_true_iff.mp hfront
    have hp := Binding.listed_withLoopStep level depth params hparams
    have hr := Ty.pieces_withLoopStep level depth result hresult
    have hb := Node.pieces_withLoopStep level depth body hbody
    simp only [FunDef.pieces, hp, hr, hb]
termination_by structural f => f

theorem Node.pieces_withLoopStep (level depth : Nat) :
    ∀ n : Node, n.stepless = true →
      n.pieces (s.withLoopStep step) level depth = n.pieces s level depth
  | .bad, _ | .comment _, _ | .ident _, _ | .boolLit _, _ | .intLit _ _, _ | .floatLit _, _
  | .strLit _, _ | .ret none, _ => rfl
  | .unit items, h => by
    have hi := Node.lines_withLoopStep level (depth - 1) items h
    simp only [Node.pieces, hi]
  | .typeDef t, h | .typeNode t, h => by
    have ht := Ty.pieces_withLoopStep level depth t h
    simp only [Node.pieces, ht]
  | .binding _ b, h => by
    have hb := Binding.pieces_withLoopStep level depth b h
    simp only [Node.pieces, hb]
  | .func f, h => by
    have hf := FunDef.pieces_withLoopStep level depth f h
    simp only [Node.pieces, hf]
  | .block items, h => by
    have hi := Node.lines_withLoopStep (level + 1) (depth - 1) items h
    simp only [Node.pieces, hi, Settings.lineAt_withLoopStep]
  | .call callee args, h => by
    obtain ⟨hcallee, hargs⟩ := Bool.and_eq_true_iff.mp h
    have hc := Node.pieces_withLoopStep level depth callee hcallee
    have ha := Node.listed_withLoopStep level depth args hargs
    simp only [Node.pieces, hc, ha]
  | .construct t arg, h => by
    obtain ⟨hty, harg⟩ := Bool.and_eq_true_iff.mp h
    have ht := Ty.pieces_withLoopStep level depth t hty
    have ha := Node.piecesOr_withLoopStep level depth arg harg
    simp only [Node.pieces, ht, ha]
  | .member n _, h | .ret (some n), h | .deref n, h | .prefixed _ n, h | .postfixed _ n, h => by
    have hn := Node.pieces_withLoopStep level depth n h
    simp only [Node.pieces, hn]
  | .branch cond yes none, h => by
    obtain ⟨hcond, hyes⟩ := Bool.and_eq_true_iff.mp (Bool.and_eq_true_iff.mp h).1
    have hc := Node.pieces_withLoopStep level depth cond hcond
    have hy := Node.pieces_withLoopStep level depth yes hyes
    simp only [Node.pieces, hc, hy]
  | .branch cond yes (some no), h => by
    obtain ⟨hfront, hno⟩ := Bool.and_eq_true_iff.mp h
    obtain ⟨hcond, hyes⟩ := Bool.and_eq_true_iff.mp hfront
    have hc := Node.pieces_withLoopStep level depth cond hcond
    have hy := Node.pieces_withLoopStep level depth yes hyes
    have hn := Node.pieces_withLoopStep level depth no hno
    simp only [Node.pieces, hc, hy, hn]
  | .loop start cond none body, h => by
    obtain ⟨hfront, hbody⟩ := Bool.and_eq_true_iff.mp h
    obtain ⟨hstart, hcond⟩ := Bool.and_eq_true_iff.mp hfront
    have hs := Node.piecesOr_withLoopStep level (depth - 1) start hstart
    have hc := Node.piecesOr_withLoopStep level (depth - 1) cond hcond
    have hb := Node.pieces_withLoopStep level (depth - 1) body hbody
    simp only [Node.pieces, hs, hc, hb, Option.isSome_none, Bool.false_eq_true, if_false]
  | .assign _ left right, h | .binary _ left right, h => by
    obtain ⟨hleft, hright⟩ := Bool.and_eq_true_iff.mp h
    have hl := Node.pieces_withLoopStep level depth left hleft
    have hr := Node.pieces_withLoopStep level depth right hright
    simp only [Node.pieces, hl, hr]
  | .arrayLit items, h => by
    have hi := Node.listed_withLoopStep level depth items h
    simp only [Node.pieces, hi]
termination_by structural n => n

theorem Node.piecesOr_withLoopStep (level depth : Nat) :
    ∀ n : Option Node, Node.steplessOr n = true →
      Node.piecesOr (s.withLoopStep step) level depth n = Node.piecesOr s level depth n
  | none, _ => rfl
  | some n, h => Node.pieces_withLoopStep level depth n h
termination_by structural n => n

theorem Node.lines_withLoopStep (level depth : Nat) :
    ∀ ns : List Node, Node.allStepless ns = true →
      Node.lines (s.withLoopStep step) level depth ns = Node.lines s level depth ns
  | [], _ => rfl
  | n :: rest, h => by
    obtain ⟨hn, hrest⟩ := Bool.and_eq_true_iff.mp h
    have hpieces := Node.pieces_withLoopStep level depth n hn
    have hlines := Node.lines_withLoopStep level depth rest hrest
    simp only [Node.lines, hpieces, hlines, Settings.lineAt_withLoopStep]
termination_by structural ns => ns

theorem Node.listed_withLoopStep (level depth : Nat) :
    ∀ ns : List Node, Node.allStepless ns = true →
      Node.listed (s.withLoopStep step) level depth ns = Node.listed s level depth ns
  | [], _ => rfl
  | n :: rest, h => by
    obtain ⟨hn, hrest⟩ := Bool.and_eq_true_iff.mp h
    have hpieces := Node.pieces_withLoopStep level depth n hn
    have hlisted := Node.listed_withLoopStep level depth rest hrest
    simp only [Node.listed, hpieces, hlisted]
termination_by structural ns => ns

end

end Stepless

open Buffer (step)

/-- With the start in its step slots a node is shown as the restepped one is with the step there, at
every depth, in every window and behind every buffer. Objects can be numbered in such a way that
parameters share as before, and by their old numbers if these tell them apart. Both settings show a
node without steps in the same way. -/
theorem Node.shown_restepped (n : Node) :
    (∀ number, n.SharingKept number → ∀ mem (s : Settings) depth b,
        step mem (.node (s.withLoopStep .start) depth n) b =
          step mem (.node (s.withLoopStep .stop) depth (n.restepped number)) b) ∧
      (∃ number, n.SharingKept number) ∧
      ((∀ ps ∈ n.signatures, Binding.Coherent ps) → n.SharingKept TypeRef.object) ∧
      (n.stepless = true → ∀ mem (s : Settings) depth b,
        step mem (.node (s.withLoopStep .start) depth n) b =
          step mem (.node (s.withLoopStep .stop) depth n) b) := by
  refine ⟨?_, ⟨_, n.sharingKept_place⟩, fun h ps hps => (h ps hps).sharingKept, ?_⟩
  · intro number h mem s depth b
    have hrun : n.run (s.withLoopStep .start) depth =
        (n.restepped number).run (s.withLoopStep .stop) depth :=
      (n.pieces_restepped s number 0 (max depth 1) h).symm
    rw [step, step, hrun]
    rfl
  · intro h mem s depth b
    have hrun (a : LoopStep) : n.run (s.withLoopStep a) depth = n.run s depth :=
      n.pieces_withLoopStep s a 0 (max depth 1) h
    rw [step, step, hrun, hrun]
    rfl

/-- A loop in the start of a loop, one without a start, one in an initializer inside a type that two
parameters share, and one without a step. -/
theorem Node.shown_restepped_nested :
    let empty : Node := .block []
    let inner : Node := .loop none (some (.ident "c")) (some (.ident "e")) empty
    let t : TypeRef := ⟨some 7, .struct none [(Binding.typed "f" (.fresh .unknown)).withInit inner]⟩
    let plain : Node := .loop (some (.ident "a")) (some (.ident "c")) none empty
    let signature : Node := .typeDef (.func [.typed "x" t, .typed "y" t] (.prim .void))
    let n : Node :=
      .loop (some (.loop (some (.ident "a")) none (some (.ident "b")) empty)) none
        (some (.ident "d")) (.block [signature, plain])
    let text := "> for for a; (NULL); a \x7b\x7d; (NULL); for a; (NULL); a \x7b\x7d \x7b\n" ++
      "  type fun(x, y \x7b\n    f unknown = for ; c; (NULL) \x7b\x7d\n  \x7d) void\n" ++
      "  for a; c;  \x7b\x7d\n\x7d"
    n.SharingKept TypeRef.object ∧ plain.stepless = true ∧
      (step .standard (.node (Settings.default.withLoopStep .stop) 5
        (n.restepped TypeRef.object)) ⟨"> "⟩).buffer.text = text ∧
      (step .standard (.node (Settings.default.withLoopStep .stop) 5 plain) ⟨"> "⟩).buffer.text =
        "> for a; c;  \x7b\x7d" := by
  intro empty inner t plain signature n text
  obtain ⟨hshown, _, hkept, _⟩ := shown_restepped n
  obtain ⟨_, _, _, hstepless⟩ := shown_restepped plain
  have hn : n.SharingKept TypeRef.object := hkept (by decide)
  have hplain : plain.stepless = true := by decide
  refine ⟨hn, hplain, ?_, ?_⟩
  · rw [← hshown TypeRef.object hn]
    decide +kernel
  · rw [← hstepless hplain]
    decide +kernel

end CodeDump
