import CodeDump.Codec.Tree
import CodeDump.Proofs.JsonParts

/-!
# Trees read back from JSON

The encoding of a tree decodes to the tree, given room for its brackets and doubles that read
back. Which references share an object is not stored: what is decoded is `unshared`, the same
tree with every reference to an object of its own.
-/

namespace CodeDump

mutual

/-- The same type with every reference to an object of its own. -/
def Ty.unshared (t : Ty) : Ty :=
  match t with
  | .prim p => .prim p
  | .struct name fields => .struct name (Binding.unsharedList fields)
  | .func params result => .func (Binding.unsharedList params) (Ty.unshared result)
  | .array elem length => .array (Ty.unshared elem) length
  | .slice elem isMut => .slice (Ty.unshared elem) isMut
  | .pointer elem => .pointer (Ty.unshared elem)
  | .reference elem isMut => .reference (Ty.unshared elem) isMut
  | .optional elem => .optional (Ty.unshared elem)
  | .named name elem => .named name (Ty.unshared elem)
  | .unknown => .unknown
  | .unresolved name => .unresolved name
termination_by structural t

def Ty.unsharedOption (t : Option Ty) : Option Ty :=
  match t with
  | none => none
  | some t => some (Ty.unshared t)
termination_by structural t

def TypeRef.unshared (r : TypeRef) : TypeRef :=
  match r with
  | ⟨_, t⟩ => .fresh (Ty.unshared t)
termination_by structural r

def TypeRef.unsharedOption (r : Option TypeRef) : Option TypeRef :=
  match r with
  | none => none
  | some r => some (TypeRef.unshared r)
termination_by structural r

def Binding.unshared (b : Binding) : Binding :=
  match b with
  | ⟨name, ty, init⟩ => ⟨name, TypeRef.unsharedOption ty, Node.unsharedOption init⟩
termination_by structural b

def Binding.unsharedList (bs : List Binding) : List Binding :=
  match bs with
  | [] => []
  | b :: rest => Binding.unshared b :: Binding.unsharedList rest
termination_by structural bs

def FunDef.unshared (f : FunDef) : FunDef :=
  match f with
  | ⟨name, params, result, body⟩ =>
      ⟨name, Binding.unsharedList params, Ty.unshared result, Node.unsharedOption body⟩
termination_by structural f

def Node.unshared (n : Node) : Node :=
  match n with
  | .bad => .bad
  | .comment s => .comment s
  | .unit items => .unit (Node.unsharedList items)
  | .typeDef t => .typeDef (Ty.unshared t)
  | .binding role b => .binding role (Binding.unshared b)
  | .func f => .func (FunDef.unshared f)
  | .block items => .block (Node.unsharedList items)
  | .call callee args => .call (Node.unshared callee) (Node.unsharedList args)
  | .construct t arg => .construct (Ty.unshared t) (Node.unsharedOption arg)
  | .member base name => .member (Node.unshared base) name
  | .branch cond yes no =>
      .branch (Node.unshared cond) (Node.unshared yes) (Node.unsharedOption no)
  | .loop start cond step body =>
      .loop (Node.unsharedOption start) (Node.unsharedOption cond) (Node.unsharedOption step)
        (Node.unshared body)
  | .ident name => .ident name
  | .ret value => .ret (Node.unsharedOption value)
  | .deref arg => .deref (Node.unshared arg)
  | .prefixed op arg => .prefixed op (Node.unshared arg)
  | .postfixed op arg => .postfixed op (Node.unshared arg)
  | .assign op left right => .assign op (Node.unshared left) (Node.unshared right)
  | .binary op left right => .binary op (Node.unshared left) (Node.unshared right)
  | .boolLit b => .boolLit b
  | .intLit value ty => .intLit value (Ty.unsharedOption ty)
  | .floatLit x => .floatLit x
  | .strLit bytes => .strLit bytes
  | .arrayLit items => .arrayLit (Node.unsharedList items)
  | .typeNode t => .typeNode (Ty.unshared t)
termination_by structural n

def Node.unsharedOption (n : Option Node) : Option Node :=
  match n with
  | none => none
  | some n => some (Node.unshared n)
termination_by structural n

def Node.unsharedList (ns : List Node) : List Node :=
  match ns with
  | [] => []
  | n :: rest => Node.unshared n :: Node.unsharedList rest
termination_by structural ns

end

mutual

/-- The doubles of the initializers in a type. -/
def Ty.doubles (t : Ty) : List Double :=
  match t with
  | .struct _ fields => Binding.doublesList fields
  | .func params result => Binding.doublesList params ++ Ty.doubles result
  | .array elem _ | .slice elem _ | .reference elem _ => Ty.doubles elem
  | .pointer elem | .optional elem | .named _ elem => Ty.doubles elem
  | .prim _ | .unknown | .unresolved _ => []
termination_by structural t

def Ty.doublesOption (t : Option Ty) : List Double :=
  match t with
  | none => []
  | some t => Ty.doubles t
termination_by structural t

def TypeRef.doubles (r : TypeRef) : List Double :=
  match r with
  | ⟨_, t⟩ => Ty.doubles t
termination_by structural r

def TypeRef.doublesOption (r : Option TypeRef) : List Double :=
  match r with
  | none => []
  | some r => TypeRef.doubles r
termination_by structural r

def Binding.doubles (b : Binding) : List Double :=
  match b with
  | ⟨_, ty, init⟩ => TypeRef.doublesOption ty ++ Node.doublesOption init
termination_by structural b

def Binding.doublesList (bs : List Binding) : List Double :=
  match bs with
  | [] => []
  | b :: rest => Binding.doubles b ++ Binding.doublesList rest
termination_by structural bs

def FunDef.doubles (f : FunDef) : List Double :=
  match f with
  | ⟨_, params, result, body⟩ =>
      Binding.doublesList params ++ (Ty.doubles result ++ Node.doublesOption body)
termination_by structural f

def Node.doubles (n : Node) : List Double :=
  match n with
  | .floatLit x => [x]
  | .bad | .comment _ | .ident _ | .boolLit _ | .strLit _ => []
  | .unit items | .block items | .arrayLit items => Node.doublesList items
  | .typeDef t | .typeNode t => Ty.doubles t
  | .binding _ b => Binding.doubles b
  | .func f => FunDef.doubles f
  | .call callee args => Node.doubles callee ++ Node.doublesList args
  | .construct t arg => Ty.doubles t ++ Node.doublesOption arg
  | .member base _ => Node.doubles base
  | .branch cond yes no => Node.doubles cond ++ (Node.doubles yes ++ Node.doublesOption no)
  | .loop start cond step body =>
      Node.doublesOption start ++ (Node.doublesOption cond ++
        (Node.doublesOption step ++ Node.doubles body))
  | .ret value => Node.doublesOption value
  | .deref arg | .prefixed _ arg | .postfixed _ arg => Node.doubles arg
  | .assign _ left right | .binary _ left right => Node.doubles left ++ Node.doubles right
  | .intLit _ ty => Ty.doublesOption ty
termination_by structural n

def Node.doublesOption (n : Option Node) : List Double :=
  match n with
  | none => []
  | some n => Node.doubles n
termination_by structural n

def Node.doublesList (ns : List Node) : List Double :=
  match ns with
  | [] => []
  | n :: rest => Node.doubles n ++ Node.doublesList rest
termination_by structural ns

end

mutual

theorem Ty.proper_encode (t : Ty) : t.encode.Proper := by
  match t with
  | .prim _ | .unknown | .unresolved _ => simp [Ty.encode]
  | .struct _ fields =>
    simp [Ty.encode, Json.proper_orNull_map, Binding.proper_encodeList fields]
  | .func params result =>
    simp [Ty.encode, Binding.proper_encodeList params, Ty.proper_encode result]
  | .array elem _ | .slice elem _ | .reference elem _ => simp [Ty.encode, Ty.proper_encode elem]
  | .pointer elem | .optional elem | .named _ elem => simp [Ty.encode, Ty.proper_encode elem]
termination_by structural t

theorem Ty.proper_encodeOption (t : Option Ty) : (Ty.encodeOption t).Proper := by
  match t with
  | none => exact Json.proper_null
  | some t => exact Ty.proper_encode t
termination_by structural t

theorem TypeRef.proper_encode (r : TypeRef) : r.encode.Proper := by
  match r with
  | ⟨_, t⟩ => exact Ty.proper_encode t
termination_by structural r

theorem TypeRef.proper_encodeOption (r : Option TypeRef) : (TypeRef.encodeOption r).Proper := by
  match r with
  | none => exact Json.proper_null
  | some r => exact TypeRef.proper_encode r
termination_by structural r

theorem Binding.proper_encode (b : Binding) : b.encode.Proper := by
  match b with
  | ⟨_, ty, init⟩ =>
    simp [Binding.encode, TypeRef.proper_encodeOption ty, Node.proper_encodeOption init]
termination_by structural b

theorem Binding.proper_encodeList (bs : List Binding) :
    (Json.array (Binding.encodeList bs)).Proper := by
  match bs with
  | [] => trivial
  | b :: rest => exact ⟨Binding.proper_encode b, Binding.proper_encodeList rest⟩
termination_by structural bs

theorem FunDef.proper_encode (f : FunDef) : f.encode.Proper := by
  match f with
  | ⟨_, params, result, body⟩ =>
    simp [FunDef.encode, Binding.proper_encodeList params, Ty.proper_encode result,
      Node.proper_encodeOption body]
termination_by structural f

theorem Node.proper_encode (n : Node) : n.encode.Proper := by
  match n with
  | .bad | .comment _ | .ident _ | .boolLit _ | .floatLit _ => simp [Node.encode]
  | .strLit _ => simp [Node.encode, Json.proper_array_map]
  | .unit items | .block items | .arrayLit items =>
    simp [Node.encode, Node.proper_encodeList items]
  | .typeDef t | .typeNode t => simp [Node.encode, Ty.proper_encode t]
  | .binding _ b => simp [Node.encode, Binding.proper_encode b]
  | .func f => simp [Node.encode, FunDef.proper_encode f]
  | .call callee args =>
    simp [Node.encode, Node.proper_encode callee, Node.proper_encodeList args]
  | .construct t arg => simp [Node.encode, Ty.proper_encode t, Node.proper_encodeOption arg]
  | .member base _ => simp [Node.encode, Node.proper_encode base]
  | .branch cond yes no =>
    simp [Node.encode, Node.proper_encode cond, Node.proper_encode yes,
      Node.proper_encodeOption no]
  | .loop start cond step body =>
    simp [Node.encode, Node.proper_encodeOption start, Node.proper_encodeOption cond,
      Node.proper_encodeOption step, Node.proper_encode body]
  | .ret value => simp [Node.encode, Node.proper_encodeOption value]
  | .deref arg | .prefixed _ arg | .postfixed _ arg => simp [Node.encode, Node.proper_encode arg]
  | .assign _ left right | .binary _ left right =>
    simp [Node.encode, Node.proper_encode left, Node.proper_encode right]
  | .intLit _ ty => simp [Node.encode, Ty.proper_encodeOption ty]
termination_by structural n

theorem Node.proper_encodeOption (n : Option Node) : (Node.encodeOption n).Proper := by
  match n with
  | none => exact Json.proper_null
  | some n => exact Node.proper_encode n
termination_by structural n

theorem Node.proper_encodeList (ns : List Node) : (Json.array (Node.encodeList ns)).Proper := by
  match ns with
  | [] => trivial
  | n :: rest => exact ⟨Node.proper_encode n, Node.proper_encodeList rest⟩
termination_by structural ns

end

theorem Op.decode_tag (op : Op) (room : Nat) : Op.decode room (.text op.tag) = some op :=
  Op.ofTag?_tag op

theorem Prim.decode_tag (p : Prim) (room : Nat) :
    Ty.decode room (.text p.tag) = some (.prim p) := by
  cases p <;> cases room <;> rfl

theorem Ty.decode_null (room : Nat) : Ty.decode room .null = none := by
  cases room <;> rfl

theorem FunDef.decode_null (room : Nat) : FunDef.decode room .null = none := by
  match room with
  | 0 | 1 | _ + 2 => rfl

theorem Node.decode_null (room : Nat) : Node.decode room .null = none := by
  cases room <;> rfl

open Json

mutual

theorem Ty.decode_encode (t : Ty) (room : Nat) (h : t.encode.brackets ≤ room)
    (hd : ∀ x ∈ t.doubles, x.ReadsBack) : Ty.decode room t.encode = some t.unshared := by
  -- The brackets of a form are taken from the room first; `change` says what is then read of it.
  match t with
  | .prim p => exact Prim.decode_tag p room
  | .struct name fields =>
    simp only [Ty.encode, brackets_variant_le_iff, brackets_array_le_iff, List.forall_mem_cons] at h
    obtain ⟨_, rfl, -, ⟨room, rfl, hf⟩, -⟩ := h
    have hfields := Binding.decode_encodeList fields room hf hd
    change (do
      return Ty.struct (← (orNull (name.map text)).nullable? text?)
        (← (Binding.encodeList fields).mapM (Binding.decode room))) = _
    rw [nullable?_text, hfields]
    rfl
  | .func params result =>
    simp only [Ty.encode, brackets_variant_le_iff, brackets_array_le_iff, List.forall_mem_cons] at h
    obtain ⟨_, rfl, ⟨room, rfl, hp⟩, hr, -⟩ := h
    obtain ⟨hdp, hdr⟩ := List.forall_mem_append.mp hd
    have hparams := Binding.decode_encodeList params room hp hdp
    have hresult := Ty.decode_encode result (room + 1) hr hdr
    change (do
      return Ty.func (← (Binding.encodeList params).mapM (Binding.decode room))
        (← Ty.decode (room + 1) result.encode)) = _
    rw [hparams, hresult]
    rfl
  | .array elem length =>
    simp only [Ty.encode, brackets_variant_le_iff, List.forall_mem_cons] at h
    obtain ⟨room, rfl, he, -⟩ := h
    have helem := Ty.decode_encode elem room he hd
    change (do return Ty.array (← Ty.decode room elem.encode) (← (nat length.toNat).long?)) = _
    rw [helem, long?_nat]
    rfl
  | .slice elem isMut =>
    simp only [Ty.encode, brackets_variant_le_iff, List.forall_mem_cons] at h
    obtain ⟨room, rfl, he, -⟩ := h
    have helem := Ty.decode_encode elem room he hd
    change (do return Ty.slice (← Ty.decode room elem.encode) isMut) = _
    rw [helem]
    rfl
  | .pointer elem =>
    simp only [Ty.encode, brackets_tagged_le_iff] at h
    obtain ⟨room, rfl, he⟩ := h
    exact congrArg (Option.map Ty.pointer) (Ty.decode_encode elem room he hd)
  | .reference elem isMut =>
    simp only [Ty.encode, brackets_variant_le_iff, List.forall_mem_cons] at h
    obtain ⟨room, rfl, he, -⟩ := h
    have helem := Ty.decode_encode elem room he hd
    change (do return Ty.reference (← Ty.decode room elem.encode) isMut) = _
    rw [helem]
    rfl
  | .optional elem =>
    simp only [Ty.encode, brackets_tagged_le_iff] at h
    obtain ⟨room, rfl, he⟩ := h
    exact congrArg (Option.map Ty.optional) (Ty.decode_encode elem room he hd)
  | .named name elem =>
    simp only [Ty.encode, brackets_variant_le_iff, List.forall_mem_cons] at h
    obtain ⟨room, rfl, -, he, -⟩ := h
    have helem := Ty.decode_encode elem room he hd
    change (do return Ty.named name (← Ty.decode room elem.encode)) = _
    rw [helem]
    rfl
  | .unknown => cases room <;> rfl
  | .unresolved name =>
    simp only [Ty.encode, brackets_tagged_le_iff] at h
    obtain ⟨room, rfl, -⟩ := h
    rfl
termination_by structural t

theorem Ty.decode_encodeOption (t : Option Ty) (room : Nat)
    (h : (Ty.encodeOption t).brackets ≤ room) (hd : ∀ x ∈ Ty.doublesOption t, x.ReadsBack) :
    (Ty.encodeOption t).nullable? (Ty.decode room) = some (Ty.unsharedOption t) := by
  match t with
  | none => rfl
  | some t => exact nullable?_of_read (Ty.decode_null room) (Ty.decode_encode t room h hd)
termination_by structural t

theorem TypeRef.decode_encode (r : TypeRef) (room : Nat) (h : r.encode.brackets ≤ room)
    (hd : ∀ x ∈ r.doubles, x.ReadsBack) :
    (Ty.decode room r.encode).map TypeRef.fresh = some r.unshared := by
  match r with
  | ⟨_, t⟩ => exact congrArg (Option.map TypeRef.fresh) (Ty.decode_encode t room h hd)
termination_by structural r

theorem TypeRef.decode_encodeOption (r : Option TypeRef) (room : Nat)
    (h : (TypeRef.encodeOption r).brackets ≤ room)
    (hd : ∀ x ∈ TypeRef.doublesOption r, x.ReadsBack) :
    (TypeRef.encodeOption r).nullable? (fun t => (Ty.decode room t).map TypeRef.fresh) =
      some (TypeRef.unsharedOption r) := by
  match r with
  | none => rfl
  | some r =>
    apply nullable?_of_read
    · rw [Ty.decode_null]
      rfl
    · exact TypeRef.decode_encode r room h hd
termination_by structural r

theorem Binding.decode_encode (b : Binding) (room : Nat) (h : b.encode.brackets ≤ room)
    (hd : ∀ x ∈ b.doubles, x.ReadsBack) : Binding.decode room b.encode = some b.unshared := by
  match b with
  | ⟨name, ty, init⟩ =>
    simp only [Binding.encode, brackets_record_le_iff, List.forall_mem_cons] at h
    obtain ⟨room, rfl, -, ht, hi, -⟩ := h
    obtain ⟨hdt, hdi⟩ := List.forall_mem_append.mp hd
    have hty := TypeRef.decode_encodeOption ty room ht hdt
    have hinit := Node.decode_encodeOption init room hi hdi
    change (do
      return Binding.mk name
        (← (TypeRef.encodeOption ty).nullable? fun t => (Ty.decode room t).map TypeRef.fresh)
        (← (Node.encodeOption init).nullable? (Node.decode room))) = _
    rw [hty, hinit]
    rfl
termination_by structural b

theorem Binding.decode_encodeList (bs : List Binding) (room : Nat)
    (h : ∀ j ∈ Binding.encodeList bs, j.brackets ≤ room)
    (hd : ∀ x ∈ Binding.doublesList bs, x.ReadsBack) :
    (Binding.encodeList bs).mapM (Binding.decode room) = some (Binding.unsharedList bs) := by
  match bs with
  | [] => rfl
  | b :: rest =>
    obtain ⟨hb, hrest⟩ := List.forall_mem_cons.mp h
    obtain ⟨hdb, hdrest⟩ := List.forall_mem_append.mp hd
    rw [Binding.encodeList, List.mapM_cons, Binding.decode_encode b room hb hdb,
      Binding.decode_encodeList rest room hrest hdrest]
    rfl
termination_by structural bs

theorem FunDef.decode_encode (f : FunDef) (room : Nat) (h : f.encode.brackets ≤ room)
    (hd : ∀ x ∈ f.doubles, x.ReadsBack) : FunDef.decode room f.encode = some f.unshared := by
  match f with
  | ⟨name, params, result, body⟩ =>
    simp only [FunDef.encode, brackets_record_le_iff, brackets_array_le_iff,
      List.forall_mem_cons] at h
    obtain ⟨_, rfl, -, ⟨room, rfl, hp⟩, hr, hb, -⟩ := h
    obtain ⟨hdp, hdrest⟩ := List.forall_mem_append.mp hd
    obtain ⟨hdr, hdb⟩ := List.forall_mem_append.mp hdrest
    have hparams := Binding.decode_encodeList params room hp hdp
    have hresult := Ty.decode_encode result (room + 1) hr hdr
    have hbody := Node.decode_encodeOption body (room + 1) hb hdb
    change (do
      return FunDef.mk name (← (Binding.encodeList params).mapM (Binding.decode room))
        (← Ty.decode (room + 1) result.encode)
        (← (Node.encodeOption body).nullable? (Node.decode (room + 1)))) = _
    rw [hparams, hresult, hbody]
    rfl
termination_by structural f

theorem Node.decode_encode (n : Node) (room : Nat) (h : n.encode.brackets ≤ room)
    (hd : ∀ x ∈ n.doubles, x.ReadsBack) : Node.decode room n.encode = some n.unshared := by
  match n with
  | .bad => cases room <;> rfl
  | .comment s | .ident s | .boolLit s =>
    simp only [Node.encode, brackets_tagged_le_iff] at h
    obtain ⟨room, rfl, -⟩ := h
    rfl
  | .unit items =>
    simp only [Node.encode, brackets_tagged_le_iff, brackets_array_le_iff] at h
    obtain ⟨_, rfl, room, rfl, hi⟩ := h
    exact congrArg (Option.map Node.unit) (Node.decode_encodeList items room hi hd)
  | .typeDef t =>
    simp only [Node.encode, brackets_tagged_le_iff] at h
    obtain ⟨room, rfl, ht⟩ := h
    exact congrArg (Option.map Node.typeDef) (Ty.decode_encode t room ht hd)
  | .binding role b =>
    simp only [Node.encode, brackets_tagged_le_iff] at h
    obtain ⟨room, rfl, hb⟩ := h
    have hbinding := Binding.decode_encode b room hb hd
    cases role <;> exact congrArg (Option.map (Node.binding _)) hbinding
  | .func f =>
    simp only [Node.encode, brackets_tagged_le_iff] at h
    obtain ⟨room, rfl, hf⟩ := h
    exact congrArg (Option.map Node.func) (FunDef.decode_encode f room hf hd)
  | .block items =>
    simp only [Node.encode, brackets_tagged_le_iff, brackets_array_le_iff] at h
    obtain ⟨_, rfl, room, rfl, hi⟩ := h
    exact congrArg (Option.map Node.block) (Node.decode_encodeList items room hi hd)
  | .call callee args =>
    simp only [Node.encode, brackets_variant_le_iff, brackets_array_le_iff,
      List.forall_mem_cons] at h
    obtain ⟨_, rfl, hc, ⟨room, rfl, ha⟩, -⟩ := h
    obtain ⟨hdc, hda⟩ := List.forall_mem_append.mp hd
    have hcallee := Node.decode_encode callee (room + 1) hc hdc
    have hargs := Node.decode_encodeList args room ha hda
    change (do
      return Node.call (← Node.decode (room + 1) callee.encode)
        (← (Node.encodeList args).mapM (Node.decode room))) = _
    rw [hcallee, hargs]
    rfl
  | .construct t arg =>
    simp only [Node.encode, brackets_variant_le_iff, List.forall_mem_cons] at h
    obtain ⟨room, rfl, ht, ha, -⟩ := h
    obtain ⟨hdt, hda⟩ := List.forall_mem_append.mp hd
    have hty := Ty.decode_encode t room ht hdt
    have harg := Node.decode_encodeOption arg room ha hda
    change (do
      return Node.construct (← Ty.decode room t.encode)
        (← (Node.encodeOption arg).nullable? (Node.decode room))) = _
    rw [hty, harg]
    rfl
  | .member base name =>
    simp only [Node.encode, brackets_variant_le_iff, List.forall_mem_cons] at h
    obtain ⟨room, rfl, hb, -⟩ := h
    have hbase := Node.decode_encode base room hb hd
    change (do return Node.member (← Node.decode room base.encode) name) = _
    rw [hbase]
    rfl
  | .branch cond yes no =>
    simp only [Node.encode, brackets_variant_le_iff, List.forall_mem_cons] at h
    obtain ⟨room, rfl, hc, hy, hn, -⟩ := h
    obtain ⟨hdc, hdrest⟩ := List.forall_mem_append.mp hd
    obtain ⟨hdy, hdn⟩ := List.forall_mem_append.mp hdrest
    have hcond := Node.decode_encode cond room hc hdc
    have hyes := Node.decode_encode yes room hy hdy
    have hno := Node.decode_encodeOption no room hn hdn
    change (do
      return Node.branch (← Node.decode room cond.encode) (← Node.decode room yes.encode)
        (← (Node.encodeOption no).nullable? (Node.decode room))) = _
    rw [hcond, hyes, hno]
    rfl
  | .loop start cond step body =>
    simp only [Node.encode, brackets_variant_le_iff, List.forall_mem_cons] at h
    obtain ⟨room, rfl, hs, hc, ht, hb, -⟩ := h
    obtain ⟨hds, hdrest⟩ := List.forall_mem_append.mp hd
    obtain ⟨hdc, hdrest⟩ := List.forall_mem_append.mp hdrest
    obtain ⟨hdt, hdb⟩ := List.forall_mem_append.mp hdrest
    have hstart := Node.decode_encodeOption start room hs hds
    have hcond := Node.decode_encodeOption cond room hc hdc
    have hstep := Node.decode_encodeOption step room ht hdt
    have hbody := Node.decode_encode body room hb hdb
    change (do
      return Node.loop (← (Node.encodeOption start).nullable? (Node.decode room))
        (← (Node.encodeOption cond).nullable? (Node.decode room))
        (← (Node.encodeOption step).nullable? (Node.decode room))
        (← Node.decode room body.encode)) = _
    rw [hstart, hcond, hstep, hbody]
    rfl
  | .ret value =>
    simp only [Node.encode, brackets_tagged_le_iff] at h
    obtain ⟨room, rfl, hv⟩ := h
    exact congrArg (Option.map Node.ret) (Node.decode_encodeOption value room hv hd)
  | .deref arg =>
    simp only [Node.encode, brackets_tagged_le_iff] at h
    obtain ⟨room, rfl, ha⟩ := h
    exact congrArg (Option.map Node.deref) (Node.decode_encode arg room ha hd)
  | .prefixed op arg =>
    simp only [Node.encode, brackets_variant_le_iff, List.forall_mem_cons] at h
    obtain ⟨room, rfl, -, ha, -⟩ := h
    have harg := Node.decode_encode arg room ha hd
    change (do
      return Node.prefixed (← Op.decode room (text op.tag)) (← Node.decode room arg.encode)) = _
    rw [Op.decode_tag, harg]
    rfl
  | .postfixed op arg =>
    simp only [Node.encode, brackets_variant_le_iff, List.forall_mem_cons] at h
    obtain ⟨room, rfl, -, ha, -⟩ := h
    have harg := Node.decode_encode arg room ha hd
    change (do
      return Node.postfixed (← Op.decode room (text op.tag)) (← Node.decode room arg.encode)) = _
    rw [Op.decode_tag, harg]
    rfl
  | .assign op left right =>
    simp only [Node.encode, brackets_variant_le_iff, List.forall_mem_cons] at h
    obtain ⟨room, rfl, -, hl, hr, -⟩ := h
    obtain ⟨hdl, hdr⟩ := List.forall_mem_append.mp hd
    have hleft := Node.decode_encode left room hl hdl
    have hright := Node.decode_encode right room hr hdr
    change (do
      return Node.assign (← Op.decode room (text op.tag)) (← Node.decode room left.encode)
        (← Node.decode room right.encode)) = _
    rw [Op.decode_tag, hleft, hright]
    rfl
  | .binary op left right =>
    simp only [Node.encode, brackets_variant_le_iff, List.forall_mem_cons] at h
    obtain ⟨room, rfl, -, hl, hr, -⟩ := h
    obtain ⟨hdl, hdr⟩ := List.forall_mem_append.mp hd
    have hleft := Node.decode_encode left room hl hdl
    have hright := Node.decode_encode right room hr hdr
    change (do
      return Node.binary (← Op.decode room (text op.tag)) (← Node.decode room left.encode)
        (← Node.decode room right.encode)) = _
    rw [Op.decode_tag, hleft, hright]
    rfl
  | .intLit value ty =>
    simp only [Node.encode, brackets_variant_le_iff, List.forall_mem_cons] at h
    obtain ⟨room, rfl, -, ht, -⟩ := h
    have hty := Ty.decode_encodeOption ty room ht hd
    change (do
      return Node.intLit (← (nat value.toNat).long?)
        (← (Ty.encodeOption ty).nullable? (Ty.decode room))) = _
    rw [long?_nat, hty]
    rfl
  | .floatLit x =>
    simp only [Node.encode, brackets_tagged_le_iff] at h
    obtain ⟨room, rfl, -⟩ := h
    exact congrArg (Option.map Node.floatLit) (hd x (List.mem_singleton_self x)).double?
  | .strLit bytes =>
    simp only [Node.encode, brackets_tagged_le_iff, brackets_array_le_iff] at h
    obtain ⟨_, rfl, room, rfl, -⟩ := h
    exact congrArg (Option.map Node.strLit) (mapM_map_inverse byte?_nat bytes)
  | .arrayLit items =>
    simp only [Node.encode, brackets_tagged_le_iff, brackets_array_le_iff] at h
    obtain ⟨_, rfl, room, rfl, hi⟩ := h
    exact congrArg (Option.map Node.arrayLit) (Node.decode_encodeList items room hi hd)
  | .typeNode t =>
    simp only [Node.encode, brackets_tagged_le_iff] at h
    obtain ⟨room, rfl, ht⟩ := h
    exact congrArg (Option.map Node.typeNode) (Ty.decode_encode t room ht hd)
termination_by structural n

theorem Node.decode_encodeOption (n : Option Node) (room : Nat)
    (h : (Node.encodeOption n).brackets ≤ room) (hd : ∀ x ∈ Node.doublesOption n, x.ReadsBack) :
    (Node.encodeOption n).nullable? (Node.decode room) = some (Node.unsharedOption n) := by
  match n with
  | none => rfl
  | some n => exact nullable?_of_read (Node.decode_null room) (Node.decode_encode n room h hd)
termination_by structural n

theorem Node.decode_encodeList (ns : List Node) (room : Nat)
    (h : ∀ j ∈ Node.encodeList ns, j.brackets ≤ room)
    (hd : ∀ x ∈ Node.doublesList ns, x.ReadsBack) :
    (Node.encodeList ns).mapM (Node.decode room) = some (Node.unsharedList ns) := by
  match ns with
  | [] => rfl
  | n :: rest =>
    obtain ⟨hn, hrest⟩ := List.forall_mem_cons.mp h
    obtain ⟨hdn, hdrest⟩ := List.forall_mem_append.mp hd
    rw [Node.encodeList, List.mapM_cons, Node.decode_encode n room hn hdn,
      Node.decode_encodeList rest room hrest hdrest]
    rfl
termination_by structural ns

end

end CodeDump
