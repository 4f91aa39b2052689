import CodeDump.Proofs.Recoding

/-!
# What was read can be written and read again

A text may leave out fields, add others, and use arrays in place of objects, so the text that is
written for what was read may be longer and may nest deeper in places. It never nests deeper than
the reader allows: whatever is decoded with room for some brackets is encoded within the same room.
This is shown by induction on the room, which is what the decoders recurse on. What is decoded also
has no shared types and no open inputs, so nothing of it is lost in its own encoding.
-/

namespace CodeDump

open Json

namespace Json

theorem exists_of_nullable? {α : Type} {read : Json → Option α} {j : Json} {o : Option α}
    (h : j.nullable? read = some o) : ∀ a ∈ o, ∃ j', read j' = some a := by
  rintro a rfl
  cases j with
  | null => cases h
  | _ => exact ⟨_, by simpa [nullable?] using h⟩

theorem exists_of_mapM {α : Type} {read : Json → Option α} {js : List Json} {xs : List α}
    (h : js.mapM read = some xs) : ∀ a ∈ xs, ∃ j, read j = some a := by
  induction js generalizing xs with
  | nil =>
    cases h
    simp
  | cons j js ih =>
    simp only [List.mapM_cons, Option.bind_eq_bind, Option.bind_eq_some_iff, Option.pure_def,
      Option.some.injEq] at h
    obtain ⟨a, ha, xs, hxs, rfl⟩ := h
    exact List.forall_mem_cons.mpr ⟨⟨j, ha⟩, ih hxs⟩

theorem exists_of_list? {α : Type} {read : Json → Option α} {j : Json} {xs : List α}
    (h : j.list? read = some xs) : ∀ a ∈ xs, ∃ j', read j' = some a := by
  obtain ⟨items, -, hitems⟩ := Option.bind_eq_some_iff.mp h
  exact exists_of_mapM hitems

theorem exists_of_listIn? {α : Type} {read : Nat → Json → Option α} {room : Nat} {j : Json}
    {xs : List α} (h : j.listIn? room read = some xs) :
    ∃ r, room = r + 1 ∧ ∀ a ∈ xs, ∃ j', read r j' = some a := by
  cases room with
  | zero => cases h
  | succ r => exact ⟨r, rfl, exists_of_list? h⟩

theorem exists_of_fieldsIn? {room r : Nat} {fields : List Field} {j : Json} {values : List Json}
    (h : j.fieldsIn? room fields = some (r, values)) : room = r + 1 := by
  cases room with
  | zero => cases h
  | succ room =>
    simp only [fieldsIn?, Option.map_eq_some_iff, Prod.mk.injEq] at h
    obtain ⟨_, -, rfl, -⟩ := h
    rfl

end Json

/-- Encoded within some room, and without shared types. -/
def Ty.Settled (room : Nat) (t : Ty) : Prop := t.encode.brackets ≤ room ∧ t.unshared = t

def Binding.Settled (room : Nat) (b : Binding) : Prop :=
  b.encode.brackets ≤ room ∧ b.unshared = b

def FunDef.Settled (room : Nat) (f : FunDef) : Prop := f.encode.brackets ≤ room ∧ f.unshared = f

def Node.Settled (room : Nat) (n : Node) : Prop := n.encode.brackets ≤ room ∧ n.unshared = n

def Ty.OptionSettled (room : Nat) (t : Option Ty) : Prop :=
  (Ty.encodeOption t).brackets ≤ room ∧ Ty.unsharedOption t = t

def TypeRef.OptionSettled (room : Nat) (r : Option TypeRef) : Prop :=
  (TypeRef.encodeOption r).brackets ≤ room ∧ TypeRef.unsharedOption r = r

def Node.OptionSettled (room : Nat) (n : Option Node) : Prop :=
  (Node.encodeOption n).brackets ≤ room ∧ Node.unsharedOption n = n

def Binding.ListSettled (room : Nat) (bs : List Binding) : Prop :=
  (∀ j ∈ Binding.encodeList bs, j.brackets ≤ room) ∧ Binding.unsharedList bs = bs

def Node.ListSettled (room : Nat) (ns : List Node) : Prop :=
  (∀ j ∈ Node.encodeList ns, j.brackets ≤ room) ∧ Node.unsharedList ns = ns

/-- Everything that is decoded in some room is settled in it. -/
structure Settles (room : Nat) : Prop where
  ty : ∀ {j t}, Ty.decode room j = some t → t.Settled room
  binding : ∀ {j b}, Binding.decode room j = some b → b.Settled room
  funDef : ∀ {j f}, FunDef.decode room j = some f → f.Settled room
  node : ∀ {j n}, Node.decode room j = some n → n.Settled room

namespace Settles

variable {room : Nat} {j : Json}

theorem tyOption (hs : Settles room) {t : Option Ty} (h : j.nullable? (Ty.decode room) = some t) :
    Ty.OptionSettled room t := by
  cases t with
  | none => exact ⟨Nat.zero_le room, rfl⟩
  | some t =>
    obtain ⟨j', hj'⟩ := exists_of_nullable? h t rfl
    obtain ⟨hb, hu⟩ := hs.ty hj'
    exact ⟨hb, congrArg some hu⟩

theorem typeRefOption (hs : Settles room) {r : Option TypeRef}
    (h : j.nullable? (fun t => (Ty.decode room t).map TypeRef.fresh) = some r) :
    TypeRef.OptionSettled room r := by
  cases r with
  | none => exact ⟨Nat.zero_le room, rfl⟩
  | some r =>
    obtain ⟨j', hj'⟩ := exists_of_nullable? h r rfl
    obtain ⟨t, ht, rfl⟩ := Option.map_eq_some_iff.mp hj'
    obtain ⟨hb, hu⟩ := hs.ty ht
    exact ⟨hb, congrArg (fun t => some (TypeRef.fresh t)) hu⟩

theorem nodeOption (hs : Settles room) {n : Option Node}
    (h : j.nullable? (Node.decode room) = some n) :
    Node.OptionSettled room n := by
  cases n with
  | none => exact ⟨Nat.zero_le room, rfl⟩
  | some n =>
    obtain ⟨j', hj'⟩ := exists_of_nullable? h n rfl
    obtain ⟨hb, hu⟩ := hs.node hj'
    exact ⟨hb, congrArg some hu⟩

theorem bindings (hs : Settles room) {bs : List Binding}
    (h : j.list? (Binding.decode room) = some bs) :
    Binding.ListSettled room bs := by
  have hall : ∀ b ∈ bs, b.Settled room := by
    intro b hb
    obtain ⟨j', hj'⟩ := exists_of_list? h b hb
    exact hs.binding hj'
  clear h
  induction bs with
  | nil => exact ⟨by simp [Binding.encodeList], rfl⟩
  | cons b bs ih =>
    obtain ⟨⟨hb, hu⟩, hrest⟩ := List.forall_mem_cons.mp hall
    obtain ⟨hbs, hus⟩ := ih hrest
    exact ⟨List.forall_mem_cons.mpr ⟨hb, hbs⟩, by rw [Binding.unsharedList, hu, hus]⟩

theorem nodes (hs : Settles room) {ns : List Node} (h : j.list? (Node.decode room) = some ns) :
    Node.ListSettled room ns := by
  have hall : ∀ n ∈ ns, n.Settled room := by
    intro n hn
    obtain ⟨j', hj'⟩ := exists_of_list? h n hn
    exact hs.node hj'
  clear h
  induction ns with
  | nil => exact ⟨by simp [Node.encodeList], rfl⟩
  | cons n ns ih =>
    obtain ⟨⟨hn, hu⟩, hrest⟩ := List.forall_mem_cons.mp hall
    obtain ⟨hns, hus⟩ := ih hrest
    exact ⟨List.forall_mem_cons.mpr ⟨hn, hns⟩, by rw [Node.unsharedList, hu, hus]⟩

end Settles

theorem Ty.settled_bare {room : Nat} {tag : String} {t : Ty} (h : Ty.bare? tag = some t) :
    t.Settled room := by
  unfold Ty.bare? at h
  split_ifs at h
  · cases h
    exact ⟨Nat.zero_le room, rfl⟩
  · obtain ⟨p, -, rfl⟩ := Option.map_eq_some_iff.mp h
    exact ⟨Nat.zero_le room, rfl⟩

section Room

attribute [local simp] brackets_tagged_le_iff brackets_variant_le_iff brackets_array_le_iff
  brackets_record_le_iff brackets_orNull_le_iff

attribute [local simp] brackets_text brackets_nat brackets_bool brackets_double

variable {room : Nat}

namespace Ty

attribute [local simp] Settled encode unshared

section Element

variable {t : Ty} (h : t.Settled room)
include h

theorem Settled.pointer : (pointer t).Settled (room + 1) := by simpa using h

theorem Settled.optional : (optional t).Settled (room + 1) := by simpa using h

theorem Settled.array (length : UInt64) : (array t length).Settled (room + 2) := by simpa using h

theorem Settled.slice (isMut : Bool) : (slice t isMut).Settled (room + 2) := by simpa using h

theorem Settled.reference (isMut : Bool) : (reference t isMut).Settled (room + 2) := by
  simpa using h

theorem Settled.named (name : String) : (named name t).Settled (room + 2) := by simpa using h

end Element

theorem settled_unresolved (name : String) : (unresolved name).Settled (room + 1) := by simp

theorem settled_struct {fields : List Binding} (h : Binding.ListSettled room fields)
    (name : Option String) : (struct name fields).Settled (room + 3) := by
  simpa [h.2] using h.1

theorem settled_func {params : List Binding} {result : Ty} (hp : Binding.ListSettled room params)
    (hr : result.Settled (room + 1)) : (func params result).Settled (room + 3) := by
  obtain ⟨hb, hu⟩ := hr
  simpa [hp.2, hb, hu] using hp.1

end Ty

namespace Node

attribute [local simp] Settled encode unshared

theorem settled_bad : bad.Settled room := by simp

theorem settled_comment (t : String) : (comment t).Settled (room + 1) := by simp

theorem settled_ident (name : String) : (ident name).Settled (room + 1) := by simp

theorem settled_boolLit (b : Bool) : (boolLit b).Settled (room + 1) := by simp

theorem settled_floatLit (x : Double) : (floatLit x).Settled (room + 1) := by simp

theorem settled_strLit (bytes : List UInt8) : (strLit bytes).Settled (room + 2) := by simp

section Single

theorem settled_typeDef {t : Ty} (h : t.Settled room) : (typeDef t).Settled (room + 1) := by
  simp [h.1, h.2]

theorem settled_typeNode {t : Ty} (h : t.Settled room) : (typeNode t).Settled (room + 1) := by
  simp [h.1, h.2]

theorem settled_binding {b : Binding} (h : b.Settled room) (role : Role) :
    (binding role b).Settled (room + 1) := by simp [h.1, h.2]

theorem settled_func {f : FunDef} (h : f.Settled room) : (func f).Settled (room + 1) := by
  simp [h.1, h.2]

theorem settled_ret {value : Option Node} (h : OptionSettled room value) :
    (ret value).Settled (room + 1) := by simp [h.1, h.2]

theorem settled_intLit {ty : Option Ty} (h : Ty.OptionSettled room ty) (value : UInt64) :
    (intLit value ty).Settled (room + 2) := by simp [h.1, h.2]

variable {n : Node} (h : n.Settled room)
include h

theorem Settled.deref : (deref n).Settled (room + 1) := by simpa using h

theorem Settled.prefixed (op : Op) : (prefixed op n).Settled (room + 2) := by simpa using h

theorem Settled.postfixed (op : Op) : (postfixed op n).Settled (room + 2) := by simpa using h

theorem Settled.member (name : String) : (member n name).Settled (room + 2) := by simpa using h

end Single

section Items

variable {ns : List Node} (h : ListSettled room ns)
include h

theorem settled_unit : (unit ns).Settled (room + 2) := by simpa [h.2] using h.1

theorem settled_block : (block ns).Settled (room + 2) := by simpa [h.2] using h.1

theorem settled_arrayLit : (arrayLit ns).Settled (room + 2) := by simpa [h.2] using h.1

theorem settled_call {callee : Node} (hc : callee.Settled (room + 1)) :
    (call callee ns).Settled (room + 3) := by
  obtain ⟨hb, hu⟩ := hc
  simpa [h.2, hb, hu] using h.1

end Items

section Several

variable {x y : Node} {o o' : Option Node}

theorem settled_construct {t : Ty} (ht : t.Settled room) (ho : OptionSettled room o) :
    (construct t o).Settled (room + 2) := by
  simp [ht.1, ht.2, ho.1, ho.2]

theorem settled_assign (op : Op) (hx : x.Settled room) (hy : y.Settled room) :
    (assign op x y).Settled (room + 2) := by
  simp [hx.1, hx.2, hy.1, hy.2]

theorem settled_binary (op : Op) (hx : x.Settled room) (hy : y.Settled room) :
    (binary op x y).Settled (room + 2) := by
  simp [hx.1, hx.2, hy.1, hy.2]

theorem settled_branch (hx : x.Settled room) (hy : y.Settled room) (ho : OptionSettled room o) :
    (branch x y o).Settled (room + 2) := by
  simp [hx.1, hx.2, hy.1, hy.2, ho.1, ho.2]

theorem settled_loop {cond : Option Node} (ho : OptionSettled room o)
    (hc : OptionSettled room cond) (ho' : OptionSettled room o') (hx : x.Settled room) :
    (loop o cond o' x).Settled (room + 2) := by
  simp [ho.1, ho.2, hc.1, hc.2, ho'.1, ho'.2, hx.1, hx.2]

end Several

end Node

section Step

variable (ih : ∀ r < room, Settles r) {j : Json}

include ih

theorem Ty.settled_step {t : Ty} (h : Ty.decode room j = some t) : t.Settled room := by
  unfold Ty.decode at h
  split at h
  · cases h
  · exact Ty.settled_bare h
  · split at h
    · cases h
    · rename_i room
      split at h
      case h_1 =>
        obtain ⟨elem, he, rfl⟩ := Option.map_eq_some_iff.mp h
        exact ((ih room (by omega)).ty he).pointer
      case h_2 =>
        obtain ⟨elem, he, rfl⟩ := Option.map_eq_some_iff.mp h
        exact ((ih room (by omega)).ty he).optional
      case h_3 =>
        obtain ⟨name, -, rfl⟩ := Option.map_eq_some_iff.mp h
        exact Ty.settled_unresolved name
      case h_4 =>
        split at h
        · simp only [Option.bind_eq_bind, Option.bind_eq_some_iff, Option.pure_def,
            Option.some.injEq] at h
          obtain ⟨elem, he, length, -, rfl⟩ := h
          exact ((ih _ (by omega)).ty he).array length
        · cases h
      case h_5 =>
        split at h
        · simp only [Option.bind_eq_bind, Option.bind_eq_some_iff, Option.pure_def,
            Option.some.injEq] at h
          obtain ⟨elem, he, isMut, -, rfl⟩ := h
          exact ((ih _ (by omega)).ty he).slice isMut
        · cases h
      case h_6 =>
        split at h
        · simp only [Option.bind_eq_bind, Option.bind_eq_some_iff, Option.pure_def,
            Option.some.injEq] at h
          obtain ⟨elem, he, isMut, -, rfl⟩ := h
          exact ((ih _ (by omega)).ty he).reference isMut
        · cases h
      case h_7 =>
        split at h
        · simp only [Option.bind_eq_bind, Option.bind_eq_some_iff, Option.pure_def,
            Option.some.injEq] at h
          obtain ⟨name, -, elem, he, rfl⟩ := h
          exact ((ih _ (by omega)).ty he).named name
        · cases h
      case h_8 =>
        split at h
        · simp only [Option.bind_eq_bind, Option.bind_eq_some_iff, Option.pure_def,
            Option.some.injEq] at h
          obtain ⟨name, -, fields, hf, rfl⟩ := h
          exact Ty.settled_struct ((ih _ (by omega)).bindings hf) name
        · cases h
      case h_9 =>
        split at h
        · simp only [Option.bind_eq_bind, Option.bind_eq_some_iff, Option.pure_def,
            Option.some.injEq] at h
          obtain ⟨params, hp, result, hr, rfl⟩ := h
          exact Ty.settled_func ((ih _ (by omega)).bindings hp) ((ih _ (by omega)).ty hr)
        · cases h
      case h_10 =>
        split_ifs at h
        exact Ty.settled_bare h

theorem Binding.settled_step {b : Binding} (h : Binding.decode room j = some b) :
    b.Settled room := by
  unfold Binding.decode at h
  split at h
  · simp only [Option.bind_eq_bind, Option.bind_eq_some_iff, Option.pure_def,
      Option.some.injEq] at h
    obtain ⟨name, -, ty, ht, init, hi, rfl⟩ := h
    obtain ⟨hb, hu⟩ := (ih _ (by omega)).typeRefOption ht
    obtain ⟨hb', hu'⟩ := (ih _ (by omega)).nodeOption hi
    simp [Binding.Settled, Binding.encode, Binding.unshared, hb, hu, hb', hu']
  · cases h

theorem FunDef.settled_step {f : FunDef} (h : FunDef.decode room j = some f) :
    f.Settled room := by
  unfold FunDef.decode at h
  split at h
  · simp only [Option.bind_eq_bind, Option.bind_eq_some_iff, Option.pure_def,
      Option.some.injEq] at h
    obtain ⟨name, -, params, hp, result, hr, body, hbody, rfl⟩ := h
    obtain ⟨hbp, hup⟩ := (ih _ (by omega)).bindings hp
    obtain ⟨hbr, hur⟩ := (ih _ (by omega)).ty hr
    obtain ⟨hbb, hub⟩ := (ih _ (by omega)).nodeOption hbody
    simpa [FunDef.Settled, FunDef.encode, FunDef.unshared, hup, hbr, hur, hbb, hub] using hbp
  · cases h

theorem Node.settled_step {n : Node} (h : Node.decode room j = some n) : n.Settled room := by
  unfold Node.decode at h
  split at h
  · cases h
  · split_ifs at h
    cases h
    exact Node.settled_bad
  · split at h
    · cases h
    · rename_i room
      split at h
      case h_1 =>
        split_ifs at h
        cases h
        exact Node.settled_bad
      case h_2 =>
        obtain ⟨t, -, rfl⟩ := Option.map_eq_some_iff.mp h
        exact Node.settled_comment t
      case h_3 =>
        obtain ⟨t, ht, rfl⟩ := Option.map_eq_some_iff.mp h
        exact Node.settled_typeDef ((ih room (by omega)).ty ht)
      case h_4 | h_5 | h_6 | h_7 =>
        obtain ⟨b, hb, rfl⟩ := Option.map_eq_some_iff.mp h
        exact Node.settled_binding ((ih room (by omega)).binding hb) _
      case h_8 =>
        obtain ⟨f, hf, rfl⟩ := Option.map_eq_some_iff.mp h
        exact Node.settled_func ((ih room (by omega)).funDef hf)
      case h_9 =>
        obtain ⟨name, -, rfl⟩ := Option.map_eq_some_iff.mp h
        exact Node.settled_ident name
      case h_10 =>
        obtain ⟨value, hv, rfl⟩ := Option.map_eq_some_iff.mp h
        exact Node.settled_ret ((ih room (by omega)).nodeOption hv)
      case h_11 =>
        obtain ⟨arg, ha, rfl⟩ := Option.map_eq_some_iff.mp h
        exact ((ih room (by omega)).node ha).deref
      case h_12 =>
        obtain ⟨b, -, rfl⟩ := Option.map_eq_some_iff.mp h
        exact Node.settled_boolLit b
      case h_13 =>
        obtain ⟨x, -, rfl⟩ := Option.map_eq_some_iff.mp h
        exact Node.settled_floatLit x
      case h_14 =>
        obtain ⟨t, ht, rfl⟩ := Option.map_eq_some_iff.mp h
        exact Node.settled_typeNode ((ih room (by omega)).ty ht)
      case h_15 =>
        split at h
        · obtain ⟨items, hi, rfl⟩ := Option.map_eq_some_iff.mp h
          exact Node.settled_unit ((ih _ (by omega)).nodes hi)
        · cases h
      case h_16 =>
        split at h
        · obtain ⟨items, hi, rfl⟩ := Option.map_eq_some_iff.mp h
          exact Node.settled_block ((ih _ (by omega)).nodes hi)
        · cases h
      case h_17 =>
        split at h
        · obtain ⟨items, hi, rfl⟩ := Option.map_eq_some_iff.mp h
          exact Node.settled_arrayLit ((ih _ (by omega)).nodes hi)
        · cases h
      case h_18 =>
        split at h
        · obtain ⟨bytes, -, rfl⟩ := Option.map_eq_some_iff.mp h
          exact Node.settled_strLit bytes
        · cases h
      case h_19 =>
        split at h
        · simp only [Option.bind_eq_bind, Option.bind_eq_some_iff, Option.pure_def,
            Option.some.injEq] at h
          obtain ⟨callee, hc, args, ha, rfl⟩ := h
          exact Node.settled_call ((ih _ (by omega)).nodes ha) ((ih _ (by omega)).node hc)
        · cases h
      case h_20 =>
        split at h
        · simp only [Option.bind_eq_bind, Option.bind_eq_some_iff, Option.pure_def,
            Option.some.injEq] at h
          obtain ⟨t, ht, arg, ha, rfl⟩ := h
          exact Node.settled_construct ((ih _ (by omega)).ty ht) ((ih _ (by omega)).nodeOption ha)
        · cases h
      case h_21 =>
        split at h
        · simp only [Option.bind_eq_bind, Option.bind_eq_some_iff, Option.pure_def,
            Option.some.injEq] at h
          obtain ⟨base, hb, name, -, rfl⟩ := h
          exact ((ih _ (by omega)).node hb).member name
        · cases h
      case h_22 =>
        split at h
        · simp only [Option.bind_eq_bind, Option.bind_eq_some_iff, Option.pure_def,
            Option.some.injEq] at h
          obtain ⟨cond, hc, yes, hy, no, hn, rfl⟩ := h
          exact Node.settled_branch ((ih _ (by omega)).node hc) ((ih _ (by omega)).node hy)
            ((ih _ (by omega)).nodeOption hn)
        · cases h
      case h_23 =>
        split at h
        · simp only [Option.bind_eq_bind, Option.bind_eq_some_iff, Option.pure_def,
            Option.some.injEq] at h
          obtain ⟨start, hf, cond, hc, step, ht, body, hb, rfl⟩ := h
          exact Node.settled_loop ((ih _ (by omega)).nodeOption hf)
            ((ih _ (by omega)).nodeOption hc) ((ih _ (by omega)).nodeOption ht)
            ((ih _ (by omega)).node hb)
        · cases h
      case h_24 =>
        split at h
        · simp only [Option.bind_eq_bind, Option.bind_eq_some_iff, Option.pure_def,
            Option.some.injEq] at h
          obtain ⟨op, -, arg, ha, rfl⟩ := h
          exact ((ih _ (by omega)).node ha).prefixed op
        · cases h
      case h_25 =>
        split at h
        · simp only [Option.bind_eq_bind, Option.bind_eq_some_iff, Option.pure_def,
            Option.some.injEq] at h
          obtain ⟨op, -, arg, ha, rfl⟩ := h
          exact ((ih _ (by omega)).node ha).postfixed op
        · cases h
      case h_26 =>
        split at h
        · simp only [Option.bind_eq_bind, Option.bind_eq_some_iff, Option.pure_def,
            Option.some.injEq] at h
          obtain ⟨op, -, left, hl, right, hr, rfl⟩ := h
          exact Node.settled_assign op ((ih _ (by omega)).node hl) ((ih _ (by omega)).node hr)
        · cases h
      case h_27 =>
        split at h
        · simp only [Option.bind_eq_bind, Option.bind_eq_some_iff, Option.pure_def,
            Option.some.injEq] at h
          obtain ⟨op, -, left, hl, right, hr, rfl⟩ := h
          exact Node.settled_binary op ((ih _ (by omega)).node hl) ((ih _ (by omega)).node hr)
        · cases h
      case h_28 =>
        split at h
        · simp only [Option.bind_eq_bind, Option.bind_eq_some_iff, Option.pure_def,
            Option.some.injEq] at h
          obtain ⟨value, -, ty, ht, rfl⟩ := h
          exact Node.settled_intLit ((ih _ (by omega)).tyOption ht) value
        · cases h
      case h_29 => cases h

end Step

theorem settles (room : Nat) : Settles room := by
  induction room using Nat.strong_induction_on with
  | _ room ih =>
    exact ⟨Ty.settled_step ih, Binding.settled_step ih, FunDef.settled_step ih,
      Node.settled_step ih⟩

section Parts

variable {j : Json}

theorem Settings.brackets_encode (s : Settings) : s.encode.brackets ≤ room + 1 := by
  simp [encode]

namespace Input

theorem settled_of_decode {i : Input} (h : decode room j = some i) :
    i.encode.brackets ≤ room ∧ i.isOpen = false := by
  unfold decode at h
  split at h
  · rename_i hfields
    obtain rfl := exists_of_fieldsIn? hfields
    obtain ⟨name, -, rfl⟩ := Option.map_eq_some_iff.mp h
    exact ⟨by simp [encode], rfl⟩
  · cases h

end Input

namespace Location

def Settled (room : Nat) (loc : Location) : Prop :=
  loc.encode.brackets ≤ room ∧ ∀ i ∈ loc.inputs, i.isOpen = false

theorem settled_of_decode {loc : Location} (h : decode room j = some loc) : loc.Settled room := by
  unfold decode at h
  split at h
  · rename_i r _ _ _ hfields
    obtain rfl := exists_of_fieldsIn? hfields
    simp only [Option.bind_eq_bind, Option.bind_eq_some_iff, Option.pure_def,
      Option.some.injEq] at h
    obtain ⟨input, hi, line, -, column, -, rfl⟩ := h
    have hinput : ∀ i ∈ input, i.encode.brackets ≤ r ∧ i.isOpen = false := by
      intro i hmem
      obtain ⟨j', hj'⟩ := exists_of_nullable? hi i hmem
      exact Input.settled_of_decode hj'
    constructor
    · simpa [encode] using fun i hmem => (hinput i hmem).1
    · simpa [inputs] using fun i hmem => (hinput i hmem).2
  · cases h

end Location

namespace Ir

theorem Payload.brackets_of_decode {p : Payload} (h : decode room j = some p) :
    p.encode.brackets ≤ room := by
  unfold decode at h
  split at h
  case h_1 | h_2 =>
    cases h
    exact Nat.zero_le _
  case h_3 | h_4 | h_5 =>
    obtain ⟨_, -, rfl⟩ := Option.map_eq_some_iff.mp h
    simp [encode]
  case h_6 => cases h

namespace Value

/-- Encoded within some room, without shared types and without open inputs. -/
def Settled (room : Nat) (v : Value) : Prop :=
  v.encode.brackets ≤ room ∧ v.unshared = v ∧ ∀ i ∈ v.inputs, i.isOpen = false

theorem settled_of_decode {v : Value} (h : decode room j = some v) : v.Settled room := by
  unfold decode at h
  split at h
  · rename_i hfields
    obtain rfl := exists_of_fieldsIn? hfields
    simp only [Option.bind_eq_bind, Option.bind_eq_some_iff, Option.pure_def,
      Option.some.injEq] at h
    obtain ⟨id, -, op, -, ty, ht, args, ha, payload, hp, uses, -, comment, -, loc, hl, rfl⟩ := h
    obtain ⟨hty, hunshared⟩ := (settles _).ty ht
    have hpayload := Payload.brackets_of_decode hp
    obtain ⟨room, rfl, -⟩ := exists_of_listIn? ha
    have hloc : ∀ l ∈ loc, l.Settled (room + 1) := by
      intro l hmem
      obtain ⟨j', hj'⟩ := exists_of_nullable? hl l hmem
      exact Location.settled_of_decode hj'
    refine ⟨?_, ?_, ?_⟩
    · simpa [encode, hty, hpayload] using fun l hmem => (hloc l hmem).1
    · simp [unshared, hunshared]
    · simpa [inputs] using fun i l hmem => (hloc l hmem).2 i
  · cases h

end Value

theorem Exit.brackets_of_decodeBranch {make : ValueId → BlockId → BlockId → Exit} {e : Exit}
    (h : decodeBranch room make j = some e) :
    ∃ r control yes no, room = r + 1 ∧ e = make control yes no := by
  unfold decodeBranch at h
  split at h
  · rename_i hfields
    obtain rfl := exists_of_fieldsIn? hfields
    simp only [Option.bind_eq_bind, Option.bind_eq_some_iff, Option.pure_def,
      Option.some.injEq] at h
    obtain ⟨control, -, yes, -, no, -, rfl⟩ := h
    exact ⟨_, control, yes, no, rfl, rfl⟩
  · cases h

theorem Exit.brackets_of_decode {e : Exit} (h : decode room j = some e) :
    e.encode.brackets ≤ room := by
  unfold decode at h
  split at h
  case h_1 | h_4 =>
    obtain ⟨target, -, rfl⟩ := Option.map_eq_some_iff.mp h
    simp [encode]
  case h_2 | h_3 =>
    obtain ⟨r, control, yes, no, rfl, rfl⟩ := Exit.brackets_of_decodeBranch h
    simp [encode, encodeBranch]
  case h_5 => cases h

namespace Block

def Settled (room : Nat) (b : Block) : Prop :=
  b.encode.brackets ≤ room ∧ b.unshared = b ∧ ∀ i ∈ b.inputs, i.isOpen = false

theorem settled_of_decode {b : Block} (h : decode room j = some b) : b.Settled room := by
  unfold decode at h
  split at h
  · rename_i hfields
    obtain rfl := exists_of_fieldsIn? hfields
    simp only [Option.bind_eq_bind, Option.bind_eq_some_iff, Option.pure_def,
      Option.some.injEq] at h
    obtain ⟨id, -, preds, -, exit, he, comment, -, values, hv, rfl⟩ := h
    have hexit := Exit.brackets_of_decode he
    obtain ⟨room, rfl, hread⟩ := exists_of_listIn? hv
    have hvalues : ∀ v ∈ values, v.Settled room := by
      intro v hmem
      obtain ⟨j', hj'⟩ := hread v hmem
      exact Value.settled_of_decode hj'
    refine ⟨?_, ?_, ?_⟩
    · simpa [encode, hexit] using fun v hmem => (hvalues v hmem).1
    · simp only [unshared, List.map_congr_left fun v hmem => (hvalues v hmem).2.1, List.map_id']
    · simpa [inputs] using fun i v hmem => (hvalues v hmem).2.2 i
  · cases h

end Block

namespace Func

def Settled (room : Nat) (f : Func) : Prop :=
  f.encode.brackets ≤ room ∧ f.unshared = f ∧ ∀ i ∈ f.inputs, i.isOpen = false

theorem settled_of_decode {f : Func} (h : decode room j = some f) : f.Settled room := by
  unfold decode at h
  split at h
  · rename_i hfields
    obtain rfl := exists_of_fieldsIn? hfields
    simp only [Option.bind_eq_bind, Option.bind_eq_some_iff, Option.pure_def,
      Option.some.injEq] at h
    obtain ⟨name, -, source, hs, blocks, hb, rfl⟩ := h
    obtain ⟨room, rfl, hread⟩ := exists_of_listIn? hb
    have hsource : ∀ g ∈ source, g.Settled (room + 1) := by
      intro g hmem
      obtain ⟨j', hj'⟩ := exists_of_nullable? hs g hmem
      exact (settles _).funDef hj'
    have hblocks : ∀ b ∈ blocks, b.Settled room := by
      intro b hmem
      obtain ⟨j', hj'⟩ := hread b hmem
      exact Block.settled_of_decode hj'
    refine ⟨?_, ?_, ?_⟩
    · have hs : ∀ g ∈ source, g.encode.brackets ≤ room + 1 := fun g hmem => (hsource g hmem).1
      have hb : ∀ b ∈ blocks, b.encode.brackets ≤ room := fun b hmem => (hblocks b hmem).1
      simpa [encode] using And.intro hs hb
    · have hs : source.map FunDef.unshared = source := by
        cases source with
        | none => rfl
        | some g => exact congrArg some (hsource g rfl).2
      have hb : blocks.map Block.unshared = blocks := by
        rw [List.map_congr_left fun b hmem => (hblocks b hmem).2.1, List.map_id']
      simp only [unshared, hs, hb]
    · simpa [inputs] using fun i b hmem => (hblocks b hmem).2.2 i
  · cases h

end Func

namespace Module

def Settled (room : Nat) (m : Module) : Prop :=
  m.encode.brackets ≤ room ∧ m.unshared = m ∧ ∀ i ∈ m.inputs, i.isOpen = false

theorem settled_of_decode {m : Module} (h : decode room j = some m) : m.Settled room := by
  unfold decode at h
  split at h
  · rename_i hfields
    obtain rfl := exists_of_fieldsIn? hfields
    obtain ⟨functions, hf, rfl⟩ := Option.map_eq_some_iff.mp h
    obtain ⟨room, rfl, hread⟩ := exists_of_listIn? hf
    have hfunctions : ∀ f ∈ functions, f.Settled room := by
      intro f hmem
      obtain ⟨j', hj'⟩ := hread f hmem
      exact Func.settled_of_decode hj'
    refine ⟨?_, ?_, ?_⟩
    · simpa [encode] using fun f hmem => (hfunctions f hmem).1
    · simp only [unshared, List.map_congr_left fun f hmem => (hfunctions f hmem).2.1, List.map_id']
    · simpa [inputs] using fun i f hmem => (hfunctions f hmem).2.2 i
  · cases h

end Module

end Ir

end Parts

end Room

namespace Stored

theorem decode_of_read {α : Type} [Stored α] {s : String} {a : α} (h : read s = .ok a) :
    ∃ j, decode maxBrackets j = some a := by
  unfold read at h
  split at h
  · rename_i b hread
    cases h
    obtain ⟨j, -, hj⟩ := Option.bind_eq_some_iff.mp hread
    exact ⟨j, hj⟩
  · cases h

/-- The text of a value does not nest too deeply, it is read as the value, and whatever it is read
as has the same text. -/
structure Recodes {α : Type} [Stored α] (a : α) : Prop where
  brackets_le : (encode a).brackets ≤ maxBrackets
  read_text : read (write a) = .ok a
  write_again : ∀ b : α, read (write a) = .ok b → write b = write a

theorem Recodes.of_decode {α : Type} [Stored α] {a b : α} (hb : (encode a).brackets ≤ maxBrackets)
    (hp : (encode a).Proper) (h : decode maxBrackets (encode a) = some b) (heq : b = a) :
    Recodes a := by
  subst heq
  have hread := read_write_of_decode hp h
  refine ⟨hb, hread, ?_⟩
  intro b hread'
  rw [hread] at hread'
  cases hread'
  rfl

/-- Whatever is read from a text, of any form, has a text of its own that is read as the same. -/
theorem recodes_of_read :
    (∀ (s : String) (n : Node), read s = .ok n → (∀ x ∈ n.doubles, x.ReadsBack) → Recodes n) ∧
    (∀ (s : String) (t : Ty), read s = .ok t → (∀ x ∈ t.doubles, x.ReadsBack) → Recodes t) ∧
    (∀ (s : String) (b : Binding), read s = .ok b → (∀ x ∈ b.doubles, x.ReadsBack) →
      Recodes b) ∧
    (∀ (s : String) (m : Ir.Module), read s = .ok m → (∀ x ∈ m.doubles, x.ReadsBack) →
      Recodes m) ∧
    (∀ (s : String) (b : Ir.Block), read s = .ok b → (∀ x ∈ b.doubles, x.ReadsBack) →
      Recodes b) ∧
    (∀ (s : String) (e : Ir.Exit), read s = .ok e → Recodes e) ∧
    (∀ (s : String) (op : Op), read s = .ok op → Recodes op) ∧
    (∀ (s : String) (c : Settings), read s = .ok c → Recodes c) ∧
    (∀ (s : String) (loc : Location), read s = .ok loc → Recodes loc) := by
  refine ⟨?_, ?_, ?_, ?_, ?_, ?_, ?_, ?_, ?_⟩
  · intro s n h hd
    obtain ⟨j, hj⟩ := decode_of_read h
    obtain ⟨hb, hu⟩ := (settles maxBrackets).node hj
    exact .of_decode hb n.proper_encode (n.decode_encode maxBrackets hb hd) hu
  · intro s t h hd
    obtain ⟨j, hj⟩ := decode_of_read h
    obtain ⟨hb, hu⟩ := (settles maxBrackets).ty hj
    exact .of_decode hb t.proper_encode (t.decode_encode maxBrackets hb hd) hu
  · intro s b h hd
    obtain ⟨j, hj⟩ := decode_of_read h
    obtain ⟨hb, hu⟩ := (settles maxBrackets).binding hj
    exact .of_decode hb b.proper_encode (b.decode_encode maxBrackets hb hd) hu
  · intro s m h hd
    obtain ⟨j, hj⟩ := decode_of_read h
    obtain ⟨hb, hu, hc⟩ := Ir.Module.settled_of_decode hj
    exact .of_decode hb m.proper_encode (m.decode_encode maxBrackets hb hd hc) hu
  · intro s b h hd
    obtain ⟨j, hj⟩ := decode_of_read h
    obtain ⟨hb, hu, hc⟩ := Ir.Block.settled_of_decode hj
    exact .of_decode hb b.proper_encode (b.decode_encode maxBrackets hb hd hc) hu
  · intro s e h
    obtain ⟨j, hj⟩ := decode_of_read h
    have hb := Ir.Exit.brackets_of_decode hj
    exact .of_decode hb e.proper_encode (e.decode_encode maxBrackets hb) rfl
  · intro s op _
    exact .of_decode (Nat.zero_le maxBrackets) (proper_text op.tag) (Op.decode_tag op maxBrackets)
      rfl
  · intro s c _
    exact .of_decode c.brackets_encode c.proper_encode (c.decode_encode (maxBrackets - 1)) rfl
  · intro s loc h
    obtain ⟨j, hj⟩ := decode_of_read h
    obtain ⟨hb, hc⟩ := Location.settled_of_decode hj
    exact .of_decode hb loc.proper_encode (loc.decode_encode maxBrackets hb hc) rfl

/-- A text with its fields in another order, one of them left out and a number in another form. -/
theorem recodes_of_read_reordered :
    let text := "\x7b\"init\": \x7b\"FloatLit\": 5e-1\x7d, \"name\": \"x\"\x7d"
    ∃ b : Binding, read text = .ok b ∧ b.doubles = [⟨0x3fe0000000000000⟩] ∧ Recodes b ∧
      write b = "\x7b\"name\":\"x\",\"ty\":null,\"init\":\x7b\"FloatLit\":0.5\x7d\x7d" := by
  intro text
  have hdoubles : (read text).toOption.map Binding.doubles = some [⟨0x3fe0000000000000⟩] := by
    decide +kernel
  have hwrite : (read text).toOption.map (write : Binding → String) =
      some "\x7b\"name\":\"x\",\"ty\":null,\"init\":\x7b\"FloatLit\":0.5\x7d\x7d" := by
    decide +kernel
  cases hread : (read text : Except Fault Binding) with
  | error f =>
    rw [hread] at hdoubles
    cases hdoubles
  | ok b =>
    rw [hread] at hdoubles hwrite
    have hd : b.doubles = [⟨0x3fe0000000000000⟩] := Option.some.inj hdoubles
    have hback : ∀ x ∈ b.doubles, x.ReadsBack := by
      rw [hd]
      decide +kernel
    exact ⟨b, rfl, hd, recodes_of_read.2.2.1 text b hread hback, Option.some.inj hwrite⟩

end Stored

end CodeDump
