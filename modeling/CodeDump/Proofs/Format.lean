import CodeDump.Codec.Ir
import CodeDump.Proofs.JsonParts

/-!
# The forms of stored values

One value can be stored in many forms. `Kind.shape` says what the parts of every kind of value are,
and `Presents` which forms follow from that: fields in any order, members that no field names,
fields that are left out while they have their default, arrays in place of records, and names
without data written as objects. The forms are those of the value's encoding, at all places at once.

What decoders need of this is said here without them. Whatever form a record has, the values of its
fields are found in it, each in a form of its own (`Presents.values`); and so for variants, lists
and absent values.
-/

namespace CodeDump

open Json

namespace Format

inductive Kind
  | op | loopStep | settings | ty | binding | funDef | node | input | location | payload | value
  | exit | block | func | module

/-- What a stored value is made of. -/
inductive Shape
  /-- A number, a string or a truth value, which have one form only. -/
  | scalar
  | nullable (inner : Shape)
  | list (item : Shape)
  | record (slots : List (Field × Shape))
  /-- One of some names without data, or one of some names with data of its own. -/
  | variant (bare : List String) (data : List (String × Shape))
  | kind (k : Kind)

/-- The data of an exit with two ways on. -/
def branchShape : Shape :=
  .record [(.required "control", .scalar), (.required "then", .scalar), (.required "els", .scalar)]

/-- The parts of every kind of value. A `nullable` field may be left out of an object only, a
`defaulted` one also at the end of an array. -/
def Kind.shape : Kind → Shape
  | op => .variant (Op.all.map Op.tag) []
  | loopStep => .variant ["start", "end"] []
  | settings => .record [
      (.defaulted "initial_guess" (.nat 64), .scalar),
      (.defaulted "indent_width" (.nat 2), .scalar),
      (.defaulted "for_step" (.text "start"), .kind .loopStep)]
  | ty => .variant ("Unknown" :: Prim.all.map Prim.tag) [
      ("Struct", .record [(.nullable "name", .nullable .scalar),
        (.required "fields", .list (.kind .binding))]),
      ("Fun", .record [(.required "params", .list (.kind .binding)),
        (.required "result", .kind .ty)]),
      ("Array", .record [(.required "elem", .kind .ty), (.required "len", .scalar)]),
      ("Slice", .record [(.required "elem", .kind .ty), (.required "mutable", .scalar)]),
      ("Ptr", .kind .ty),
      ("Ref", .record [(.required "elem", .kind .ty), (.required "mutable", .scalar)]),
      ("Optional", .kind .ty),
      ("Alias", .record [(.required "name", .scalar), (.required "elem", .kind .ty)]),
      ("Unresolved", .scalar)]
  | binding => .record [(.required "name", .scalar), (.nullable "ty", .nullable (.kind .ty)),
      (.defaulted "init" .null, .nullable (.kind .node))]
  | funDef => .record [(.required "name", .scalar), (.required "params", .list (.kind .binding)),
      (.required "result", .kind .ty), (.defaulted "body" .null, .nullable (.kind .node))]
  | node => .variant ["Bad"] [
      ("Comment", .scalar),
      ("Unit", .list (.kind .node)),
      ("TypeDef", .kind .ty),
      ("Param", .kind .binding),
      ("Field", .kind .binding),
      ("Let", .kind .binding),
      ("Var", .kind .binding),
      ("Fun", .kind .funDef),
      ("Block", .list (.kind .node)),
      ("Call", .record [(.required "recv", .kind .node), (.required "args", .list (.kind .node))]),
      ("TypeCons", .record [(.required "ty", .kind .ty),
        (.nullable "expr", .nullable (.kind .node))]),
      ("Member", .record [(.required "recv", .kind .node), (.required "name", .scalar)]),
      ("If", .record [(.required "cond", .kind .node), (.required "then", .kind .node),
        (.nullable "els", .nullable (.kind .node))]),
      ("For", .record [(.nullable "start", .nullable (.kind .node)),
        (.nullable "cond", .nullable (.kind .node)), (.nullable "end", .nullable (.kind .node)),
        (.required "body", .kind .node)]),
      ("Id", .scalar),
      ("Return", .nullable (.kind .node)),
      ("Deref", .kind .node),
      ("PrefixOp", .record [(.required "op", .kind .op), (.required "expr", .kind .node)]),
      ("PostfixOp", .record [(.required "op", .kind .op), (.required "expr", .kind .node)]),
      ("Assign", .record [(.required "op", .kind .op), (.required "left", .kind .node),
        (.required "right", .kind .node)]),
      ("BinOp", .record [(.required "op", .kind .op), (.required "left", .kind .node),
        (.required "right", .kind .node)]),
      ("BoolLit", .scalar),
      ("IntLit", .record [(.required "value", .scalar), (.nullable "ty", .nullable (.kind .ty))]),
      ("FloatLit", .scalar),
      ("StrLit", .list .scalar),
      ("ArrayLit", .list (.kind .node)),
      ("Type", .kind .ty)]
  | input => .record [(.required "name", .scalar)]
  | location => .record [(.defaulted "input" .null, .nullable (.kind .input)),
      (.required "line", .scalar), (.required "column", .scalar)]
  | payload => .variant ["None"] [("Index", .scalar), ("Int", .scalar), ("Float", .scalar)]
  | value => .record [(.required "id", .scalar), (.required "op", .kind .op),
      (.required "ty", .kind .ty), (.defaulted "args" (.array []), .list .scalar),
      (.defaulted "aux" (.text "None"), .kind .payload), (.defaulted "nuse" (.nat 0), .scalar),
      (.defaulted "comment" .null, .nullable .scalar),
      (.defaulted "loc" .null, .nullable (.kind .location))]
  | exit => .variant [] [("Cont", .nullable .scalar), ("First", branchShape), ("If", branchShape),
      ("Ret", .nullable .scalar)]
  | block => .record [(.required "id", .scalar), (.defaulted "preds" (.array []), .list .scalar),
      (.required "exit", .kind .exit), (.defaulted "comment" .null, .nullable .scalar),
      (.defaulted "values" (.array []), .list (.kind .value))]
  | func => .record [(.required "name", .scalar),
      (.defaulted "ast" .null, .nullable (.kind .funDef)),
      (.defaulted "blocks" (.array []), .list (.kind .block))]
  | module => .record [(.required "functions", .list (.kind .func))]

/-- What an object may have besides the members for its fields. -/
def Extra (slots : List (Field × Shape)) (ms : List Member) : Prop :=
  ∀ m ∈ ms, ∃ name, m.key = some name ∧ ∀ slot ∈ slots, slot.1.name ≠ name

mutual

/-- `Presents s c j`: the value that has the encoding `c` may also be stored as `j`. -/
inductive Presents : Shape → Json → Json → Prop
  | scalar {j : Json} : Presents .scalar j j
  | null {s : Shape} : Presents (.nullable s) .null .null
  | present {s : Shape} {c j : Json} : Presents s c j → Presents (.nullable s) c j
  | list {s : Shape} {cs js : List Json} : PresentsItems s cs js →
      Presents (.list s) (.array cs) (.array js)
  | kind {k : Kind} {c j : Json} : Presents k.shape c j → Presents (.kind k) c j
  | name {bare : List String} {data : List (String × Shape)} {tag : String} : tag ∈ bare →
      Presents (.variant bare data) (.text tag) (.text tag)
  /-- A name without data may stand in an object, with `null` as its data. -/
  | nameNull {bare : List String} {data : List (String × Shape)} {tag : String} : tag ∈ bare →
      Presents (.variant bare data) (.text tag) (.tagged tag .null)
  | data {bare : List String} {data : List (String × Shape)} {tag : String} {s : Shape}
      {c j : Json} : data.lookup tag = some s → Presents s c j →
        Presents (.variant bare data) (.tagged tag c) (.tagged tag j)
  /-- Members in any order, some of them for no field at all. -/
  | object {slots : List (Field × Shape)} {fs : List (String × Json)}
      {shown extra ms : List Member} : PresentsMembers slots fs shown → Extra slots extra →
        ms.Perm (shown ++ extra) → Presents (.record slots) (.record fs) (.object ms)
  /-- The fields in declaration order, without their names. -/
  | row {slots : List (Field × Shape)} {fs : List (String × Json)} {js : List Json} :
      PresentsRow slots fs js → Presents (.record slots) (.record fs) (.array js)

inductive PresentsItems : Shape → List Json → List Json → Prop
  | nil {s : Shape} : PresentsItems s [] []
  | cons {s : Shape} {c j : Json} {cs js : List Json} : Presents s c j → PresentsItems s cs js →
      PresentsItems s (c :: cs) (j :: js)

/-- The members that an object has for some fields: none for a field that is left out. -/
inductive PresentsMembers : List (Field × Shape) → List (String × Json) → List Member → Prop
  | nil : PresentsMembers [] [] []
  | shown {f : Field} {s : Shape} {slots : List (Field × Shape)} {c j : Json}
      {fs : List (String × Json)} {ms : List Member} : Presents s c j →
        PresentsMembers slots fs ms →
        PresentsMembers ((f, s) :: slots) ((f.name, c) :: fs) (⟨some f.name, j⟩ :: ms)
  | left {f : Field} {s : Shape} {slots : List (Field × Shape)} {c : Json}
      {fs : List (String × Json)} {ms : List Member} : f.absent = some c →
        PresentsMembers slots fs ms → PresentsMembers ((f, s) :: slots) ((f.name, c) :: fs) ms

/-- The items that an array has for some fields: it may stop where only defaults are left. -/
inductive PresentsRow : List (Field × Shape) → List (String × Json) → List Json → Prop
  | nil : PresentsRow [] [] []
  | item {f : Field} {s : Shape} {slots : List (Field × Shape)} {c j : Json}
      {fs : List (String × Json)} {js : List Json} : Presents s c j → PresentsRow slots fs js →
        PresentsRow ((f, s) :: slots) ((f.name, c) :: fs) (j :: js)
  | stop {f : Field} {s : Shape} {slots : List (Field × Shape)} {c : Json}
      {fs : List (String × Json)} : f.droppable = true → f.absent = some c →
        PresentsRow slots fs [] → PresentsRow ((f, s) :: slots) ((f.name, c) :: fs) []

end

/-- The values of some fields, each a form of what is encoded and within some room. -/
def Held (room : Nat) : List (Field × Shape) → List (String × Json) → List Json → Prop
  | [], [], js => js = []
  | (_, s) :: slots, (_, c) :: fs, js =>
      ∃ j rest, js = j :: rest ∧ (Presents s c j ∧ j.brackets ≤ room) ∧ Held room slots fs rest
  | _, _, _ => False

/-- No two fields have one name, and every default is a form of itself within some room. -/
structure Fits (room : Nat) (slots : List (Field × Shape)) : Prop where
  names_nodup : (slots.map fun slot => slot.1.name).Nodup
  presents_absent : ∀ slot ∈ slots, ∀ c, slot.1.absent = some c →
    Presents slot.2 c c ∧ c.brackets ≤ room

theorem Fits.tail {room : Nat} {slot : Field × Shape} {slots : List (Field × Shape)}
    (h : Fits room (slot :: slots)) : Fits room slots :=
  ⟨(List.nodup_cons.mp h.names_nodup).2, (List.forall_mem_cons.mp h.presents_absent).2⟩

theorem Fits.name_ne {room : Nat} {slot : Field × Shape} {slots : List (Field × Shape)}
    (h : Fits room (slot :: slots)) : ∀ other ∈ slots, other.1.name ≠ slot.1.name := by
  intro other hmem heq
  apply (List.nodup_cons.mp h.names_nodup).1
  exact List.mem_map.mpr ⟨other, hmem, heq⟩

theorem PresentsRow.fromItems {room : Nat} {slots : List (Field × Shape)}
    {fs : List (String × Json)} {js : List Json} (h : PresentsRow slots fs js)
    (hs : Fits room slots) (hb : ∀ j ∈ js, j.brackets ≤ room) :
    ∃ vs, Json.fromItems (slots.map Prod.fst) js = some vs ∧ Held room slots fs vs := by
  match h with
  | .nil => exact ⟨[], rfl, rfl⟩
  | .item (j := j) hj hrest =>
    obtain ⟨hbj, hbs⟩ := List.forall_mem_cons.mp hb
    obtain ⟨vs, hvs, hheld⟩ := hrest.fromItems hs.tail hbs
    exact ⟨j :: vs, congrArg (Option.map (j :: ·)) hvs, j, vs, rfl, ⟨hj, hbj⟩, hheld⟩
  | .stop (c := c) hdrop habsent hrest =>
    obtain ⟨vs, hvs, hheld⟩ := hrest.fromItems hs.tail hb
    have hc := hs.presents_absent _ List.mem_cons_self c habsent
    refine ⟨c :: vs, ?_, c, vs, rfl, hc, hheld⟩
    simp only [List.map_cons, Json.fromItems, hdrop, habsent, hvs, Option.map_some]
termination_by structural h

theorem find?_of_perm {ms ms' : List Member} (h : ms.Perm ms') (f : Field) :
    f.find? ms = f.find? ms' := by
  have hperm := h.filter fun m => m.key == some f.name
  unfold Field.find?
  generalize ms.filter (fun m => m.key == some f.name) = found at hperm ⊢
  generalize ms'.filter (fun m => m.key == some f.name) = found' at hperm ⊢
  match found, found', hperm.length_eq with
  | [], [], _ => rfl
  | [m], [m'], _ => rw [List.singleton_perm_singleton.mp hperm]
  | _ :: _ :: _, _ :: _ :: _, _ => rfl

section Find

variable {f : Field} {ms : List Member}

theorem filter_key_eq_nil (h : ∀ m ∈ ms, m.key ≠ some f.name) :
    ms.filter (fun m => m.key == some f.name) = [] := by
  simpa [List.filter_eq_nil_iff] using h

theorem find?_eq_absent (h : ∀ m ∈ ms, m.key ≠ some f.name) : f.find? ms = f.absent := by
  rw [Field.find?, filter_key_eq_nil h]

theorem find?_cons_self (h : ∀ m ∈ ms, m.key ≠ some f.name) (j : Json) :
    f.find? (⟨some f.name, j⟩ :: ms) = some j := by
  rw [Field.find?, List.filter_cons, filter_key_eq_nil h, beq_self_eq_true, if_pos rfl]

theorem find?_cons_of_ne {m : Member} (h : m.key ≠ some f.name) (ms : List Member) :
    f.find? (m :: ms) = f.find? ms := by
  rw [Field.find?, List.filter_cons, beq_eq_false_iff_ne.mpr h, if_neg Bool.false_ne_true]
  rfl

theorem find?_append_extra {slots : List (Field × Shape)} {s : Shape} (hf : (f, s) ∈ slots)
    {extra : List Member} (h : Extra slots extra) : f.find? (ms ++ extra) = f.find? ms := by
  have hnil := filter_key_eq_nil (f := f) fun m hm heq => by
    obtain ⟨name, hkey, hne⟩ := h m hm
    rw [hkey, Option.some.injEq] at heq
    exact hne _ hf heq.symm
  rw [Field.find?, List.filter_append, hnil, List.append_nil]
  rfl

end Find

theorem PresentsMembers.exists_slot {slots : List (Field × Shape)} {fs : List (String × Json)}
    {ms : List Member} (h : PresentsMembers slots fs ms) :
    ∀ m ∈ ms, ∃ slot ∈ slots, m.key = some slot.1.name := by
  match h with
  | .nil => simp
  | .shown _ hrest =>
    intro m hm
    rcases List.mem_cons.mp hm with rfl | hm
    · exact ⟨_, List.mem_cons_self, rfl⟩
    · obtain ⟨slot, hslot, hkey⟩ := hrest.exists_slot m hm
      exact ⟨slot, List.mem_cons_of_mem _ hslot, hkey⟩
  | .left _ hrest =>
    intro m hm
    obtain ⟨slot, hslot, hkey⟩ := hrest.exists_slot m hm
    exact ⟨slot, List.mem_cons_of_mem _ hslot, hkey⟩
termination_by structural h

theorem PresentsMembers.key_ne {room : Nat} {slot : Field × Shape} {slots : List (Field × Shape)}
    {fs : List (String × Json)} {ms : List Member} (h : PresentsMembers slots fs ms)
    (hs : Fits room (slot :: slots)) : ∀ m ∈ ms, m.key ≠ some slot.1.name := by
  intro m hm heq
  obtain ⟨other, hother, hkey⟩ := h.exists_slot m hm
  rw [hkey, Option.some.injEq] at heq
  exact hs.name_ne other hother heq

/-- Every field has its value among all members of an object, if they have the same of it as the
members for the fields. -/
theorem PresentsMembers.mapM_find? {room : Nat} {slots : List (Field × Shape)}
    {fs : List (String × Json)} {ms all : List Member} (h : PresentsMembers slots fs ms)
    (hs : Fits room slots) (hb : ∀ m ∈ ms, m.value.brackets ≤ room)
    (hall : ∀ slot ∈ slots, slot.1.find? all = slot.1.find? ms) :
    ∃ vs, (slots.map Prod.fst).mapM (Field.find? all) = some vs ∧ Held room slots fs vs := by
  match h with
  | .nil => exact ⟨[], rfl, rfl⟩
  | .shown (f := f) (j := j) hj hrest =>
    obtain ⟨hbj, hbs⟩ := List.forall_mem_cons.mp hb
    obtain ⟨hself, hothers⟩ := List.forall_mem_cons.mp hall
    rw [find?_cons_self (hrest.key_ne hs)] at hself
    obtain ⟨vs, hvs, hheld⟩ := hrest.mapM_find? hs.tail hbs fun slot hslot => by
      rw [hothers slot hslot, find?_cons_of_ne]
      exact fun heq => hs.name_ne slot hslot (Option.some.inj heq).symm
    refine ⟨j :: vs, ?_, j, vs, rfl, ⟨hj, hbj⟩, hheld⟩
    rw [List.map_cons, List.mapM_cons, hself, hvs]
    rfl
  | .left (c := c) habsent hrest =>
    obtain ⟨hself, hothers⟩ := List.forall_mem_cons.mp hall
    rw [find?_eq_absent (hrest.key_ne hs), habsent] at hself
    obtain ⟨vs, hvs, hheld⟩ := hrest.mapM_find? hs.tail hb hothers
    have hc := hs.presents_absent _ List.mem_cons_self c habsent
    refine ⟨c :: vs, ?_, c, vs, rfl, hc, hheld⟩
    rw [List.map_cons, List.mapM_cons, hself, hvs]
    rfl
termination_by structural h

theorem record_injective {fs fs' : List (String × Json)} (h : Json.record fs = .record fs') :
    fs = fs' := by
  have hmap := Json.object.inj h
  refine List.map_injective_iff.mpr ?_ hmap
  rintro ⟨name, j⟩ ⟨name', j'⟩ heq
  cases heq
  rfl

/-- Whatever form a record has, the values of its fields can be told. -/
theorem Presents.values {slots : List (Field × Shape)} {fs : List (String × Json)} {j : Json}
    (h : Presents (.record slots) (.record fs) j) (fields : List Field)
    (hfields : slots.map Prod.fst = fields) {room : Nat} (hb : j.brackets ≤ room)
    (hs : ∀ r, room = r + 1 → Fits r slots) :
    ∃ r, room = r + 1 ∧ ∃ vs, j.fields? fields = some vs ∧ Held r slots fs vs := by
  subst hfields
  generalize hc : Json.record fs = c at h
  cases h with
  | row hrow =>
    rw [← record_injective hc] at hrow
    obtain ⟨r, rfl, hbs⟩ := brackets_array_le_iff.mp hb
    exact ⟨r, rfl, hrow.fromItems (hs r rfl) hbs⟩
  | @object _ _ shown extra ms hshown hextra hperm =>
    rw [← record_injective hc] at hshown
    obtain ⟨r, rfl, hbs⟩ := succ_le_iff_exists.mp hb
    rw [mostBrackets_members_le_iff] at hbs
    have hkeys : ms.all (fun m => m.key.isSome) = true := by
      simp only [List.all_eq_true, hperm.mem_iff, List.mem_append]
      rintro m (hm | hm)
      · obtain ⟨slot, -, hkey⟩ := hshown.exists_slot m hm
        rw [hkey]
        rfl
      · obtain ⟨name, hkey, -⟩ := hextra m hm
        rw [hkey]
        rfl
    obtain ⟨vs, hvs, hheld⟩ := hshown.mapM_find? (hs r rfl)
      (fun m hm => hbs m (hperm.mem_iff.mpr (List.mem_append_left extra hm)))
      fun slot hslot => (find?_of_perm hperm slot.1).trans (find?_append_extra hslot hextra)
    refine ⟨r, rfl, vs, ?_, hheld⟩
    rw [Json.fields?, Json.fromMembers, hkeys, if_pos rfl, hvs]

theorem presents_nil {s : Shape} : Presents (.list s) (.array []) (.array []) := .list .nil

theorem PresentsItems.eq_nil {s : Shape} {js : List Json} (h : PresentsItems s [] js) :
    js = [] := by
  cases h
  rfl

theorem PresentsItems.exists_cons {s : Shape} {c : Json} {cs js : List Json}
    (h : PresentsItems s (c :: cs) js) :
    ∃ j rest, js = j :: rest ∧ Presents s c j ∧ PresentsItems s cs rest := by
  cases h with
  | cons hj hrest => exact ⟨_, _, rfl, hj, hrest⟩

namespace Presents

theorem of_kind {k : Kind} {c j : Json} (h : Presents (.kind k) c j) : Presents k.shape c j := by
  cases h with
  | kind h => exact h

theorem eq_of_scalar {c j : Json} (h : Presents .scalar c j) : j = c := by
  cases h
  rfl

theorem exists_items {s : Shape} {cs : List Json} {j : Json}
    (h : Presents (.list s) (.array cs) j) {room : Nat} (hb : j.brackets ≤ room) :
    ∃ r js, room = r + 1 ∧ j = .array js ∧ PresentsItems s cs js ∧ ∀ j ∈ js, j.brackets ≤ r := by
  cases h with
  | list h =>
    obtain ⟨r, rfl, hbs⟩ := brackets_array_le_iff.mp hb
    exact ⟨r, _, rfl, rfl, h, hbs⟩

/-- What is encoded as `null` has no other form. -/
theorem eq_null {s : Shape} {c j : Json} (h : Presents s c j) (hc : c = .null) : j = .null := by
  match h with
  | .scalar => exact hc
  | .null => rfl
  | .present h | .kind h => exact h.eq_null hc
termination_by structural h

theorem of_nullable {s : Shape} {c j : Json} (h : Presents (.nullable s) c j) (hc : c ≠ .null) :
    Presents s c j := by
  cases h with
  | null => exact absurd rfl hc
  | present h => exact h

theorem name_or {k : Kind} {bare : List String} {data : List (String × Shape)} {tag : String}
    {j : Json} (h : Presents (.kind k) (.text tag) j) (hk : k.shape = .variant bare data)
    {room : Nat} (hb : j.brackets ≤ room) :
    j = .text tag ∨ ∃ r, room = r + 1 ∧ j = .tagged tag .null := by
  have hshape := h.of_kind
  rw [hk] at hshape
  cases hshape with
  | name _ => exact .inl rfl
  | nameNull _ =>
    obtain ⟨r, rfl, -⟩ := brackets_tagged_le_iff.mp hb
    exact .inr ⟨r, rfl, rfl⟩

theorem exists_data {k : Kind} {bare : List String} {data : List (String × Shape)} {tag : String}
    {c j : Json} {s : Shape} (h : Presents (.kind k) (.tagged tag c) j)
    (hk : k.shape = .variant bare data) (hs : data.lookup tag = some s) {room : Nat}
    (hb : j.brackets ≤ room) :
    ∃ r d, room = r + 1 ∧ j = .tagged tag d ∧ Presents s c d ∧ d.brackets ≤ r := by
  have hshape := h.of_kind
  rw [hk] at hshape
  cases hshape with
  | data hs' hd =>
    rw [hs] at hs'
    cases hs'
    obtain ⟨r, rfl, hbd⟩ := brackets_tagged_le_iff.mp hb
    exact ⟨r, _, rfl, rfl, hd, hbd⟩

end Presents

theorem PresentsItems.eq_of_scalar {cs js : List Json} (h : PresentsItems .scalar cs js) :
    js = cs := by
  induction cs generalizing js with
  | nil => exact h.eq_nil
  | cons c cs ih =>
    obtain ⟨j, rest, rfl, hj, hrest⟩ := h.exists_cons
    rw [hj.eq_of_scalar, ih hrest]

section Map

variable {α : Type} {encode : α → Json} {read : Json → Option α} {f : α → α} {s : Shape}

theorem PresentsItems.mapM_map {room : Nat} (xs : List α) {js : List Json}
    (h : PresentsItems s (xs.map encode) js) (hb : ∀ j ∈ js, j.brackets ≤ room)
    (hread : ∀ a ∈ xs, ∀ j, Presents s (encode a) j → j.brackets ≤ room → read j = some (f a)) :
    js.mapM read = some (xs.map f) := by
  induction xs generalizing js with
  | nil =>
    rw [h.eq_nil]
    rfl
  | cons a xs ih =>
    obtain ⟨j, rest, rfl, hj, hrest⟩ := h.exists_cons
    obtain ⟨hbj, hbs⟩ := List.forall_mem_cons.mp hb
    obtain ⟨hra, hrs⟩ := List.forall_mem_cons.mp hread
    rw [List.mapM_cons, hra j hj hbj, ih hrest hbs hrs]
    rfl

theorem Presents.nullable?_map {o : Option α} {j : Json}
    (h : Presents (.nullable s) (orNull (o.map encode)) j) (hne : ∀ a, encode a ≠ .null)
    (hnull : read .null = none) (hread : ∀ a ∈ o, Presents s (encode a) j → read j = some (f a)) :
    j.nullable? read = some (o.map f) := by
  cases o with
  | none =>
    rw [h.eq_null rfl]
    rfl
  | some a => exact nullable?_of_read hnull (hread a rfl (h.of_nullable (hne a)))

end Map

theorem Presents.nullable?_text {s : Option String} {j : Json}
    (h : Presents (.nullable .scalar) (orNull (s.map text)) j) : j.nullable? text? = some s := by
  cases s with
  | none =>
    rw [h.eq_null rfl]
    rfl
  | some t =>
    rw [(h.of_nullable nofun).eq_of_scalar]
    rfl

/-- A record with some of its fields in order and nothing else. -/
theorem Presents.shown {slots : List (Field × Shape)} {fs : List (String × Json)}
    {ms : List Member} (h : PresentsMembers slots fs ms) :
    Presents (.record slots) (.record fs) (.object ms) := by
  have hextra : Extra slots [] := by simp [Extra]
  exact .object h hextra (by rw [List.append_nil])

theorem presentsItems_self {α : Type} (encode : α → Json) {s : Shape}
    (h : ∀ a, Presents s (encode a) (encode a)) (xs : List α) :
    PresentsItems s (xs.map encode) (xs.map encode) := by
  induction xs with
  | nil => exact .nil
  | cons a xs ih => exact .cons (h a) ih

theorem presents_orNull_self {α : Type} (encode : α → Json) {s : Shape}
    (h : ∀ a, Presents s (encode a) (encode a)) (o : Option α) :
    Presents (.nullable s) (orNull (o.map encode)) (orNull (o.map encode)) := by
  cases o with
  | none => exact .null
  | some a => exact .present (h a)

end Format

open Format

theorem Op.presents_tag (op : Op) : Presents (.kind .op) (.text op.tag) (.text op.tag) :=
  .kind (.name (List.mem_map_of_mem op.mem_all))

theorem Prim.presents_tag (p : Prim) : Presents (.kind .ty) (.text p.tag) (.text p.tag) :=
  .kind (.name (List.mem_cons_of_mem _ (List.mem_map_of_mem (by cases p <;> decide))))

mutual

theorem Ty.presents_self (t : Ty) : Presents (.kind .ty) t.encode t.encode := by
  match t with
  | .prim p => exact p.presents_tag
  | .unknown => exact .kind (.name List.mem_cons_self)
  | .unresolved _ => exact .kind (.data rfl .scalar)
  | .pointer elem | .optional elem => exact .kind (.data rfl elem.presents_self)
  | .array elem _ | .slice elem _ | .reference elem _ =>
    exact .kind (.data rfl (.shown (.shown elem.presents_self (.shown .scalar .nil))))
  | .named _ elem =>
    exact .kind (.data rfl (.shown (.shown .scalar (.shown elem.presents_self .nil))))
  | .struct name fields =>
    have hname := presents_orNull_self text (fun _ => .scalar) name
    have hfields := Binding.presents_selfList fields
    exact .kind (.data rfl (.shown (.shown hname (.shown (.list hfields) .nil))))
  | .func params result =>
    have hparams := Binding.presents_selfList params
    exact .kind (.data rfl (.shown (.shown (.list hparams) (.shown result.presents_self .nil))))
termination_by structural t

theorem Ty.presents_selfOption (t : Option Ty) :
    Presents (.nullable (.kind .ty)) (Ty.encodeOption t) (Ty.encodeOption t) := by
  match t with
  | none => exact .null
  | some t => exact .present t.presents_self
termination_by structural t

theorem TypeRef.presents_self (r : TypeRef) : Presents (.kind .ty) r.encode r.encode := by
  match r with
  | ⟨_, t⟩ => exact t.presents_self
termination_by structural r

theorem TypeRef.presents_selfOption (r : Option TypeRef) :
    Presents (.nullable (.kind .ty)) (TypeRef.encodeOption r) (TypeRef.encodeOption r) := by
  match r with
  | none => exact .null
  | some r => exact .present r.presents_self
termination_by structural r

theorem Binding.presents_self (b : Binding) : Presents (.kind .binding) b.encode b.encode := by
  match b with
  | ⟨_, ty, init⟩ =>
    have hty := TypeRef.presents_selfOption ty
    have hinit := Node.presents_selfOption init
    exact .kind (.shown (.shown .scalar (.shown hty (.shown hinit .nil))))
termination_by structural b

theorem Binding.presents_selfList (bs : List Binding) :
    PresentsItems (.kind .binding) (Binding.encodeList bs) (Binding.encodeList bs) := by
  match bs with
  | [] => exact .nil
  | b :: rest => exact .cons b.presents_self (Binding.presents_selfList rest)
termination_by structural bs

theorem FunDef.presents_self (f : FunDef) : Presents (.kind .funDef) f.encode f.encode := by
  match f with
  | ⟨_, params, result, body⟩ =>
    have hparams := Binding.presents_selfList params
    have hbody := Node.presents_selfOption body
    exact .kind (.shown (.shown .scalar (.shown (.list hparams)
      (.shown result.presents_self (.shown hbody .nil)))))
termination_by structural f

theorem Node.presents_self (n : Node) : Presents (.kind .node) n.encode n.encode := by
  match n with
  | .bad => exact .kind (.name List.mem_cons_self)
  | .comment _ | .ident _ | .boolLit _ | .floatLit _ => exact .kind (.data rfl .scalar)
  | .typeDef t | .typeNode t => exact .kind (.data rfl t.presents_self)
  | .binding role b =>
    cases role
    all_goals exact .kind (.data rfl b.presents_self)
  | .func f => exact .kind (.data rfl f.presents_self)
  | .ret value => exact .kind (.data rfl (Node.presents_selfOption value))
  | .deref arg => exact .kind (.data rfl arg.presents_self)
  | .unit items | .block items | .arrayLit items =>
    exact .kind (.data rfl (.list (Node.presents_selfList items)))
  | .strLit bytes =>
    exact .kind (.data rfl (.list (presentsItems_self _ (fun _ => .scalar) bytes)))
  | .call callee args =>
    have hargs := Node.presents_selfList args
    exact .kind (.data rfl (.shown (.shown callee.presents_self (.shown (.list hargs) .nil))))
  | .construct t arg =>
    have harg := Node.presents_selfOption arg
    exact .kind (.data rfl (.shown (.shown t.presents_self (.shown harg .nil))))
  | .member base _ =>
    exact .kind (.data rfl (.shown (.shown base.presents_self (.shown .scalar .nil))))
  | .branch cond yes no =>
    have hno := Node.presents_selfOption no
    exact .kind (.data rfl (.shown (.shown cond.presents_self
      (.shown yes.presents_self (.shown hno .nil)))))
  | .loop start cond step body =>
    have hstart := Node.presents_selfOption start
    have hcond := Node.presents_selfOption cond
    have hstep := Node.presents_selfOption step
    exact .kind (.data rfl (.shown (.shown hstart (.shown hcond
      (.shown hstep (.shown body.presents_self .nil))))))
  | .prefixed op arg | .postfixed op arg =>
    exact .kind (.data rfl (.shown (.shown op.presents_tag (.shown arg.presents_self .nil))))
  | .assign op left right | .binary op left right =>
    exact .kind (.data rfl (.shown (.shown op.presents_tag
      (.shown left.presents_self (.shown right.presents_self .nil)))))
  | .intLit _ ty =>
    have hty := Ty.presents_selfOption ty
    exact .kind (.data rfl (.shown (.shown .scalar (.shown hty .nil))))
termination_by structural n

theorem Node.presents_selfOption (n : Option Node) :
    Presents (.nullable (.kind .node)) (Node.encodeOption n) (Node.encodeOption n) := by
  match n with
  | none => exact .null
  | some n => exact .present n.presents_self
termination_by structural n

theorem Node.presents_selfList (ns : List Node) :
    PresentsItems (.kind .node) (Node.encodeList ns) (Node.encodeList ns) := by
  match ns with
  | [] => exact .nil
  | n :: rest => exact .cons n.presents_self (Node.presents_selfList rest)
termination_by structural ns

end

theorem Settings.presents_self (s : Settings) : Presents (.kind .settings) s.encode s.encode := by
  have hstep : Presents (.kind .loopStep) (.text s.loopStep.tag) (.text s.loopStep.tag) :=
    .kind (.name (by cases s.loopStep <;> decide))
  exact .kind (.shown (.shown .scalar (.shown .scalar (.shown hstep .nil))))

theorem Input.presents_self (i : Input) : Presents (.kind .input) i.encode i.encode :=
  .kind (.shown (.shown .scalar .nil))

theorem Location.presents_self (loc : Location) :
    Presents (.kind .location) loc.encode loc.encode := by
  have hinput := presents_orNull_self Input.encode Input.presents_self loc.input
  exact .kind (.shown (.shown hinput (.shown .scalar (.shown .scalar .nil))))

namespace Ir

theorem Payload.presents_self (p : Payload) : Presents (.kind .payload) p.encode p.encode := by
  cases p with
  | empty => exact .kind (.name List.mem_cons_self)
  | index _ | int _ | float _ => exact .kind (.data rfl .scalar)

theorem Value.presents_self (v : Value) : Presents (.kind .value) v.encode v.encode := by
  have hargs := presentsItems_self (fun a : UInt32 => nat a.toNat) (fun _ => .scalar) v.args
  have hcomment := presents_orNull_self text (fun _ => .scalar) v.comment
  have hloc := presents_orNull_self Location.encode Location.presents_self v.loc
  exact .kind (.shown (.shown .scalar (.shown v.op.presents_tag (.shown v.ty.presents_self
    (.shown (.list hargs) (.shown v.payload.presents_self (.shown .scalar
      (.shown hcomment (.shown hloc .nil)))))))))

theorem presents_branch (control : ValueId) (yes no : BlockId) :
    Presents branchShape (Exit.encodeBranch control yes no) (Exit.encodeBranch control yes no) :=
  .shown (.shown .scalar (.shown .scalar (.shown .scalar .nil)))

theorem Exit.presents_self (e : Exit) : Presents (.kind .exit) e.encode e.encode := by
  cases e with
  | goto next | ret next =>
    have htarget := presents_orNull_self (fun w : UInt32 => nat w.toNat) (fun _ => .scalar) next
    exact .kind (.data rfl htarget)
  | first control yes no | branch control yes no =>
    exact .kind (.data rfl (presents_branch control yes no))

theorem Block.presents_self (b : Block) : Presents (.kind .block) b.encode b.encode := by
  have hpreds := presentsItems_self (fun p : UInt32 => nat p.toNat) (fun _ => .scalar) b.preds
  have hcomment := presents_orNull_self text (fun _ => .scalar) b.comment
  have hvalues := presentsItems_self Value.encode Value.presents_self b.values
  exact .kind (.shown (.shown .scalar (.shown (.list hpreds) (.shown b.exit.presents_self
    (.shown hcomment (.shown (.list hvalues) .nil))))))

theorem Func.presents_self (f : Func) : Presents (.kind .func) f.encode f.encode := by
  have hsource := presents_orNull_self FunDef.encode FunDef.presents_self f.source
  have hblocks := presentsItems_self Block.encode Block.presents_self f.blocks
  exact .kind (.shown (.shown .scalar (.shown hsource (.shown (.list hblocks) .nil))))

theorem Module.presents_self (m : Module) : Presents (.kind .module) m.encode m.encode := by
  have hfunctions := presentsItems_self Func.encode Func.presents_self m.functions
  exact .kind (.shown (.shown (.list hfunctions) .nil))

end Ir

end CodeDump
