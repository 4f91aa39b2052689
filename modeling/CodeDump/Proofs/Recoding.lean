import CodeDump.Codec.Text
import CodeDump.Proofs.TreeCodec

/-!
# Stored values read back

Every kind of stored value is read back from its text: trees, types and bindings, modules, blocks
and exits, operators, settings and locations. Room for its brackets, doubles that read back and
closed inputs are all that is asked of a value, and what is read is the value itself, with every
reference to a type object of its own.
-/

namespace CodeDump

open Json

namespace LoopStep

theorem decode_tag (step : LoopStep) (room : Nat) : decode room (.text step.tag) = some step := by
  cases step <;> rfl

end LoopStep

namespace Settings

theorem proper_encode (s : Settings) : s.encode.Proper := by
  simp [encode]

theorem decode_encode (s : Settings) (room : Nat) : decode (room + 1) s.encode = some s := by
  change (do
    return Settings.mk (← (nat s.initialGuess.toNat).long?) (← (nat s.indentWidth.toNat).long?)
      (← LoopStep.decode room (text s.loopStep.tag))) = _
  rw [long?_nat, long?_nat, LoopStep.decode_tag]
  rfl

end Settings

namespace Input

theorem proper_encode (i : Input) : i.encode.Proper := by
  simp [encode]

theorem decode_null (room : Nat) : decode room .null = none := by
  cases room <;> rfl

theorem decode_encode (i : Input) (room : Nat) (h : i.encode.brackets ≤ room)
    (hc : i.isOpen = false) : decode room i.encode = some i := by
  simp only [encode, brackets_record_le_iff] at h
  obtain ⟨room, rfl, -⟩ := h
  obtain ⟨name, data⟩ := i
  cases data with
  | none => rfl
  | some bytes => cases hc

end Input

namespace Location

def inputs (loc : Location) : List Input := loc.input.toList

theorem proper_encode (loc : Location) : loc.encode.Proper := by
  simp [encode, proper_orNull_map Input.proper_encode]

theorem decode_null (room : Nat) : decode room .null = none := by
  cases room <;> rfl

theorem decode_encode (loc : Location) (room : Nat) (h : loc.encode.brackets ≤ room)
    (hc : ∀ i ∈ loc.inputs, i.isOpen = false) : decode room loc.encode = some loc := by
  simp only [encode, brackets_record_le_iff, brackets_orNull_le_iff, List.forall_mem_cons] at h
  obtain ⟨room, rfl, hi, -⟩ := h
  have hinput : (orNull (loc.input.map Input.encode)).nullable? (Input.decode room) =
      some loc.input := by
    apply nullable?_inverse (Input.decode_null room)
    intro i hmem
    apply Input.decode_encode i room
    · exact hi i.encode (Option.mem_map_of_mem Input.encode hmem)
    · exact hc i (Option.mem_toList.mpr hmem)
  change (do
    return Location.mk (← (orNull (loc.input.map Input.encode)).nullable? (Input.decode room))
      (← (nat loc.line.toNat).word?) (← (nat loc.column.toNat).word?)) = _
  rw [hinput, word?_nat, word?_nat]
  rfl

end Location

namespace Ir

namespace Payload

def doubles : Payload → List Double
  | .float x => [x]
  | .empty | .index _ | .int _ => []

theorem proper_encode (p : Payload) : p.encode.Proper := by
  cases p <;> simp [encode]

theorem decode_encode (p : Payload) (room : Nat) (h : p.encode.brackets ≤ room)
    (hd : ∀ x ∈ p.doubles, x.ReadsBack) : decode room p.encode = some p := by
  cases p with
  | empty => rfl
  | index i =>
    obtain ⟨room, rfl, -⟩ := brackets_tagged_le_iff.mp h
    exact congrArg (Option.map Payload.index) (word?_nat i)
  | int n =>
    obtain ⟨room, rfl, -⟩ := brackets_tagged_le_iff.mp h
    exact congrArg (Option.map Payload.int) (long?_nat n)
  | float x =>
    obtain ⟨room, rfl, -⟩ := brackets_tagged_le_iff.mp h
    exact congrArg (Option.map Payload.float) (hd x (List.mem_singleton_self x)).double?

end Payload

namespace Value

/-- The same value with every reference of its type to an object of its own. -/
def unshared (v : Value) : Value := { v with ty := v.ty.unshared }

def doubles (v : Value) : List Double := v.ty.doubles ++ v.payload.doubles

def inputs (v : Value) : List Input := v.loc.toList.flatMap Location.inputs

theorem proper_encode (v : Value) : v.encode.Proper := by
  simp [encode, Ty.proper_encode, Payload.proper_encode, proper_array_map,
    proper_orNull_map proper_text, proper_orNull_map Location.proper_encode]

theorem decode_encode (v : Value) (room : Nat) (h : v.encode.brackets ≤ room)
    (hd : ∀ x ∈ v.doubles, x.ReadsBack) (hc : ∀ i ∈ v.inputs, i.isOpen = false) :
    decode room v.encode = some v.unshared := by
  simp only [encode, brackets_record_le_iff, brackets_array_le_iff, brackets_orNull_le_iff,
    List.forall_mem_cons] at h
  obtain ⟨_, rfl, -, -, ht, ⟨room, rfl, -⟩, hp, -, -, hl, -⟩ := h
  obtain ⟨hdt, hdp⟩ := List.forall_mem_append.mp hd
  have hty := Ty.decode_encode v.ty (room + 1) ht hdt
  have hargs := mapM_map_inverse word?_nat v.args
  have hpayload := Payload.decode_encode v.payload (room + 1) hp hdp
  rw [inputs, List.forall_mem_flatMap] at hc
  have hloc : (orNull (v.loc.map Location.encode)).nullable? (Location.decode (room + 1)) =
      some v.loc := by
    apply nullable?_inverse (Location.decode_null (room + 1))
    intro loc hmem
    apply Location.decode_encode loc (room + 1)
    · exact hl loc.encode (Option.mem_map_of_mem Location.encode hmem)
    · exact hc loc (Option.mem_toList.mpr hmem)
  change (do
    return Value.mk (← (nat v.id.toNat).word?) (← Op.decode (room + 1) (text v.op.tag))
      (← Ty.decode (room + 1) v.ty.encode) (← (v.args.map fun a : UInt32 => nat a.toNat).mapM word?)
      (← Payload.decode (room + 1) v.payload.encode) (← (nat v.uses.toNat).word?)
      (← (orNull (v.comment.map text)).nullable? text?)
      (← (orNull (v.loc.map Location.encode)).nullable? (Location.decode (room + 1)))) = _
  rw [word?_nat, Op.decode_tag, hty, hargs, hpayload, word?_nat, nullable?_text, hloc]
  rfl

end Value

namespace Exit

theorem proper_encode (e : Exit) : e.encode.Proper := by
  cases e <;> simp [encode, encodeBranch, proper_orNull_map]

theorem decodeBranch_encodeBranch (make : ValueId → BlockId → BlockId → Exit) (control : ValueId)
    (yes no : BlockId) (room : Nat) :
    decodeBranch (room + 1) make (encodeBranch control yes no) = some (make control yes no) := by
  change (do
    return make (← (nat control.toNat).word?) (← (nat yes.toNat).word?)
      (← (nat no.toNat).word?)) = _
  rw [word?_nat, word?_nat, word?_nat]
  rfl

theorem decode_encode (e : Exit) (room : Nat) (h : e.encode.brackets ≤ room) :
    decode room e.encode = some e := by
  cases e with
  | goto next =>
    obtain ⟨room, rfl, -⟩ := brackets_tagged_le_iff.mp h
    exact congrArg (Option.map Exit.goto) (nullable?_inverse rfl next fun b _ => word?_nat b)
  | first control yes no =>
    obtain ⟨room, rfl, -⟩ := brackets_variant_le_iff.mp h
    exact decodeBranch_encodeBranch .first control yes no room
  | branch control yes no =>
    obtain ⟨room, rfl, -⟩ := brackets_variant_le_iff.mp h
    exact decodeBranch_encodeBranch .branch control yes no room
  | ret value =>
    obtain ⟨room, rfl, -⟩ := brackets_tagged_le_iff.mp h
    exact congrArg (Option.map Exit.ret) (nullable?_inverse rfl value fun v _ => word?_nat v)

end Exit

namespace Block

def unshared (b : Block) : Block := { b with values := b.values.map Value.unshared }

def doubles (b : Block) : List Double := b.values.flatMap Value.doubles

def inputs (b : Block) : List Input := b.values.flatMap Value.inputs

theorem proper_encode (b : Block) : b.encode.Proper := by
  simp [encode, Exit.proper_encode, proper_array_map, proper_orNull_map proper_text,
    Value.proper_encode]

theorem decode_encode (b : Block) (room : Nat) (h : b.encode.brackets ≤ room)
    (hd : ∀ x ∈ b.doubles, x.ReadsBack) (hc : ∀ i ∈ b.inputs, i.isOpen = false) :
    decode room b.encode = some b.unshared := by
  simp only [encode, brackets_record_le_iff, brackets_array_le_iff, List.forall_mem_cons,
    List.forall_mem_map] at h
  obtain ⟨_, rfl, -, ⟨room, rfl, -⟩, he, -, ⟨_, hroom, hv⟩, -⟩ := h
  cases hroom
  have hpreds := mapM_map_inverse word?_nat b.preds
  have hexit := Exit.decode_encode b.exit (room + 1) he
  rw [doubles, List.forall_mem_flatMap] at hd
  rw [inputs, List.forall_mem_flatMap] at hc
  have hvalues := mapM_map_encode b.values fun v hmem =>
    Value.decode_encode v room (hv v hmem) (hd v hmem) (hc v hmem)
  change (do
    return Block.mk (← (nat b.id.toNat).word?)
      (← (b.preds.map fun p : UInt32 => nat p.toNat).mapM word?)
      (← Exit.decode (room + 1) b.exit.encode) (← (orNull (b.comment.map text)).nullable? text?)
      (← (b.values.map Value.encode).mapM (Value.decode room))) = _
  rw [word?_nat, hpreds, hexit, nullable?_text, hvalues]
  rfl

end Block

namespace Func

def unshared (f : Func) : Func :=
  { f with source := f.source.map FunDef.unshared, blocks := f.blocks.map Block.unshared }

def doubles (f : Func) : List Double :=
  f.source.toList.flatMap FunDef.doubles ++ f.blocks.flatMap Block.doubles

def inputs (f : Func) : List Input := f.blocks.flatMap Block.inputs

theorem proper_encode (f : Func) : f.encode.Proper := by
  simp [encode, proper_orNull_map FunDef.proper_encode, proper_array_map Block.proper_encode]

theorem decode_encode (f : Func) (room : Nat) (h : f.encode.brackets ≤ room)
    (hd : ∀ x ∈ f.doubles, x.ReadsBack) (hc : ∀ i ∈ f.inputs, i.isOpen = false) :
    decode room f.encode = some f.unshared := by
  simp only [encode, brackets_record_le_iff, brackets_array_le_iff, brackets_orNull_le_iff,
    List.forall_mem_cons, List.forall_mem_map] at h
  obtain ⟨_, rfl, -, hs, ⟨room, rfl, hb⟩, -⟩ := h
  rw [doubles, List.forall_mem_append, List.forall_mem_flatMap, List.forall_mem_flatMap] at hd
  rw [inputs, List.forall_mem_flatMap] at hc
  have hsource : (orNull (f.source.map FunDef.encode)).nullable? (FunDef.decode (room + 1)) =
      some (f.source.map FunDef.unshared) := by
    apply nullable?_orNull (FunDef.decode_null (room + 1))
    intro g hmem
    apply FunDef.decode_encode g (room + 1)
    · exact hs g.encode (Option.mem_map_of_mem FunDef.encode hmem)
    · exact hd.1 g (Option.mem_toList.mpr hmem)
  have hblocks := mapM_map_encode f.blocks fun b hmem =>
    Block.decode_encode b room (hb b hmem) (hd.2 b hmem) (hc b hmem)
  change (do
    return Func.mk f.name
      (← (orNull (f.source.map FunDef.encode)).nullable? (FunDef.decode (room + 1)))
      (← (f.blocks.map Block.encode).mapM (Block.decode room))) = _
  rw [hsource, hblocks]
  rfl

end Func

namespace Module

def unshared (m : Module) : Module := ⟨m.functions.map Func.unshared⟩

def doubles (m : Module) : List Double := m.functions.flatMap Func.doubles

def inputs (m : Module) : List Input := m.functions.flatMap Func.inputs

theorem proper_encode (m : Module) : m.encode.Proper := by
  simp [encode, proper_array_map Func.proper_encode]

theorem decode_encode (m : Module) (room : Nat) (h : m.encode.brackets ≤ room)
    (hd : ∀ x ∈ m.doubles, x.ReadsBack) (hc : ∀ i ∈ m.inputs, i.isOpen = false) :
    decode room m.encode = some m.unshared := by
  simp only [encode, brackets_record_le_iff, brackets_array_le_iff, List.forall_mem_cons,
    List.forall_mem_map] at h
  obtain ⟨_, rfl, ⟨room, rfl, hf⟩, -⟩ := h
  rw [doubles, List.forall_mem_flatMap] at hd
  rw [inputs, List.forall_mem_flatMap] at hc
  have hfunctions := mapM_map_encode m.functions fun f hmem =>
    Func.decode_encode f room (hf f hmem) (hd f hmem) (hc f hmem)
  exact congrArg (Option.map Module.mk) hfunctions

end Module

end Ir

namespace Stored

theorem read_write_of_decode {α : Type} [Stored α] {a b : α} (hp : (encode a).Proper)
    (h : decode maxBrackets (encode a) = some b) : read (write a) = .ok b := by
  have hread : read? (write a) = some b := by
    rw [read?, write, Json.parse?_render hp, Option.bind_some, h]
  rw [read, hread]

/-- Reading undoes writing, for every kind of stored value. Object numbers are the one thing that
a text does not keep, so what holds types comes back `unshared`. -/
theorem read_write :
    (∀ n : Node, n.encode.brackets ≤ maxBrackets → (∀ x ∈ n.doubles, x.ReadsBack) →
      read (write n) = .ok n.unshared) ∧
    (∀ t : Ty, t.encode.brackets ≤ maxBrackets → (∀ x ∈ t.doubles, x.ReadsBack) →
      read (write t) = .ok t.unshared) ∧
    (∀ b : Binding, b.encode.brackets ≤ maxBrackets → (∀ x ∈ b.doubles, x.ReadsBack) →
      read (write b) = .ok b.unshared) ∧
    (∀ m : Ir.Module, m.encode.brackets ≤ maxBrackets → (∀ x ∈ m.doubles, x.ReadsBack) →
      (∀ i ∈ m.inputs, i.isOpen = false) → read (write m) = .ok m.unshared) ∧
    (∀ b : Ir.Block, b.encode.brackets ≤ maxBrackets → (∀ x ∈ b.doubles, x.ReadsBack) →
      (∀ i ∈ b.inputs, i.isOpen = false) → read (write b) = .ok b.unshared) ∧
    (∀ e : Ir.Exit, e.encode.brackets ≤ maxBrackets → read (write e) = .ok e) ∧
    (∀ op : Op, read (write op) = .ok op) ∧
    (∀ s : Settings, read (write s) = .ok s) ∧
    (∀ loc : Location, loc.encode.brackets ≤ maxBrackets →
      (∀ i ∈ loc.inputs, i.isOpen = false) → read (write loc) = .ok loc) := by
  refine ⟨?_, ?_, ?_, ?_, ?_, ?_, ?_, ?_, ?_⟩
  · intro n hn hd
    exact read_write_of_decode n.proper_encode (n.decode_encode maxBrackets hn hd)
  · intro t ht hd
    exact read_write_of_decode t.proper_encode (t.decode_encode maxBrackets ht hd)
  · intro b hb hd
    exact read_write_of_decode b.proper_encode (b.decode_encode maxBrackets hb hd)
  · intro m hm hd hc
    exact read_write_of_decode m.proper_encode (m.decode_encode maxBrackets hm hd hc)
  · intro b hb hd hc
    exact read_write_of_decode b.proper_encode (b.decode_encode maxBrackets hb hd hc)
  · intro e he
    exact read_write_of_decode e.proper_encode (e.decode_encode maxBrackets he)
  · intro op
    exact read_write_of_decode (proper_text op.tag) (Op.decode_tag op maxBrackets)
  · intro s
    exact read_write_of_decode s.proper_encode (s.decode_encode (maxBrackets - 1))
  · intro loc hl hc
    exact read_write_of_decode loc.proper_encode (loc.decode_encode maxBrackets hl hc)

/-- A function whose two parameters have one type object, or each its own. -/
def halves (object : Option Nat) : Ir.Module :=
  let x : Binding := ⟨"x", some ⟨object, .prim .f64⟩, some (.floatLit ⟨0x3fe0000000000000⟩)⟩
  let y : Binding := ⟨"y", some ⟨object, .prim .f64⟩, none⟩
  let half : Ir.Value :=
    ⟨4294967295, .floatConst, .prim .f64, [], .float ⟨0x3fe0000000000000⟩, 0, some "\"½\"\t\x01",
      some ⟨some (.create "half.c"), 3, 1⟩⟩
  ⟨[⟨"f", some ⟨"f", [x, y], .prim .f64, none⟩, [⟨0, [], .ret (some 4294967295), none, [half]⟩]⟩]⟩

theorem read_write_halves :
    (halves (some 7)).encode.brackets ≤ maxBrackets ∧
      (∀ x ∈ (halves (some 7)).doubles, x.ReadsBack) ∧
      (∀ i ∈ (halves (some 7)).inputs, i.isOpen = false) ∧
      read (write (halves (some 7))) = .ok (halves none) := by
  have hb : (halves (some 7)).encode.brackets ≤ maxBrackets := by decide +kernel
  have hd : ∀ x ∈ (halves (some 7)).doubles, x.ReadsBack := by decide +kernel
  have hc : ∀ i ∈ (halves (some 7)).inputs, i.isOpen = false := by decide +kernel
  exact ⟨hb, hd, hc, read_write.2.2.2.1 (halves (some 7)) hb hd hc⟩

end Stored

end CodeDump
