import CodeDump.Tree.Equal

/-!
# The test for equal trees

`Ty.beq` and its companions hold exactly of equal trees, doubles being equal if their bits are. Two
bindings that share their type therefore have the same one, contents and number.
-/

namespace CodeDump

mutual

theorem Ty.beq_iff : ∀ t u : Ty, Ty.beq t u = true ↔ t = u
  | .prim _, u | .unknown, u | .unresolved _, u => by cases u <;> simp [Ty.beq]
  | .struct _ fields, u => by cases u <;> simp [Ty.beq, Binding.beqList_iff fields]
  | .func params result, u => by
    cases u <;> simp [Ty.beq, Binding.beqList_iff params, Ty.beq_iff result]
  | .array elem _, u | .slice elem _, u | .pointer elem, u | .reference elem _, u
  | .optional elem, u | .named _ elem, u => by
    cases u <;> simp [Ty.beq, Ty.beq_iff elem]
termination_by structural t => t

theorem Ty.beqOption_iff : ∀ t u : Option Ty, Ty.beqOption t u = true ↔ t = u
  | none, u => by cases u <;> simp [Ty.beqOption]
  | some t, u => by cases u <;> simp [Ty.beqOption, Ty.beq_iff t]
termination_by structural t => t

theorem TypeRef.beq_iff : ∀ r s : TypeRef, TypeRef.beq r s = true ↔ r = s
  | ⟨_, t⟩, ⟨_, _⟩ => by simp [TypeRef.beq, Ty.beq_iff t]
termination_by structural r => r

theorem TypeRef.beqOption_iff : ∀ r s : Option TypeRef, TypeRef.beqOption r s = true ↔ r = s
  | none, s => by cases s <;> simp [TypeRef.beqOption]
  | some r, s => by cases s <;> simp [TypeRef.beqOption, TypeRef.beq_iff r]
termination_by structural r => r

theorem Binding.beq_iff : ∀ b c : Binding, Binding.beq b c = true ↔ b = c
  | ⟨_, ty, init⟩, ⟨_, _, _⟩ => by
    simp [Binding.beq, TypeRef.beqOption_iff ty, Node.beqOption_iff init, and_assoc]
termination_by structural b => b

theorem Binding.beqList_iff : ∀ bs cs : List Binding, Binding.beqList bs cs = true ↔ bs = cs
  | [], cs => by cases cs <;> simp [Binding.beqList]
  | b :: rest, cs => by
    cases cs <;> simp [Binding.beqList, Binding.beq_iff b, Binding.beqList_iff rest]
termination_by structural bs => bs

theorem FunDef.beq_iff : ∀ f g : FunDef, FunDef.beq f g = true ↔ f = g
  | ⟨_, params, result, body⟩, ⟨_, _, _, _⟩ => by
    simp [FunDef.beq, Binding.beqList_iff params, Ty.beq_iff result, Node.beqOption_iff body,
      and_assoc]
termination_by structural f => f

theorem Node.beq_iff : ∀ n m : Node, Node.beq n m = true ↔ n = m
  | .bad, m | .comment _, m | .ident _, m | .boolLit _, m | .floatLit _, m | .strLit _, m => by
    cases m <;> simp [Node.beq]
  | .unit items, m | .block items, m | .arrayLit items, m => by
    cases m <;> simp [Node.beq, Node.beqList_iff items]
  | .typeDef t, m | .typeNode t, m => by cases m <;> simp [Node.beq, Ty.beq_iff t]
  | .binding _ b, m => by cases m <;> simp [Node.beq, Binding.beq_iff b]
  | .func f, m => by cases m <;> simp [Node.beq, FunDef.beq_iff f]
  | .call callee args, m => by
    cases m <;> simp [Node.beq, Node.beq_iff callee, Node.beqList_iff args]
  | .construct t arg, m => by
    cases m <;> simp [Node.beq, Ty.beq_iff t, Node.beqOption_iff arg]
  | .member n _, m | .deref n, m | .prefixed _ n, m | .postfixed _ n, m => by
    cases m <;> simp [Node.beq, Node.beq_iff n]
  | .branch cond yes no, m => by
    cases m <;> simp [Node.beq, Node.beq_iff cond, Node.beq_iff yes, Node.beqOption_iff no,
      and_assoc]
  | .loop start cond step body, m => by
    cases m <;> simp [Node.beq, Node.beqOption_iff start, Node.beqOption_iff cond,
      Node.beqOption_iff step, Node.beq_iff body, and_assoc]
  | .ret value, m => by cases m <;> simp [Node.beq, Node.beqOption_iff value]
  | .assign _ left right, m | .binary _ left right, m => by
    cases m <;> simp [Node.beq, Node.beq_iff left, Node.beq_iff right, and_assoc]
  | .intLit _ ty, m => by cases m <;> simp [Node.beq, Ty.beqOption_iff ty]
termination_by structural n => n

theorem Node.beqOption_iff : ∀ n m : Option Node, Node.beqOption n m = true ↔ n = m
  | none, m => by cases m <;> simp [Node.beqOption]
  | some n, m => by cases m <;> simp [Node.beqOption, Node.beq_iff n]
termination_by structural n => n

theorem Node.beqList_iff : ∀ ns ms : List Node, Node.beqList ns ms = true ↔ ns = ms
  | [], ms => by cases ms <;> simp [Node.beqList]
  | n :: rest, ms => by
    cases ms <;> simp [Node.beqList, Node.beq_iff n, Node.beqList_iff rest]
termination_by structural ns => ns

end

instance : LawfulBEq TypeRef where
  eq_of_beq := (TypeRef.beq_iff _ _).mp
  rfl := (TypeRef.beq_iff _ _).mpr rfl

theorem TypeRef.sameObject_iff (r s : TypeRef) :
    r.sameObject s = true ↔ r.object.isSome = true ∧ r = s := by
  rw [TypeRef.sameObject, Bool.and_eq_true, beq_iff_eq]

theorem Binding.ty_eq_of_sharesType {b c : Binding} (h : b.sharesType c = true) : b.ty = c.ty := by
  unfold Binding.sharesType at h
  split at h
  · rename_i r s hr hs
    rw [hr, hs, ((r.sameObject_iff s).mp h).2]
  · rename_i hb hc
    rw [hb, hc]
  · cases h

end CodeDump
