import CodeDump.Tree.Node

/-!
# Equality of trees

Structural equality, object numbers included, and from it the identity of type objects.
-/

namespace CodeDump

mutual

def Ty.beq : Ty → Ty → Bool
  | .prim p, .prim q => p == q
  | .struct n fs, .struct m gs => n == m && Binding.beqList fs gs
  | .func ps r, .func qs s => Binding.beqList ps qs && Ty.beq r s
  | .array e n, .array f m => Ty.beq e f && n == m
  | .slice e b, .slice f c => Ty.beq e f && b == c
  | .pointer e, .pointer f => Ty.beq e f
  | .reference e b, .reference f c => Ty.beq e f && b == c
  | .optional e, .optional f => Ty.beq e f
  | .named n e, .named m f => n == m && Ty.beq e f
  | .unknown, .unknown => true
  | .unresolved n, .unresolved m => n == m
  | _, _ => false
termination_by structural x => x

def Ty.beqOption : Option Ty → Option Ty → Bool
  | none, none => true
  | some t, some u => Ty.beq t u
  | _, _ => false
termination_by structural x => x

def TypeRef.beq : TypeRef → TypeRef → Bool
  | ⟨o, t⟩, ⟨p, u⟩ => o == p && Ty.beq t u
termination_by structural x => x

def TypeRef.beqOption : Option TypeRef → Option TypeRef → Bool
  | none, none => true
  | some r, some s => TypeRef.beq r s
  | _, _ => false
termination_by structural x => x

def Binding.beq : Binding → Binding → Bool
  | ⟨n, t, i⟩, ⟨m, u, j⟩ => n == m && TypeRef.beqOption t u && Node.beqOption i j
termination_by structural x => x

def Binding.beqList : List Binding → List Binding → Bool
  | [], [] => true
  | b :: bs, c :: cs => Binding.beq b c && Binding.beqList bs cs
  | _, _ => false
termination_by structural x => x

def FunDef.beq : FunDef → FunDef → Bool
  | ⟨n, ps, r, b⟩, ⟨m, qs, s, c⟩ =>
      n == m && Binding.beqList ps qs && Ty.beq r s && Node.beqOption b c
termination_by structural x => x

def Node.beq : Node → Node → Bool
  | .bad, .bad => true
  | .comment s, .comment t => s == t
  | .unit xs, .unit ys => Node.beqList xs ys
  | .typeDef t, .typeDef u => Ty.beq t u
  | .binding r b, .binding s c => r == s && Binding.beq b c
  | .func f, .func g => FunDef.beq f g
  | .block xs, .block ys => Node.beqList xs ys
  | .call f xs, .call g ys => Node.beq f g && Node.beqList xs ys
  | .construct t x, .construct u y => Ty.beq t u && Node.beqOption x y
  | .member x n, .member y m => Node.beq x y && n == m
  | .branch a b c, .branch d e f => Node.beq a d && Node.beq b e && Node.beqOption c f
  | .loop a b c d, .loop e f g h =>
      Node.beqOption a e && Node.beqOption b f && Node.beqOption c g && Node.beq d h
  | .ident n, .ident m => n == m
  | .ret x, .ret y => Node.beqOption x y
  | .deref x, .deref y => Node.beq x y
  | .prefixed o x, .prefixed p y => o == p && Node.beq x y
  | .postfixed o x, .postfixed p y => o == p && Node.beq x y
  | .assign o a b, .assign p c d => o == p && Node.beq a c && Node.beq b d
  | .binary o a b, .binary p c d => o == p && Node.beq a c && Node.beq b d
  | .boolLit b, .boolLit c => b == c
  | .intLit n t, .intLit m u => n == m && Ty.beqOption t u
  | .floatLit x, .floatLit y => x == y
  | .strLit s, .strLit t => s == t
  | .arrayLit xs, .arrayLit ys => Node.beqList xs ys
  | .typeNode t, .typeNode u => Ty.beq t u
  | _, _ => false
termination_by structural x => x

def Node.beqOption : Option Node → Option Node → Bool
  | none, none => true
  | some x, some y => Node.beq x y
  | _, _ => false
termination_by structural x => x

def Node.beqList : List Node → List Node → Bool
  | [], [] => true
  | x :: xs, y :: ys => Node.beq x y && Node.beqList xs ys
  | _, _ => false
termination_by structural x => x
end

instance : BEq Ty := ⟨Ty.beq⟩

instance : BEq TypeRef := ⟨TypeRef.beq⟩

instance : BEq Binding := ⟨Binding.beq⟩

instance : BEq FunDef := ⟨FunDef.beq⟩

instance : BEq Node := ⟨Node.beq⟩

namespace TypeRef

/-- Two references are to one object when they carry the same object number, and with it the
same contents. -/
def sameObject (r s : TypeRef) : Bool := r.object.isSome && r == s

end TypeRef

namespace Binding

/-- Whether two bindings have one type between them: the same object, or none at all. -/
def sharesType (b c : Binding) : Bool :=
  match b.ty, c.ty with
  | some r, some s => r.sameObject s
  | none, none => true
  | _, _ => false

end Binding

end CodeDump
