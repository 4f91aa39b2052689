import CodeDump.Number.Numeral

/-!
# JSON values

Numbers keep their digits, and objects keep their members in order and with repetitions. A
string is `none` when it holds one half of a surrogate pair without the other: such a text
is well-formed but has no characters.
-/

namespace CodeDump

mutual

inductive Json
  | null
  | bool (b : Bool)
  | number (n : Numeral)
  | string (s : Option String)
  | array (items : List Json)
  | object (members : List Member)

structure Member where
  key : Option String
  value : Json

end

namespace Json

def text (s : String) : Json := string (some s)

def nat (n : Nat) : Json := number (Numeral.ofNat n)

/-- An object with one member. -/
def tagged (tag : String) (data : Json) : Json := object [⟨some tag, data⟩]

def record (fields : List (String × Json)) : Json :=
  object (fields.map fun f => ⟨some f.1, f.2⟩)

/-- An absent value is `null`. -/
def orNull : Option Json → Json
  | none => null
  | some j => j

/-- A number that is not finite has no numeral. -/
def double (x : Double) : Json :=
  match x.exchange? with
  | some n => number n
  | none => null

end Json

end CodeDump
