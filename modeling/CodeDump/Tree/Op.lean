/-!
# Operators

One enumeration serves expressions and listings. Every operator has a mnemonic (`name`), a
display token (`symbol`) and the tag under which data files store it.
-/

namespace CodeDump

inductive Op
  | noop | aliasOf | arg | borrow | borrowMut | call | drop | floatConst | func | intConst
  | move | ownerCheck | phi | store | var | zero | cast | gep
  | inc | dec | inv | not | deref
  | add | sub | mul | div | mod
  | and | or | xor | shl | shr
  | logicalAnd | logicalOr
  | eq | ne | lt | gt | le | ge
  | assign | addAssign | andAssign | divAssign | modAssign | mulAssign | orAssign | shlAssign
  | shrAssign | subAssign | xorAssign
  deriving DecidableEq, Repr

namespace Op

def name : Op → String
  | noop => "noop"
  | aliasOf => "alias"
  | arg => "arg"
  | borrow => "borrow"
  | borrowMut => "borrow_mut"
  | call => "call"
  | drop => "drop"
  | floatConst => "fconst"
  | func => "fun"
  | intConst => "iconst"
  | move => "move"
  | ownerCheck => "ocheck"
  | phi => "phi"
  | store => "store"
  | var => "var"
  | zero => "zero"
  | cast => "cast"
  | gep => "gep"
  | inc => "inc"
  | dec => "dec"
  | inv => "inv"
  | not => "not"
  | deref => "deref"
  | add => "add"
  | sub => "sub"
  | mul => "mul"
  | div => "div"
  | mod => "mod"
  | and => "and"
  | or => "or"
  | xor => "xor"
  | shl => "shl"
  | shr => "shr"
  | logicalAnd => "land"
  | logicalOr => "lor"
  | eq => "eq"
  | ne => "neq"
  | lt => "lt"
  | gt => "gt"
  | le => "lteq"
  | ge => "gteq"
  | assign => "assign"
  | addAssign => "add_assign"
  | andAssign => "and_assign"
  | divAssign => "div_assign"
  | modAssign => "mod_assign"
  | mulAssign => "mul_assign"
  | orAssign => "or_assign"
  | shlAssign => "shl_assign"
  | shrAssign => "shr_assign"
  | subAssign => "sub_assign"
  | xorAssign => "xor_assign"

/-- The source symbol of an expression operator, the mnemonic of a structural one. -/
def symbol : Op → String
  | inc => "++"
  | dec => "--"
  | inv => "~"
  | not => "!"
  | deref => "*"
  | add => "+"
  | sub => "-"
  | mul => "*"
  | div => "/"
  | mod => "%"
  | and => "&"
  | or => "|"
  | xor => "^"
  | shl => "<<"
  | shr => ">>"
  | logicalAnd => "&&"
  | logicalOr => "||"
  | eq => "=="
  | ne => "!="
  | lt => "<"
  | gt => ">"
  | le => "<="
  | ge => ">="
  | assign => "="
  | addAssign => "+="
  | andAssign => "&="
  | divAssign => "/="
  | modAssign => "%="
  | mulAssign => "*="
  | orAssign => "|="
  | shlAssign => "<<="
  | shrAssign => ">>="
  | subAssign => "-="
  | xorAssign => "^="
  | op => op.name

/-- The stored name. -/
def tag : Op → String
  | noop => "Noop"
  | aliasOf => "Alias"
  | arg => "Arg"
  | borrow => "Borrow"
  | borrowMut => "BorrowMut"
  | call => "Call"
  | drop => "Drop"
  | floatConst => "FConst"
  | func => "Fun"
  | intConst => "IConst"
  | move => "Move"
  | ownerCheck => "OCheck"
  | phi => "Phi"
  | store => "Store"
  | var => "Var"
  | zero => "Zero"
  | cast => "Cast"
  | gep => "Gep"
  | inc => "Inc"
  | dec => "Dec"
  | inv => "Inv"
  | not => "Not"
  | deref => "Deref"
  | add => "Add"
  | sub => "Sub"
  | mul => "Mul"
  | div => "Div"
  | mod => "Mod"
  | and => "And"
  | or => "Or"
  | xor => "Xor"
  | shl => "Shl"
  | shr => "Shr"
  | logicalAnd => "LAnd"
  | logicalOr => "LOr"
  | eq => "Eq"
  | ne => "Neq"
  | lt => "Lt"
  | gt => "Gt"
  | le => "LtEq"
  | ge => "GtEq"
  | assign => "Assign"
  | addAssign => "AddAssign"
  | andAssign => "AndAssign"
  | divAssign => "DivAssign"
  | modAssign => "ModAssign"
  | mulAssign => "MulAssign"
  | orAssign => "OrAssign"
  | shlAssign => "ShlAssign"
  | shrAssign => "ShrAssign"
  | subAssign => "SubAssign"
  | xorAssign => "XorAssign"

def all : List Op := [
  noop, aliasOf, arg, borrow, borrowMut, call, drop, floatConst, func, intConst, move,
  ownerCheck, phi, store, var, zero, cast, gep, inc, dec, inv, not, deref, add, sub, mul, div,
  mod, and, or, xor, shl, shr, logicalAnd, logicalOr, eq, ne, lt, gt, le, ge, assign,
  addAssign, andAssign, divAssign, modAssign, mulAssign, orAssign, shlAssign, shrAssign,
  subAssign, xorAssign]

theorem mem_all (op : Op) : op ∈ all := by
  cases op <;> decide

def ofTag? (s : String) : Option Op := all.find? fun op => op.tag == s

theorem ofTag?_tag (op : Op) : ofTag? op.tag = some op := by
  cases op <;> rfl

def isUnary : Op → Bool
  | inc | dec | inv | not | deref => true
  | _ => false

def isAssign : Op → Bool
  | assign | addAssign | andAssign | divAssign | modAssign | mulAssign | orAssign | shlAssign
  | shrAssign | subAssign | xorAssign => true
  | _ => false

/-- Assignments count as binary. -/
def isBinary : Op → Bool
  | add | sub | mul | div | mod | and | or | xor | shl | shr | logicalAnd | logicalOr | eq | ne
  | lt | gt | le | ge => true
  | op => op.isAssign

end Op

end CodeDump
