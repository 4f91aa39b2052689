import CodeDump.Number.Radix

/-!
# Quoted byte strings

A string literal shows its bytes between double quotes: printable characters as they are, the
quote, the backslash and three control characters with a backslash, every other byte as `\xHH`.
-/

namespace CodeDump.Quoted

/-- Two lower-case hexadecimal digits. -/
def hexByte (b : UInt8) : List Char :=
  [Nat.digitChar (b.toNat / 16), Nat.digitChar (b.toNat % 16)]

def escape (b : UInt8) : List Char :=
  if b = 0x22 then ['\\', '"']
  else if b = 0x5c then ['\\', '\\']
  else if b = 0x0a then ['\\', 'n']
  else if b = 0x0d then ['\\', 'r']
  else if b = 0x09 then ['\\', 't']
  else if 0x20 ≤ b ∧ b ≤ 0x7e then [Char.ofNat b.toNat]
  else '\\' :: 'x' :: hexByte b

def body (bytes : List UInt8) : List Char := bytes.flatMap escape

@[simp] theorem body_nil : body [] = [] := rfl

@[simp] theorem body_cons (b : UInt8) (bytes : List UInt8) :
    body (b :: bytes) = escape b ++ body bytes := by
  simp [body]

def text (bytes : List UInt8) : String := "\"" ++ String.ofList (body bytes) ++ "\""

end CodeDump.Quoted
