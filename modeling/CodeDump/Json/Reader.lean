import CodeDump.Json.Value

/-!
# Reading JSON text

The grammar is strict: no comments, no trailing commas, no leading zeros, no raw control
characters in strings, and only blanks after the value. Each scanner returns what it read and
the rest of the text. Values nest, so their scanner is given a bound that the length of the
text provides.
-/

namespace CodeDump.Json.Reader

def isBlank (c : Char) : Bool := c == ' ' || c == '\t' || c == '\n' || c == '\r'

def skipBlank (cs : List Char) : List Char := cs.dropWhile isBlank

/-- A character of a string, or a code unit of a surrogate pair. -/
inductive Mark
  | char (c : Char)
  | unit (u : Nat)
  deriving DecidableEq, Repr

def isHigh (u : Nat) : Bool := 0xD800 ≤ u && u < 0xDC00

def isLow (u : Nat) : Bool := 0xDC00 ≤ u && u < 0xE000

def markOfUnit (u : Nat) : Mark := if isHigh u || isLow u then .unit u else .char (Char.ofNat u)

/-- What the letter behind a backslash stands for. -/
def simpleEscape? (c : Char) : Option Char :=
  if c = '"' then some '"'
  else if c = '\\' then some '\\'
  else if c = '/' then some '/'
  else if c = 'b' then some '\x08'
  else if c = 'f' then some '\x0c'
  else if c = 'n' then some '\n'
  else if c = 'r' then some '\r'
  else if c = 't' then some '\t'
  else none

/-- The marks up to the closing quote. -/
def marks (cs : List Char) : Option (List Mark × List Char) :=
  match cs with
  | [] => none
  | '"' :: rest => some ([], rest)
  | '\\' :: 'u' :: a :: b :: c :: d :: rest =>
      match Radix.value? 16 [a, b, c, d], marks rest with
      | some u, some (ms, rest) => some (markOfUnit u :: ms, rest)
      | _, _ => none
  | '\\' :: e :: rest =>
      match simpleEscape? e, marks rest with
      | some c, some (ms, rest) => some (.char c :: ms, rest)
      | _, _ => none
  | c :: rest =>
      if c.toNat < 32 ∨ c = '\\' then none
      else (marks rest).map fun r => (.char c :: r.1, r.2)
termination_by structural cs

/-- The characters of a string whose surrogates come in pairs, high before low. -/
def joinMarks (ms : List Mark) : Option (List Char) :=
  match ms with
  | [] => some []
  | .char c :: rest => (joinMarks rest).map (c :: ·)
  | .unit u :: .unit v :: rest =>
      if isHigh u && isLow v then
        (joinMarks rest).map (Char.ofNat (0x10000 + (u - 0xD800) * 0x400 + (v - 0xDC00)) :: ·)
      else none
  | .unit _ :: _ => none
termination_by structural ms

/-- A string behind its opening quote. -/
def stringBody (cs : List Char) : Option (Option String × List Char) :=
  (marks cs).map fun r => ((joinMarks r.1).map String.ofList, r.2)

def isDigit (c : Char) : Bool := '0' ≤ c && c ≤ '9'

def digitsOf (cs : List Char) : List Nat := cs.map fun c => c.toNat - '0'.toNat

/-- At least one digit. -/
def digits (cs : List Char) : Option (List Nat × List Char) :=
  match cs.takeWhile isDigit with
  | [] => none
  | ds => some (digitsOf ds, cs.dropWhile isDigit)

/-- Digits without a leading zero. -/
def whole (cs : List Char) : Option (List Nat × List Char) :=
  match digits cs with
  | some (0 :: _ :: _, _) => none
  | r => r

def fraction (cs : List Char) : Option (List Nat × List Char) :=
  match cs with
  | '.' :: rest => digits rest
  | _ => some ([], cs)

def exponentDigits (negative : Bool) (cs : List Char) : Option (Option Int × List Char) :=
  (digits cs).map fun r =>
    let e : Int := Radix.ofDigits 10 r.1
    (some (if negative then -e else e), r.2)

def exponent (cs : List Char) : Option (Option Int × List Char) :=
  match cs with
  | c :: rest =>
      if c = 'e' ∨ c = 'E' then
        match rest with
        | '-' :: ds => exponentDigits true ds
        | '+' :: ds => exponentDigits false ds
        | ds => exponentDigits false ds
      else some (none, cs)
  | [] => some (none, [])

def unsigned (negative : Bool) (cs : List Char) : Option (Numeral × List Char) := do
  let (w, cs) ← whole cs
  let (f, cs) ← fraction cs
  let (e, cs) ← exponent cs
  return (⟨negative, w, f, e⟩, cs)

def numeral (cs : List Char) : Option (Numeral × List Char) :=
  match cs with
  | '-' :: rest => unsigned true rest
  | _ => unsigned false cs

mutual

def value (fuel : Nat) (cs : List Char) : Option (Json × List Char) :=
  match fuel with
  | 0 => none
  | fuel + 1 =>
      match skipBlank cs with
      | 'n' :: 'u' :: 'l' :: 'l' :: rest => some (.null, rest)
      | 't' :: 'r' :: 'u' :: 'e' :: rest => some (.bool true, rest)
      | 'f' :: 'a' :: 'l' :: 's' :: 'e' :: rest => some (.bool false, rest)
      | '"' :: rest => (stringBody rest).map fun r => (.string r.1, r.2)
      | '[' :: rest =>
          match skipBlank rest with
          | ']' :: rest => some (.array [], rest)
          | _ => (items fuel rest).map fun r => (.array r.1, r.2)
      | '\x7b' :: rest =>
          match skipBlank rest with
          | '\x7d' :: rest => some (.object [], rest)
          | _ => (members fuel rest).map fun r => (.object r.1, r.2)
      | cs => (numeral cs).map fun r => (.number r.1, r.2)
termination_by structural fuel

/-- Values up to the closing bracket. -/
def items (fuel : Nat) (cs : List Char) : Option (List Json × List Char) :=
  match fuel with
  | 0 => none
  | fuel + 1 =>
      match value fuel cs with
      | none => none
      | some (j, rest) =>
          match skipBlank rest with
          | ']' :: rest => some ([j], rest)
          | ',' :: rest => (items fuel rest).map fun r => (j :: r.1, r.2)
          | _ => none
termination_by structural fuel

def member (fuel : Nat) (cs : List Char) : Option (Member × List Char) :=
  match fuel with
  | 0 => none
  | fuel + 1 =>
      match skipBlank cs with
      | '"' :: rest =>
          match stringBody rest with
          | none => none
          | some (key, rest) =>
              match skipBlank rest with
              | ':' :: rest => (value fuel rest).map fun r => (⟨key, r.1⟩, r.2)
              | _ => none
      | _ => none
termination_by structural fuel

/-- Members up to the closing brace. -/
def members (fuel : Nat) (cs : List Char) : Option (List Member × List Char) :=
  match fuel with
  | 0 => none
  | fuel + 1 =>
      match member fuel cs with
      | none => none
      | some (m, rest) =>
          match skipBlank rest with
          | '\x7d' :: rest => some ([m], rest)
          | ',' :: rest => (members fuel rest).map fun r => (m :: r.1, r.2)
          | _ => none
termination_by structural fuel

end

/-- A value takes at most three scanner calls per character. -/
def enough (cs : List Char) : Nat := 3 * cs.length + 3

end CodeDump.Json.Reader

namespace CodeDump.Json

/-- The value of a whole text. -/
def parse? (s : String) : Option Json :=
  match Reader.value (Reader.enough s.toList) s.toList with
  | some (j, rest) => if (Reader.skipBlank rest).isEmpty then some j else none
  | none => none

end CodeDump.Json
