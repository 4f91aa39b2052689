import CodeDump.Json.Value

/-!
# Compact JSON text

No blanks, members in order. Strings escape the quote, the backslash and control characters. The
exponent of a number always has a sign.
-/

namespace CodeDump.Json

def escapeChar (c : Char) : List Char :=
  if c = '"' then ['\\', '"']
  else if c = '\\' then ['\\', '\\']
  else if c = '\x08' then ['\\', 'b']
  else if c = '\t' then ['\\', 't']
  else if c = '\n' then ['\\', 'n']
  else if c = '\x0c' then ['\\', 'f']
  else if c = '\r' then ['\\', 'r']
  else if c.toNat < 32 then
    ['\\', 'u', '0', '0', Nat.digitChar (c.toNat / 16), Nat.digitChar (c.toNat % 16)]
  else [c]

def quoted (s : Option String) : List Char :=
  ['"'] ++ (s.getD "").toList.flatMap escapeChar ++ ['"']

mutual

def chars (j : Json) : List Char :=
  match j with
  | .null => ['n', 'u', 'l', 'l']
  | .bool true => ['t', 'r', 'u', 'e']
  | .bool false => ['f', 'a', 'l', 's', 'e']
  | .number n => (n.text signedExponent).toList
  | .string s => quoted s
  | .array items => ['['] ++ itemsChars items ++ [']']
  | .object members => ['\x7b'] ++ membersChars members ++ ['\x7d']
termination_by structural j

def itemsChars (js : List Json) : List Char :=
  match js with
  | [] => []
  | j :: rest => chars j ++ (if rest.isEmpty then [] else [',']) ++ itemsChars rest
termination_by structural js

def memberChars (m : Member) : List Char :=
  match m with
  | ⟨key, value⟩ => quoted key ++ [':'] ++ chars value
termination_by structural m

def membersChars (ms : List Member) : List Char :=
  match ms with
  | [] => []
  | m :: rest => memberChars m ++ (if rest.isEmpty then [] else [',']) ++ membersChars rest
termination_by structural ms

end

def render (j : Json) : String := String.ofList j.chars

end CodeDump.Json
