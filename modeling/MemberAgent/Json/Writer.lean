import MemberAgent.Json.Basic
import MemberAgent.Double.Decimal
import MemberAgent.Text.Basic

/-! The compact text of a JSON value: no blanks, fields in the order they are held. -/

namespace MemberAgent.Json

/-- Quotes, backslashes and controls are escaped, everything else stands for itself. -/
def escapedChar (c : Char) : List Char :=
  if c = '"' then ['\\', '"']
  else if c = '\\' then ['\\', '\\']
  else if c = '\x08' then ['\\', 'b']
  else if c = '\x0c' then ['\\', 'f']
  else if c = '\n' then ['\\', 'n']
  else if c = '\r' then ['\\', 'r']
  else if c = '\t' then ['\\', 't']
  else if c.toNat < 0x20 then
    ['\\', 'u', '0', '0', Nat.digitChar (c.toNat / 16), Nat.digitChar (c.toNat % 16)]
  else [c]

def stringChars (s : String) : List Char := '"' :: s.toList.flatMap escapedChar ++ ['"']

def intChars (n : Int) : List Char :=
  if n < 0 then '-' :: Nat.toDigits 10 n.natAbs else Nat.toDigits 10 n.natAbs

mutual

def chars : Json → List Char
  | .null => "null".toList
  | .bool true => "true".toList
  | .bool false => "false".toList
  | .int n => intChars n
  | .float x => x.chars
  | .str s => stringChars s
  | .arr [] => ['[', ']']
  | .arr (x :: rest) => '[' :: chars x ++ moreItems rest
  | .obj [] => ['\x7b', '\x7d']
  | .obj ((k, x) :: rest) => '\x7b' :: stringChars k ++ ':' :: chars x ++ moreFields rest

/-- The items after the first one, with the closing bracket. -/
def moreItems : List Json → List Char
  | [] => [']']
  | x :: rest => ',' :: chars x ++ moreItems rest

/-- The fields after the first one, with the closing brace. -/
def moreFields : List (String × Json) → List Char
  | [] => ['\x7d']
  | (k, x) :: rest => ',' :: stringChars k ++ ':' :: chars x ++ moreFields rest

end

def text (j : Json) : String := String.ofList j.chars

end MemberAgent.Json
