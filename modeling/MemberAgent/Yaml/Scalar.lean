import MemberAgent.Json.Parser

/-! Single values in YAML: plain words, which may be read as something other than text, and texts
between quotes. -/

namespace MemberAgent.Yaml

def isBlank (c : Char) : Bool := c = ' ' || c = '\t'

def isBreak (c : Char) : Bool := c = '\n' || c = '\r'

/-- Whether a character opens, closes or separates collections within a line. -/
def isFlowMark (c : Char) : Bool :=
  c = ',' || c = '[' || c = ']' || c = '\x7b' || c = '\x7d'

/-- Whether a character at the start of a value has a meaning of its own. -/
def isIndicator (c : Char) : Bool :=
  isFlowMark c || ['#', '&', '*', '!', '|', '>', '\'', '"', '%', '@', '\x60'].contains c

/-- Whether a dash, a question mark or a colon stands alone before `rest`. -/
def standsAlone (flow : Bool) : List Char → Bool
  | [] => true
  | c :: _ => isBlank c || isBreak c || (flow && isFlowMark c)

/-- Whether a plain word can start here. -/
def startsPlain (flow : Bool) : List Char → Bool
  | [] => false
  | c :: rest =>
    if c = '-' || c = '?' || c = ':' then !standsAlone flow rest
    else !isIndicator c && !isBlank c && !isBreak c

/-- How far a plain word goes: to the end of the line, a comment, or a colon that ends a key. -/
def plainLength (flow : Bool) : List Char → Nat
  | [] => 0
  | c :: rest =>
    if isBreak c || (c = ':' && standsAlone flow rest) || (flow && isFlowMark c)
      || (isBlank c && rest.head? = some '#') then 0
    else plainLength flow rest + 1

/-- What a plain word says: nothing, yes or no, a number, or itself. -/
def plainValue (s : String) : Json :=
  if ["", "~", "null", "Null", "NULL"].contains s then .null
  else if ["true", "True", "TRUE"].contains s then .bool true
  else if ["false", "False", "FALSE"].contains s then .bool false
  else match Json.ofText s with
    | .ok (.int n) => .int n
    | .ok (.float x) => .float x
    | _ => .str s

/-- The text up to a closing single quote; two quotes are one that belongs to it. -/
def singleTail : List Char → Option (List Char × List Char)
  | '\'' :: '\'' :: rest => (singleTail rest).map fun (s, rest) => ('\'' :: s, rest)
  | '\'' :: rest => some ([], rest)
  | c :: rest =>
    if isBreak c then none else (singleTail rest).map fun (s, rest) => (c :: s, rest)
  | [] => none

/-- The character that a short escape stands for. -/
def escape? (c : Char) : Option Char :=
  [('0', '\x00'), ('a', '\x07'), ('b', '\x08'), ('t', '\t'), ('n', '\n'), ('v', '\x0b'),
    ('f', '\x0c'), ('r', '\r'), ('e', '\x1b'), (' ', ' '), ('"', '"'), ('/', '/'), ('\\', '\\'),
    ('N', '\u0085'), ('_', '\u00a0'), ('L', '\u2028'), ('P', '\u2029')].lookup c

/-- A character by its code point. -/
def ofCode? (digits : List Char) : Option Char := do
  let values ← digits.mapM Json.hexValue?
  let code := values.foldl (fun n d => n * 16 + d) 0
  if code.isValidChar then some (Char.ofNat code) else none

/-- The text up to a closing double quote. -/
def doubleTail : List Char → Option (List Char × List Char)
  | '"' :: rest => some ([], rest)
  | '\\' :: 'x' :: a :: b :: rest => do
    let c ← ofCode? [a, b]
    (doubleTail rest).map fun (s, rest) => (c :: s, rest)
  | '\\' :: 'u' :: a :: b :: c :: d :: rest => do
    let e ← ofCode? [a, b, c, d]
    (doubleTail rest).map fun (s, rest) => (e :: s, rest)
  | '\\' :: c :: rest => do
    let e ← escape? c
    (doubleTail rest).map fun (s, rest) => (e :: s, rest)
  | c :: rest =>
    if isBreak c then none else (doubleTail rest).map fun (s, rest) => (c :: s, rest)
  | [] => none

/-- A single value, and what follows it. -/
def scalar (flow : Bool) (cs : List Char) : Option (Json × List Char) :=
  match cs with
  | '"' :: rest => (doubleTail rest).map fun (s, rest) => (.str (String.ofList s), rest)
  | '\'' :: rest => (singleTail rest).map fun (s, rest) => (.str (String.ofList s), rest)
  | cs =>
    if startsPlain flow cs then
      let n := plainLength flow cs
      let word := ((cs.take n).reverse.dropWhile isBlank).reverse
      some (plainValue (String.ofList word), cs.drop n)
    else none

end MemberAgent.Yaml
