import MemberAgent.Json.Basic
import MemberAgent.Double.Decimal

/-! Reading JSON text. Blanks are the four of the grammar, a control character inside a string is
refused, surrogates come in pairs, and arrays and objects nest at most 127 deep. Each failure names
the place where reading stopped. -/

namespace MemberAgent.Json

inductive SyntaxFault where
  | endOfArray
  | endOfObject
  | endOfString
  | endOfValue
  | expectedColon
  | expectedCommaOrBracket
  | expectedCommaOrBrace
  | expectedWord
  | expectedValue
  | invalidEscape
  | invalidNumber
  | numberOutOfRange
  | controlCharacter
  | keyNotString
  | loneSurrogate
  | trailingComma
  | trailingCharacters
  | endOfEscape
  | nesting
  deriving DecidableEq, Repr

def SyntaxFault.message : SyntaxFault → String
  | endOfArray => "EOF while parsing a list"
  | endOfObject => "EOF while parsing an object"
  | endOfString => "EOF while parsing a string"
  | endOfValue => "EOF while parsing a value"
  | expectedColon => "expected `:`"
  | expectedCommaOrBracket => "expected `,` or `]`"
  | expectedCommaOrBrace => "expected `,` or `\x7d`"
  | expectedWord => "expected ident"
  | expectedValue => "expected value"
  | invalidEscape => "invalid escape"
  | invalidNumber => "invalid number"
  | numberOutOfRange => "number out of range"
  | controlCharacter =>
    "control character (\\u0000-\\u001F) found while parsing a string"
  | keyNotString => "key must be a string"
  | loneSurrogate => "lone leading surrogate in hex escape"
  | trailingComma => "trailing comma"
  | trailingCharacters => "trailing characters"
  | endOfEscape => "unexpected end of hex escape"
  | nesting => "recursion limit exceeded"

/-- How many bytes of the text lie behind the place of the fault. -/
structure SyntaxError where
  fault : SyntaxFault
  remaining : Nat
  deriving DecidableEq, Repr

/-- What was read, and the text after it. -/
abbrev Parsed (α : Type) := α × List Char

def utf8Length (cs : List Char) : Nat := cs.foldr (fun c n => c.utf8Size + n) 0

/-- The fault lies before `rest`. -/
def stopAt {α : Type} (fault : SyntaxFault) (rest : List Char) : Except SyntaxError α :=
  .error ⟨fault, utf8Length rest⟩

/-- The fault is the first byte of `rest`. -/
def stopPast {α : Type} (fault : SyntaxFault) (rest : List Char) : Except SyntaxError α :=
  .error ⟨fault, utf8Length rest - 1⟩

def isBlank (c : Char) : Bool := c = ' ' || c = '\n' || c = '\t' || c = '\r'

def skipBlanks (cs : List Char) : List Char := cs.dropWhile isBlank

/-- The rest of `null`, `true` or `false`, whose first letter has been read. -/
def word {α : Type} (value : α) : List Char → List Char → Except SyntaxError (Parsed α)
  | [], rest => .ok (value, rest)
  | _ :: _, [] => stopAt .endOfValue []
  | w :: ws, c :: rest => if w = c then word value ws rest else stopAt .expectedWord rest

def hexValue? (c : Char) : Option Nat :=
  if '0' ≤ c ∧ c ≤ '9' then some (c.toNat - '0'.toNat)
  else if 'a' ≤ c ∧ c ≤ 'f' then some (c.toNat - 'a'.toNat + 10)
  else if 'A' ≤ c ∧ c ≤ 'F' then some (c.toNat - 'A'.toNat + 10)
  else none

def hexValue4? (a b c d : Char) : Option Nat := do
  return (((← hexValue? a) * 16 + (← hexValue? b)) * 16 + (← hexValue? c)) * 16 + (← hexValue? d)

def isHighSurrogate (n : Nat) : Bool := 0xD800 ≤ n && n < 0xDC00
def isLowSurrogate (n : Nat) : Bool := 0xDC00 ≤ n && n < 0xE000

/-- The character that a one-letter escape stands for. -/
def escape? : Char → Option Char
  | '"' => some '"'
  | '\\' => some '\\'
  | '/' => some '/'
  | 'b' => some '\x08'
  | 'f' => some '\x0c'
  | 'n' => some '\n'
  | 'r' => some '\r'
  | 't' => some '\t'
  | _ => none

/-- The characters of a string up to its closing quote. -/
def stringTail : List Char → Except SyntaxError (Parsed (List Char))
  | [] => stopAt .endOfString []
  | '"' :: rest => .ok ([], rest)
  | '\\' :: 'u' :: a :: b :: c :: d :: '\\' :: 'u' :: a' :: b' :: c' :: d' :: rest =>
    match hexValue4? a b c d with
    | none => stopAt .invalidEscape ('\\' :: 'u' :: a' :: b' :: c' :: d' :: rest)
    | some high =>
      if isLowSurrogate high then
        stopAt .loneSurrogate ('\\' :: 'u' :: a' :: b' :: c' :: d' :: rest)
      else if isHighSurrogate high then
        match hexValue4? a' b' c' d' with
        | none => stopAt .invalidEscape rest
        | some low =>
          if isLowSurrogate low then
            (stringTail rest).map fun (cs, rest) =>
              (Char.ofNat (0x10000 + (high - 0xD800) * 0x400 + (low - 0xDC00)) :: cs, rest)
          else stopAt .loneSurrogate rest
      else
        (stringTail ('\\' :: 'u' :: a' :: b' :: c' :: d' :: rest)).map fun (cs, rest) =>
          (Char.ofNat high :: cs, rest)
  | '\\' :: 'u' :: a :: b :: c :: d :: rest =>
    match hexValue4? a b c d with
    | none => stopAt .invalidEscape rest
    | some code =>
      if isLowSurrogate code then stopAt .loneSurrogate rest
      else if isHighSurrogate code then
        match rest with
        | '\\' :: 'u' :: _ => stopAt .endOfString []
        | '\\' :: rest => stopPast .endOfEscape rest
        | rest => stopPast .endOfEscape rest
      else (stringTail rest).map fun (cs, rest) => (Char.ofNat code :: cs, rest)
  | '\\' :: 'u' :: _ => stopAt .endOfString []
  | ['\\'] => stopAt .endOfString []
  | '\\' :: c :: rest => match escape? c with
    | some e => (stringTail rest).map fun (cs, rest) => (e :: cs, rest)
    | none => stopAt .invalidEscape rest
  | c :: rest =>
    if c.toNat < 0x20 then stopAt .controlCharacter rest
    else (stringTail rest).map fun (cs, rest) => (c :: cs, rest)

/-- The largest whole number, and the largest significand of a fraction. -/
def largestSignificand : Nat := 0xffffffffffffffff

def digitValue (c : Char) : Nat := c.toNat - '0'.toNat

/-- Extends a significand digit by digit as long as it fits; answers with how many digits it
took. -/
def extend (significand : Nat) : List Char → Nat × Nat
  | [] => (significand, 0)
  | d :: rest =>
    let next := significand * 10 + digitValue d
    if next ≤ largestSignificand then
      let (final, taken) := extend next rest
      (final, taken + 1)
    else (significand, 0)

/-- A number with a fraction or an exponent, or one that is too long for a whole number: the digits
that fit, scaled by what the others and the exponent say. -/
def fractional (negative : Bool) (whole fraction : List Char) (exponent : Int) : Option Double :=
  let (significand, taken) := extend 0 whole
  let (significand, takenAfter) := extend significand fraction
  Double.ofDecimal negative significand
    (exponent + (whole.length - taken : Nat) - (takenAfter : Nat))

/-- The digits of an exponent are worth at most this much; the number is then zero or too large. -/
def exponentBound : Nat := 0x80000000

/-- The sign and the digits of an exponent after its letter. -/
def exponentTail (cs : List Char) : Except SyntaxError (Parsed Int) :=
  let (negative, cs) := match cs with
    | '+' :: rest => (false, rest)
    | '-' :: rest => (true, rest)
    | rest => (false, rest)
  let digits := cs.takeWhile Char.isDigit
  let rest := cs.dropWhile Char.isDigit
  if digits.isEmpty then
    match cs with
    | [] => stopAt .endOfValue []
    | _ :: rest => stopAt .invalidNumber rest
  else
    let size := min (digits.foldl (fun n d => min (n * 10 + digitValue d) exponentBound) 0)
      exponentBound
    .ok (if negative then -(size : Int) else size, rest)

/-- A whole number stays exact from `-2 ^ 63` up to `2 ^ 64 - 1`; minus zero is not a whole
number. -/
def wholeNumber (negative : Bool) (digits : List Char) : Option Json :=
  let n := digits.foldl (fun n d => n * 10 + digitValue d) 0
  if negative then
    if 0 < n ∧ n ≤ 0x8000000000000000 then some (.int (-n))
    else (fractional true digits [] 0).map .float
  else if n ≤ largestSignificand then some (.int n)
  else (fractional false digits [] 0).map .float

/-- What follows the whole digits: an exponent and its letter, if there is one. -/
def exponentPart (cs : List Char) : Except SyntaxError (Parsed (Option Int)) :=
  match cs with
  | c :: rest =>
    if c = 'e' ∨ c = 'E' then (exponentTail rest).map fun (e, rest) => (some e, rest)
    else .ok (none, cs)
  | [] => .ok (none, [])

def inRange {α : Type} (value : Option α) (rest : List Char) : Except SyntaxError (Parsed α) :=
  match value with
  | some v => .ok (v, rest)
  | none => stopAt .numberOutOfRange rest

/-- A number after its sign. -/
def number (negative : Bool) (cs : List Char) : Except SyntaxError (Parsed Json) :=
  let digits := cs.takeWhile Char.isDigit
  let rest := cs.dropWhile Char.isDigit
  match digits with
  | [] => match cs with
    | [] => stopAt .endOfValue []
    | _ :: rest => stopAt .invalidNumber rest
  | '0' :: _ :: _ => stopPast .invalidNumber (cs.drop 1)
  | digits => match rest with
    | '.' :: rest =>
      let fraction := rest.takeWhile Char.isDigit
      let rest := rest.dropWhile Char.isDigit
      if fraction.isEmpty then
        match rest with
        | [] => stopAt .endOfValue []
        | rest => stopPast .invalidNumber rest
      else do
        let (exponent, rest) ← exponentPart rest
        inRange ((fractional negative digits fraction (exponent.getD 0)).map .float) rest
    | rest => do
      match ← exponentPart rest with
      | (some exponent, rest) =>
        inRange ((fractional negative digits [] exponent).map .float) rest
      | (none, rest) => inRange (wholeNumber negative digits) rest

/-- The items after the first one, up to the closing bracket. -/
def itemsTail (item : List Char → Except SyntaxError (Parsed Json)) :
    Nat → List Char → Except SyntaxError (Parsed (List Json))
  | 0, cs => stopAt .endOfArray cs
  | fuel + 1, cs => match skipBlanks cs with
    | [] => stopAt .endOfArray []
    | ']' :: rest => .ok ([], rest)
    | ',' :: rest => match skipBlanks rest with
      | ']' :: rest => stopPast .trailingComma (']' :: rest)
      | rest => do
        let (x, rest) ← item rest
        let (xs, rest) ← itemsTail item fuel rest
        .ok (x :: xs, rest)
    | rest => stopPast .expectedCommaOrBracket rest

def items (item : List Char → Except SyntaxError (Parsed Json)) (cs : List Char) :
    Except SyntaxError (Parsed (List Json)) :=
  match skipBlanks cs with
  | [] => stopAt .endOfArray []
  | ']' :: rest => .ok ([], rest)
  | rest => do
    let (x, rest) ← item rest
    let (xs, rest) ← itemsTail item rest.length rest
    .ok (x :: xs, rest)

/-- A key, its colon and its value. -/
def field (item : List Char → Except SyntaxError (Parsed Json)) (cs : List Char) :
    Except SyntaxError (Parsed (String × Json)) :=
  match cs with
  | '"' :: rest => do
    let (key, rest) ← stringTail rest
    match skipBlanks rest with
    | ':' :: rest => do
      let (value, rest) ← item rest
      .ok ((String.ofList key, value), rest)
    | [] => stopAt .endOfObject []
    | rest => stopPast .expectedColon rest
  | [] => stopAt .endOfValue []
  | rest => stopPast .keyNotString rest

def fieldsTail (item : List Char → Except SyntaxError (Parsed Json)) :
    Nat → List Char → Except SyntaxError (Parsed (List (String × Json)))
  | 0, cs => stopAt .endOfObject cs
  | fuel + 1, cs => match skipBlanks cs with
    | [] => stopAt .endOfObject []
    | '\x7d' :: rest => .ok ([], rest)
    | ',' :: rest => match skipBlanks rest with
      | '\x7d' :: rest => stopPast .trailingComma ('\x7d' :: rest)
      | rest => do
        let (x, rest) ← field item rest
        let (xs, rest) ← fieldsTail item fuel rest
        .ok (x :: xs, rest)
    | rest => stopPast .expectedCommaOrBrace rest

def objectFields (item : List Char → Except SyntaxError (Parsed Json)) (cs : List Char) :
    Except SyntaxError (Parsed (List (String × Json))) :=
  match skipBlanks cs with
  | [] => stopAt .endOfObject []
  | '\x7d' :: rest => .ok ([], rest)
  | rest => do
    let (x, rest) ← field item rest
    let (xs, rest) ← fieldsTail item rest.length rest
    .ok (x :: xs, rest)

/-- One value after blanks, in which arrays and objects nest at most `depth` deep. -/
def value (depth : Nat) (cs : List Char) : Except SyntaxError (Parsed Json) :=
  match skipBlanks cs with
  | [] => stopAt .endOfValue []
  | 'n' :: rest => word .null "ull".toList rest
  | 't' :: rest => word (.bool true) "rue".toList rest
  | 'f' :: rest => word (.bool false) "alse".toList rest
  | '"' :: rest => (stringTail rest).map fun (s, rest) => (.str (String.ofList s), rest)
  | '-' :: rest => number true rest
  | '[' :: rest => match depth with
    | 0 => stopPast .nesting ('[' :: rest)
    | depth + 1 => (items (value depth) rest).map fun (xs, rest) => (.arr xs, rest)
  | '\x7b' :: rest => match depth with
    | 0 => stopPast .nesting ('\x7b' :: rest)
    | depth + 1 => (objectFields (value depth) rest).map fun (xs, rest) => (ofFields xs, rest)
  | c :: rest => if c.isDigit then number false (c :: rest) else stopPast .expectedValue (c :: rest)

def deepest : Nat := 127

def ofChars (cs : List Char) : Except SyntaxError Json := do
  let (j, rest) ← value deepest cs
  match skipBlanks rest with
  | [] => .ok j
  | rest => stopPast .trailingCharacters rest

def ofText (s : String) : Except SyntaxError Json := ofChars s.toList

end MemberAgent.Json
