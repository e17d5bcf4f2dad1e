import MemberAgent.Json.Parser
import MemberAgent.Json.Reading

/-! Reading typed values from text. What goes wrong is reported with the line and the column where
reading stopped: after a value of the wrong kind if it can be read in one go, before it if it opens
an array or an object, and after the object in which a field is missing. -/

namespace MemberAgent

inductive TextFault where
  | malformed (fault : Json.SyntaxFault)
  | misread (fault : ReadFault)
  deriving DecidableEq

structure TextError where
  fault : TextFault
  line : Nat
  column : Nat
  deriving DecidableEq

def TextFault.message : TextFault → String
  | malformed fault => fault.message
  | misread fault => fault.message

def TextError.message (e : TextError) : String :=
  s!"{e.fault.message} at line {e.line} column {e.column}"

namespace Json

/-- The line and the column, counted in bytes, after the first `offset` bytes of a text. -/
def position (line column : Nat) : Nat → List Char → Nat × Nat
  | 0, _ => (line, column)
  | _, [] => (line, column)
  | offset + 1, c :: rest =>
    if c = '\n' then position (line + 1) 0 offset rest
    else position line (column + min c.utf8Size (offset + 1)) (offset + 1 - c.utf8Size) rest
termination_by _ cs => cs.length

/-- The text from the value of `key` on, in the text after an opening brace. -/
def seekKey (key : String) : Nat → List Char → Option (List Char)
  | 0, _ => none
  | fuel + 1, cs => do
    let '"' :: rest := skipBlanks cs | none
    let (found, rest) ← (stringTail rest).toOption
    let ':' :: rest := skipBlanks rest | none
    if String.ofList found = key then return skipBlanks rest
    let (_, rest) ← (value deepest rest).toOption
    let ',' :: rest := skipBlanks rest | none
    seekKey key fuel rest

/-- The text from an item on, in the text after an opening bracket. -/
def seekIndex : Nat → List Char → Option (List Char)
  | 0, cs => some (skipBlanks cs)
  | index + 1, cs => do
    let (_, rest) ← (value deepest cs).toOption
    let ',' :: rest := skipBlanks rest | none
    seekIndex index rest

/-- The text from the value at the end of a path on. -/
def seek (cs : List Char) : List Step → Option (List Char)
  | [] => some (skipBlanks cs)
  | .key key :: path => do
    let '\x7b' :: rest := skipBlanks cs | none
    seek (← seekKey key rest.length rest) path
  | .index index :: path => do
    let '[' :: rest := skipBlanks cs | none
    seek (← seekIndex index rest) path

/-- The text from the place on where reading a value with this fault stops. -/
def stopOf (fault : ReadFault) (start : List Char) : List Char :=
  let after := match value deepest start with
    | .ok (_, rest) => rest
    | .error _ => start
  match fault with
  | .wrongType (.arr items) expected =>
    if expected = "a string" ∨ expected = "a map" ∨ expected = "struct DynamicObject" then start
    else if items.isEmpty then after
    else start.drop 1
  | .wrongType (.obj _) _ => start
  | .wrongValue (.str _) _ =>
    match skipBlanks after with
    | '\x7d' :: rest => rest
    | rest => rest
  | _ => after

def errorAt (cs : List Char) (fault : TextFault) (remaining : Nat) : TextError :=
  let (line, column) := position 1 0 (utf8Length cs - remaining) cs
  { fault, line, column }

def parse (s : String) : Except TextError Json :=
  match ofText s with
  | .ok j => .ok j
  | .error e => .error (errorAt s.toList (.malformed e.fault) e.remaining)

def readText {α : Type} (read : Json → Reading α) (s : String) : Except TextError α := do
  match read (← parse s) with
  | .ok a => .ok a
  | .error e =>
    let rest := ((seek s.toList e.path).map (stopOf e.fault)).getD []
    .error (errorAt s.toList (.misread e.fault) (utf8Length rest))

end Json

end MemberAgent
