import MemberAgent.Json.Writer
import MemberAgent.Timestamp.Rfc3339

/-! Reading typed values out of JSON. An error names its cause and the path to the value at fault.
The fields of an object are read in the order of their keys; only when all that are there have been
read is a missing one reported. -/

namespace MemberAgent

inductive ReadFault where
  | missingField (key : String)
  | wrongType (found : Json) (expected : String)
  | wrongValue (found : Json) (expected : String)
  | unknownVariant (found : String) (variants : List String)
  | wrongLength (length : Nat) (expected : String)
  | wrongTime (fault : Timestamp.Fault)
  | notBase64
  deriving DecidableEq

inductive Json.Step where
  | key (key : String)
  | index (index : Nat)
  deriving DecidableEq, Repr

structure ReadError where
  path : List Json.Step
  fault : ReadFault
  deriving DecidableEq

/-- How an error message shows the value it found. -/
def Json.description : Json → String
  | .null => "null"
  | .bool b => s!"boolean `{b}`"
  | .int n => s!"integer `{n}`"
  | .float x => s!"floating point `{x.text}`"
  | .str s => s!"string {Text.quoted s}"
  | .arr _ => "sequence"
  | .obj _ => "map"

/-- What an error message offers instead of a word that is none of `variants`. -/
def expectedOneOf (variants : List String) : String :=
  match variants.map fun v => s!"`{v}`" with
  | [] => "there are no variants"
  | [a] => s!"expected {a}"
  | [a, b] => s!"expected {a} or {b}"
  | names =>
    let all := String.intercalate ", " names
    s!"expected one of {all}"

def ReadFault.message : ReadFault → String
  | missingField key => s!"missing field `{key}`"
  | wrongType found expected => s!"invalid type: {found.description}, expected {expected}"
  | wrongValue found expected => s!"invalid value: {found.description}, expected {expected}"
  | unknownVariant found variants =>
    s!"unknown variant `{found}`, {expectedOneOf variants}"
  | wrongLength length expected => s!"invalid length {length}, expected {expected}"
  | wrongTime fault => fault.message
  | notBase64 => "invalid base64"

def ReadError.message (e : ReadError) : String := e.fault.message

namespace Json

abbrev Reading := Except ReadError

def fault {α : Type} (f : ReadFault) : Reading α := .error ⟨[], f⟩

/-- Reading a part of a value: errors get the step that leads to it. -/
def within {α : Type} (step : Step) : Reading α → Reading α
  | .ok a => .ok a
  | .error e => .error ⟨step :: e.path, e.fault⟩

def asText : Json → Reading String
  | .str s => .ok s
  | j => fault (.wrongType j "a string")

def asBool : Json → Reading Bool
  | .bool b => .ok b
  | j => fault (.wrongType j "a boolean")

/-- A whole number between two bounds, which together are known as `name`. -/
def asInt (name : String) (low high : Int) : Json → Reading Int
  | .int n => if low ≤ n ∧ n ≤ high then .ok n else fault (.wrongValue (.int n) name)
  | j => fault (.wrongType j name)

def asInt64 : Json → Reading Int := asInt "i64" (-0x8000000000000000) 0x7fffffffffffffff

def asNat (name : String) (bits : Nat) (j : Json) : Reading Nat :=
  Int.toNat <$> asInt name 0 (Nat.pow 2 bits - 1 : Nat) j

def asNat32 : Json → Reading Nat := asNat "u32" 32

def asTimestamp : Json → Reading Timestamp
  | .str s => match Timestamp.ofText s with
    | .ok t => .ok t
    | .error e => fault (.wrongTime e)
  | j => fault (.wrongType j "an RFC 3339 formatted date and time string")

def asAny (j : Json) : Reading Json := .ok j

/-- Null reads as absent. -/
def asOption {α : Type} (read : Json → Reading α) : Json → Reading (Option α)
  | .null => .ok none
  | j => some <$> read j

def readItems {α : Type} (read : Json → Reading α) (index : Nat) : List Json → Reading (List α)
  | [] => .ok []
  | j :: rest => do
    let a ← within (.index index) (read j)
    let as ← readItems read (index + 1) rest
    return a :: as

def asList {α : Type} (read : Json → Reading α) : Json → Reading (List α)
  | .arr items => readItems read 0 items
  | j => fault (.wrongType j "a sequence")

def readEntries {α : Type} (read : Json → Reading α) :
    List (String × Json) → Reading (List (String × α))
  | [] => .ok []
  | (k, j) :: rest => do
    let a ← within (.key k) (read j)
    let as ← readEntries read rest
    return (k, a) :: as

def asTable {α : Type} (read : Json → Reading α) : Json → Reading (Table String α)
  | .obj fields => Table.ofList <$> readEntries read fields
  | j => fault (.wrongType j "a map")

/-- The field of a record, if it is there. -/
def field? {α : Type} (fields : List (String × Json)) (key : String) (read : Json → Reading α) :
    Reading (Option α) :=
  match fields.lookup key with
  | none => .ok none
  | some j => within (.key key) (some <$> read j)

/-- A field that may be absent or null. -/
def optional {α : Type} (fields : List (String × Json)) (key : String) (read : Json → Reading α) :
    Reading (Option α) :=
  Option.join <$> field? fields key (asOption read)

def required {α : Type} (key : String) : Option α → Reading α
  | some a => .ok a
  | none => fault (.missingField key)

/-- A record whose only form is an object. -/
def asFields {α : Type} (expected : String) (read : List (String × Json) → Reading α) :
    Json → Reading α
  | .obj fields => read fields
  | j => fault (.wrongType j expected)

/-- The items of an array, read one after the other, and how many have been read. -/
abbrev Sequence := StateT (Nat × List Json) Reading

def next? {α : Type} (read : Json → Reading α) : Sequence (Option α) := do
  match ← get with
  | (_, []) => return none
  | (index, j :: rest) =>
    let a ← within (.index index) (read j)
    set (index + 1, rest)
    return some a

/-- The next item, which the record cannot do without. -/
def next {α : Type} (whole : String) (read : Json → Reading α) : Sequence α := do
  let (index, _) ← get
  match ← next? read with
  | some a => return a
  | none => throw ⟨[], .wrongLength index whole⟩

def runSequence {α : Type} (read : Sequence α) (items : List Json) : Reading α := do
  let (a, _, rest) ← read.run (0, items)
  if rest.isEmpty then return a
  fault (.wrongLength items.length "fewer elements in array")

/-- A record that may also be written as an array of its fields in the order of their
declaration. -/
def asRecord {α : Type} (expected : String) (read : List (String × Json) → Reading α)
    (sequence : Sequence α) : Json → Reading α
  | .obj fields => read fields
  | .arr items => runSequence sequence items
  | j => fault (.wrongType j expected)

end Json

end MemberAgent
