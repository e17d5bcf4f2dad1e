import MemberAgent.Json.Writer

/-! What the agent reports while it runs: events of a level, from a place that is their target, and
how they are written as lines. -/

namespace MemberAgent.Logging

inductive Level where
  | error
  | warn
  | info
  | debug
  | trace
  deriving DecidableEq, Repr

namespace Level

/-- How much a reader sees who sees this level: everything before it too. -/
def verbosity : Level → Nat
  | error => 1
  | warn => 2
  | info => 3
  | debug => 4
  | trace => 5

def name : Level → String
  | error => "ERROR"
  | warn => "WARN"
  | info => "INFO"
  | debug => "DEBUG"
  | trace => "TRACE"

end Level

structure Event where
  level : Level
  target : String
  message : String
  fields : List (String × String) := []
  deriving DecidableEq, Repr

inductive Format where
  | json
  | text
  deriving DecidableEq, Repr

def Format.name : Format → String
  | json => "json"
  | text => "text"

/-- Reads the name of a format in any case. -/
def Format.ofName? (name : String) : Option Format :=
  if name.toLower = "json" then some .json
  else if name.toLower = "text" then some .text
  else none

/-- What is said about a name that is none. -/
def Format.unknown (name : String) : String :=
  s!"unknown log format '{name.toLower}' (expected 'json' or 'text')"

namespace Event

def json (e : Event) : Json :=
  Json.record [
    ("fields", some <| Json.ofFields <|
      ("message", .str e.message) :: e.fields.map fun f => (f.1, .str f.2)),
    ("level", some (.str e.level.name)),
    ("target", some (.str e.target))]

def text (e : Event) : String :=
  let fields := e.fields.map fun f => s!" {f.1}={f.2}"
  s!"{e.level.name} {e.target}: {e.message}" ++ String.join fields

def line (format : Format) (e : Event) : String :=
  match format with
  | .json => e.json.text
  | .text => e.text

end Event

end MemberAgent.Logging
