import MemberAgent.Logging.Event
import MemberAgent.Text.Basic

/-! Which events are written. A filter is a list of directives such as `info` or `agent=debug`, of
which the one with the longest target that an event's target starts with decides. -/

namespace MemberAgent.Logging

/-- How much is written of the events that a directive is about: those up to a verbosity, or none. A
directive that is about events within a span does not concern others. -/
structure Directive where
  target : Option String
  verbosity : Nat
  withinSpan : Bool := false
  deriving DecidableEq, Repr

/-- A level by its number or by its name in any case. -/
def verbosity? (s : String) : Option Nat :=
  match Text.natural64? s with
  | some n => if n ≤ 5 then some n else none
  | none =>
    [("off", 0), ("error", 1), ("warn", 2), ("info", 3), ("debug", 4), ("trace", 5)].lookup
      s.toLower

namespace Directive

def isTargetChar (c : Char) : Bool :=
  c.isAlphanum || c = '_' || c = ':' || c = '-' || 0x80 ≤ c.toNat

/-- The level after the equals sign; without one everything is written. -/
def levelOf? : List Char → Option Nat
  | [] => some 5
  | '=' :: [] => some 5
  | '=' :: level => verbosity? (String.ofList level)
  | _ => none

/-- A level, or a target with an optional span and an optional level. -/
def parse? (s : String) : Option Directive :=
  match verbosity? s with
  | some verbosity => some { target := none, verbosity }
  | none =>
    let target := s.toList.takeWhile isTargetChar
    let rest := s.toList.drop target.length
    let name := if target.isEmpty then none else some (String.ofList target)
    match rest with
    | '[' :: rest =>
      match rest.dropWhile (· != ']') with
      | ']' :: rest =>
        (levelOf? rest).map fun verbosity => { target := name, verbosity, withinSpan := true }
      | _ => none
    | rest =>
      if target.isEmpty then none
      else (levelOf? rest).map fun verbosity => { target := name, verbosity }

/-- Whether a directive is about the events of a target. -/
def concerns (d : Directive) (target : String) : Bool :=
  !d.withinSpan && (d.target.getD "").toList.isPrefixOf target.toList

/-- How closely a directive is aimed. -/
def precision (d : Directive) : Nat := (d.target.map fun t => t.length + 1).getD 0

end Directive

structure Filter where
  directives : List Directive
  deriving DecidableEq, Repr

namespace Filter

/-- Reads directives between commas. A text without any lets errors through. -/
def parse? (s : String) : Option Filter := do
  let directives ← ((s.splitOn ",").filter fun d => !d.isEmpty).mapM Directive.parse?
  return ⟨if directives.isEmpty then [{ target := none, verbosity := Level.error.verbosity }]
    else directives⟩

/-- The directive that decides about a target: the most precise one, of equals the last. -/
def decisive (f : Filter) (target : String) : Option Directive :=
  (f.directives.filter fun d => d.concerns target).foldl
    (fun best d => match best with
      | some b => if b.precision ≤ d.precision then some d else some b
      | none => some d)
    none

def accepts (f : Filter) (e : Event) : Bool :=
  (f.decisive e.target).any fun d => e.level.verbosity ≤ d.verbosity

/-- The filter of an agent that is not told what to write. -/
def default : Filter := ⟨[
  { target := none, verbosity := 3 },
  { target := some "fleetwork", verbosity := 4 },
  { target := some "kube", verbosity := 3 },
  { target := some "tower", verbosity := 2 },
  { target := some "hyper", verbosity := 2 }]⟩

/-- The filter that a text asks for; one that cannot be read asks for nothing. -/
def ofSetting (setting : Option String) : Filter := (setting.bind parse?).getD default

end Filter

end MemberAgent.Logging
