import MemberAgent.InMemory.World

/-! Disturbances of client calls: faults make a call fail, before or after it has taken effect, and
races let someone else change an object just before a call on it. -/

namespace MemberAgent

/-- What is asked in a client call, without its arguments. -/
inductive ClientCall.Method where
  | getWork
  | patchWorkStatus
  | addFinalizer
  | removeFinalizer
  | getAppliedWork
  | createAppliedWork
  | deleteAppliedWork
  | updateResources
  | getObject
  | createObject
  | replaceObject
  | patchOwners
  | getTracked
  | deleteTracked
  | findMapping
  deriving DecidableEq, Repr

namespace ClientCall

def method : ClientCall → Method
  | getWork .. => .getWork
  | patchWorkStatus .. => .patchWorkStatus
  | addFinalizer .. => .addFinalizer
  | removeFinalizer .. => .removeFinalizer
  | getAppliedWork .. => .getAppliedWork
  | createAppliedWork .. => .createAppliedWork
  | deleteAppliedWork .. => .deleteAppliedWork
  | updateResources .. => .updateResources
  | getObject .. => .getObject
  | createObject .. => .createObject
  | replaceObject .. => .replaceObject
  | patchOwners .. => .patchOwners
  | getTracked .. => .getTracked
  | deleteTracked .. => .deleteTracked
  | findMapping .. => .findMapping

/-- The name of what is asked for. -/
def target : ClientCall → String
  | getWork _ name => name
  | patchWorkStatus work _ => work.name
  | addFinalizer work _ => work.name
  | removeFinalizer work _ => work.name
  | getAppliedWork name => name
  | createAppliedWork applied => applied.name
  | deleteAppliedWork name => name
  | updateResources applied _ => applied.name
  | getObject _ _ name => name
  | createObject _ object => object.metadata.anyName
  | replaceObject _ object => object.metadata.anyName
  | patchOwners _ live _ => live.metadata.anyName
  | getTracked resource => resource.name
  | deleteTracked resource => resource.name
  | findMapping kind => kind.kind

end ClientCall

namespace Rehearsal

open InMemory

/-- A method, and a name if only calls on that name are meant. -/
structure Pattern where
  method : ClientCall.Method
  target : Option String

def Pattern.admits (p : Pattern) (c : ClientCall) : Bool :=
  p.method = c.method && p.target.all fun name => name = c.target

/-- Lets `skip` calls pass, then makes `times` calls fail. With `after` they take effect first. -/
structure Fault where
  pattern : Pattern
  failure : Failure
  skip : Nat := 0
  times : Nat := 1
  after : Bool := false

/-- What someone else does to an object. -/
inductive Change where
  | vanish
  | touch
  | recreate
  | appear
  deriving DecidableEq, Repr

structure Race where
  pattern : Pattern
  change : Change

/-- The fault that strikes a call, and the faults that are left. Faults are tried in order; one that
still lets calls pass leaves the call to the next one. -/
def strike (c : ClientCall) : List Fault → Option Fault × List Fault
  | [] => (none, [])
  | f :: rest =>
    if !f.pattern.admits c || (f.skip = 0 && f.times = 0) then
      let (struck, rest) := strike c rest
      (struck, f :: rest)
    else if f.skip = 0 then (some f, { f with times := f.times - 1 } :: rest)
    else
      let (struck, rest) := strike c rest
      (struck, { f with skip := f.skip - 1 } :: rest)

/-- The first race that a call sets off, and the races that are left. -/
def setOff (c : ClientCall) : List Race → Option Race × List Race
  | [] => (none, [])
  | r :: rest =>
    if r.pattern.admits c then (some r, rest)
    else
      let (found, rest) := setOff c rest
      (found, r :: rest)

/-- The mapping and the place of the object that a call writes. -/
def written : ClientCall → Option (ResourceMapping × ObjectKey)
  | .createObject mapping object => some (mapping, .ofObject mapping object)
  | .replaceObject mapping object => some (mapping, .ofObject mapping object)
  | .patchOwners mapping live _ => some (mapping, .ofObject mapping live)
  | .deleteTracked resource => some (.ofTracked resource, .ofTracked resource)
  | _ => none

/-- An object that has a name and nothing else. -/
def bareObject (key : ObjectKey) : ApiObject :=
  { metadata :=
      { name := some key.name
        «namespace» := if key.namespace.isEmpty then none else some key.namespace } }

/-- Changing what is not there, or making what is there, does nothing. -/
def Change.apply (change : Change) (mapping : ResourceMapping) (key : ObjectKey) (m : Member) :
    Member :=
  match change, m.object? key with
  | .vanish, _ => m.removeObject key
  | .touch, some object => m.putObject mapping object
  | .recreate, some object => (m.removeObject key).putObject mapping object
  | .appear, none => m.putObject mapping (bareObject key)
  | .touch, none | .recreate, none | .appear, some _ => m

/-- A world whose calls are logged and may be disturbed. -/
structure Stage where
  world : World := {}
  faults : List Fault := []
  races : List Race := []
  calls : List ClientCall := []

namespace Stage

/-- Lets the race that a call sets off take place. -/
def race (s : Stage) (c : ClientCall) : Stage :=
  match written c with
  | none => s
  | some (mapping, key) =>
    let (found, races) := setOff c s.races
    match found with
    | none => s
    | some r =>
      { s with
        world := { s.world with member := r.change.apply mapping key s.world.member }, races }

/-- The reply to a call: first comes a race, then a fault, then the world. -/
def answer (s : Stage) (c : ClientCall) : Except Failure c.Value × Stage :=
  let s := { s with calls := s.calls ++ [c] }.race c
  let (struck, faults) := strike c s.faults
  let s := { s with faults }
  match struck with
  | none =>
    let (reply, world) := s.world.answer c
    (reply, { s with world })
  | some f =>
    (.error f.failure, if f.after then { s with world := (s.world.answer c).2 } else s)

def run {α : Type} (s : Stage) : Program clientCalls α → α × Stage
  | .done a => (a, s)
  | .call c next => let (reply, s) := s.answer c; run s (next reply)

end Stage

end Rehearsal

end MemberAgent
