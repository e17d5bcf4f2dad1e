import MemberAgent.Controller.Basic
import MemberAgent.Controller.Server
import MemberAgent.Controller.Slot

/-! A controller on a clock that is moved second by second. At each second the watch tells what has
happened, and then every object that is due has its turn. -/

namespace MemberAgent.Controller

open Http

/-- What a watch tells. A bookmark says how far the watch has got, and nothing else. -/
inductive Notice (α : Type) where
  | changed (object : α)
  | deleted (object : α)
  | bookmark (version : Option String)
  | closed

/-- A run that waits for an answer, and when it has to be done. -/
structure Run where
  deadline : Nat
  rest : Rest

structure Timeline (α : Type) where
  controller : Controller α
  filter : EventFilter α := { predicate := controller.predicate }
  version : String := "100"
  notices : List (Nat × Notice α) := []
  slots : Table ObjectName (Slot Run) := ∅
  server : Server := {}
  watches : List (Nat × Request) := []

namespace Timeline

variable {α : Type} [HasMetadata α]

/-- The notices of one watch after another. A watch begins when the one before it has ended, so none
begins after a watch that does not end. -/
def inTurn : List (List (Nat × Notice α)) → List (Nat × Notice α)
  | [] => []
  | watch :: rest =>
    let isOpen : Nat × Notice α → Bool := fun n => match n.2 with
      | .closed => false
      | _ => true
    match watch.dropWhile isOpen with
    | [] => watch
    | last :: _ => watch.takeWhile isOpen ++ last :: inTurn rest

/-- Notes that a request was sent to list or to watch. -/
def sent (t : Timeline α) (now : Nat) (request : Prepared) : Timeline α :=
  { t with watches := t.watches ++ request.toOption.toList.map fun r => (now, r) }

/-- Watches from the version that was seen last. -/
def beginWatch (t : Timeline α) (now : Nat) : Timeline α :=
  t.sent now (t.controller.endpoint.watch t.version)

/-- An object is reconciled as soon as possible. -/
def trigger (t : Timeline α) (now : Nat) (a : α) : Timeline α :=
  let name := ObjectName.ofObject a
  { t with slots := t.slots.insert name (Slot.trigger now (t.slots.get? name)) }

/-- What an event of the watched objects leads to. -/
def observe (t : Timeline α) (now : Nat) (event : WatchEvent α) : Timeline α :=
  let (triggered, filter) := t.filter.step event
  let t := { t with filter }
  match triggered with
  | some (.ok a) => t.trigger now a
  | _ => t

/-- An object or a bookmark has told its version. -/
def reached (t : Timeline α) (version : Option String) : Timeline α :=
  { t with version := version.getD t.version }

def hear (t : Timeline α) (now : Nat) : Notice α → Timeline α
  | .changed a => (t.observe now (.apply a)).reached (metadata a).resourceVersion
  | .deleted a => (t.observe now (.delete a)).reached (metadata a).resourceVersion
  | .bookmark version => t.reached version
  | .closed => t.beginWatch now

/-- Hears every notice that is there, up to the first that is not. -/
def hearAll (now : Nat) : List (Nat × Notice α) → Timeline α → Timeline α
  | [], t => { t with notices := [] }
  | (due, notice) :: rest, t =>
    if due ≤ now then hearAll now rest (t.hear now notice)
    else { t with notices := (due, notice) :: rest }

/-- How far a run of an object gets, which may have changed since it began. -/
def goOn (t : Timeline α) (now : Nat) (name : ObjectName) (again : Bool) (run : Run) : Timeline α :=
  let (progress, server) := proceed now run.deadline t.controller.timedOut run.rest t.server
  let slot := match progress with
    | .waiting due rest => some (Slot.running due again { run with rest })
    | .ended outcome =>
      if again then some (.scheduled now) else Slot.afterRun now (t.controller.afterwards outcome)
  { t with
    server
    slots := match slot with
      | none => t.slots.erase name
      | some slot => t.slots.insert name slot }

/-- Begins a run with the object as it was last seen. One that is gone is not reconciled. -/
def start (t : Timeline α) (now : Nat) (name : ObjectName) : Timeline α :=
  match t.filter.seen.get? name with
  | none => { t with slots := t.slots.erase name }
  | some a =>
    t.goOn now name false
      { deadline := now + t.controller.timeoutSeconds, rest := onWire (t.controller.reconcile a) }

/-- Does what is due for an object. -/
def turn (t : Timeline α) (now : Nat) (name : ObjectName) : Timeline α :=
  match t.slots.get? name with
  | none => t
  | some slot =>
    if now < slot.due then t
    else match slot with
      | .scheduled _ => t.start now name
      | .running _ again run => t.goOn now name again run

/-- Moves the clock to a second. An object has a second turn for the run that follows an ended
one. -/
def tick (t : Timeline α) (now : Nat) : Timeline α :=
  let t := hearAll now t.notices t
  let t := t.slots.keys.foldl (fun t name => t.turn now name) t
  t.slots.keys.foldl (fun t name => t.turn now name) t

/-- Lists the objects, and watches from there. -/
def begin (t : Timeline α) (objects : List α) : Timeline α :=
  let t := t.sent 0 t.controller.endpoint.list
  let events := .init :: objects.map .initApply ++ [.initDone]
  (events.foldl (fun t event => t.observe 0 event) t).beginWatch 0

/-- The controller from second 0 up to a second, which is included. -/
def run (t : Timeline α) (objects : List α) (seconds : Nat) : Timeline α :=
  (List.range (seconds + 1)).foldl tick (t.begin objects)

end Timeline

end MemberAgent.Controller
