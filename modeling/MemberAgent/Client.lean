import MemberAgent.Failure
import MemberAgent.Mapping
import MemberAgent.Object.ApiObject
import MemberAgent.Program
import MemberAgent.Work.AppliedWork

/-! What the agent asks of the hub, of the member cluster, and of the member cluster's table of
kinds. Every call either fails or gives the value that belongs to it. -/

namespace MemberAgent

/-- What deleting an object did. An object is also gone when its name now belongs to another one. -/
inductive Deletion where
  | deleted (uid : Option String)
  | alreadyGone
  deriving DecidableEq

inductive ClientCall where
  | getWork («namespace» name : String)
  | patchWorkStatus (work : Work) (status : WorkStatus)
  | addFinalizer (work : Work) (finalizer : String)
  | removeFinalizer (work : Work) (finalizer : String)
  | getAppliedWork (name : String)
  | createAppliedWork (applied : AppliedWork)
  | deleteAppliedWork (name : String)
  | updateResources (applied : AppliedWork) (resources : List TrackedResource)
  | getObject (mapping : ResourceMapping) («namespace» name : String)
  | createObject (mapping : ResourceMapping) (object : ApiObject)
  | replaceObject (mapping : ResourceMapping) (object : ApiObject)
  | patchOwners (mapping : ResourceMapping) (live : ApiObject) (owners : List OwnerReference)
  | getTracked (resource : TrackedResource)
  | deleteTracked (resource : TrackedResource)
  | findMapping (kind : Kind)

namespace ClientCall

@[reducible] def Value : ClientCall → Type
  | getWork .. => Option Work
  | patchWorkStatus .. => Unit
  | addFinalizer .. => Unit
  | removeFinalizer .. => Unit
  | getAppliedWork .. => Option AppliedWork
  | createAppliedWork .. => AppliedWork
  | deleteAppliedWork .. => Unit
  | updateResources .. => Unit
  | getObject .. => Option ApiObject
  | createObject .. => ApiObject
  | replaceObject .. => ApiObject
  | patchOwners .. => Unit
  | getTracked .. => Option ApiObject
  | deleteTracked .. => Deletion
  | findMapping .. => Option ResourceMapping

end ClientCall

@[reducible] def clientCalls : Interface := ⟨ClientCall, fun c => Except Failure c.Value⟩

/-- A program over client calls that may end in a failure. -/
abbrev Reconcile := ExceptT Failure (Program clientCalls)

/-- Makes a call; its failure is the program's. -/
def request (c : ClientCall) : Reconcile c.Value :=
  ExceptT.mk (Program.perform (I := clientCalls) c)

/-- Makes a call, and lets the program see its failure. -/
def attempt {α : Type} (r : Reconcile α) : Program clientCalls (Except Failure α) := r.run

end MemberAgent
