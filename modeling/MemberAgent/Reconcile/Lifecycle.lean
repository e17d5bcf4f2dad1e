import MemberAgent.Client

/-! The life of a Work. Its record is created before the cleanup finalizer is attached, and the
finalizer is removed only after the record has been deleted. -/

namespace MemberAgent

namespace Lifecycle

inductive State where
  | unmanaged
  | tracked
  | terminating
  | gone
  deriving DecidableEq, Repr

def State.ofWork (w : Work) : State :=
  match w.hasFinalizer, w.isDeleting with
  | false, false => .unmanaged
  | true, false => .tracked
  | true, true => .terminating
  | false, true => .gone

/-- Creates the record, which may be there already, then attaches the finalizer. -/
def startTracking (w : Work) : Reconcile Unit := do
  match ← ExceptT.lift (attempt (request (.createAppliedWork (.forWork w)))) with
  | .ok _ => pure ()
  | .error failure => if !failure.isAlreadyExists then throw failure
  request (.addFinalizer w cleanupFinalizer)

/-- Deletes the record, then removes the finalizer. -/
def finishTracking (w : Work) : Reconcile Unit := do
  request (.deleteAppliedWork w.name)
  request (.removeFinalizer w cleanupFinalizer)

def reconcile (w : Work) : Reconcile Action := do
  match State.ofWork w with
  | .unmanaged => startTracking w
  | .terminating => finishTracking w
  | .tracked | .gone => pure ()
  return .awaitChange

end Lifecycle

end MemberAgent
