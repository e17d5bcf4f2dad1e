import MemberAgent.Client

/-! Keeping a record in line with its Work. What the Work declares as applied is compared with what
the record tracks; resources that fell out of the Work are released, and only when all of them are
is the record written, so an interrupted sync finds the same difference again. -/

namespace MemberAgent

namespace Tracking

/-- What a record should track, and what it has to let go. -/
structure Diff where
  retainedOrNew : List TrackedResource
  stale : List TrackedResource
  deriving DecidableEq

/-- The entry of a key; of several the last one. -/
def entryOf (key : ResourceKey) (tracked : List TrackedResource) : Option TrackedResource :=
  tracked.reverse.find? fun r => r.key = key

/-- Declared resources keep the entries they have; entries without a declaration are stale. Each key
counts once, and ordinals and uids do not matter. -/
def diff (declared : List ResourceIdentifier) (tracked : List TrackedResource) : Diff where
  retainedOrNew :=
    (firstByKey ResourceIdentifier.key declared).map fun i =>
      (entryOf i.key tracked).getD (.ofIdentifier i)
  stale :=
    firstByKey TrackedResource.key <|
      tracked.filter fun r => !declared.any fun i => i.key = r.key

/-- The Work and its record when both are there and neither is coming or going; none while they are;
an error when one of them is missing without reason. -/
def consistentPair (name : String) :
    Option Work → Option AppliedWork → Except Failure (Option (Work × AppliedWork))
  | none, none => .ok none
  | none, some applied =>
    if applied.isDeleting then .ok none
    else .error (.consistency name "work finalizer didn't delete the appliedWork")
  | some work, none =>
    if !work.hasFinalizer || work.isDeleting then .ok none
    else .error (.consistency name "work controller didn't create the appliedWork")
  | some work, some applied =>
    if !work.hasFinalizer || work.isDeleting || applied.isDeleting then .ok none
    else .ok (some (work, applied))

/-- What releasing a stale resource did. -/
inductive Release where
  | deleted (outcome : Deletion)
  | ownerRemoved (remaining : Nat)
  | notOwned
  deriving DecidableEq

/-- Releases a resource held by the record with uid `owner`: an object that only the record owns is
deleted, from one with other owners the record withdraws. -/
def release (owner : String) (resource : TrackedResource) : Reconcile Release := do
  match ← request (.getTracked resource) with
  | none => return .deleted .alreadyGone
  | some live =>
    if resource.uid.isSome ∧ live.metadata.uid ≠ resource.uid then return .deleted .alreadyGone
    let owners := live.metadata.owners
    let others := owners.filter fun o => o.uid ≠ owner
    if others.isEmpty then return .deleted (← request (.deleteTracked resource))
    if others.length = owners.length then return .notOwned
    request (.patchOwners (.ofTracked resource) live others)
    return .ownerRemoved others.length

/-- Tries to release every resource, and answers with the failures in order. -/
def releaseEach (owner : String) : List TrackedResource → Program clientCalls (List String)
  | [] => return []
  | r :: rest => do
    let result ← attempt (release owner r)
    let failures ← releaseEach owner rest
    match result with
    | .ok _ => return failures
    | .error failure => return s!"{r.key.text}: {failure.message}" :: failures

def releaseAll (owner : String) (stale : List TrackedResource) : Reconcile Unit := do
  match ← ExceptT.lift (releaseEach owner stale) with
  | [] => return
  | failures => throw (.deletion failures)

/-- The entries with the uids of their live objects. -/
def refreshUids : List TrackedResource → Reconcile (List TrackedResource)
  | [] => return []
  | r :: rest => do
    let live ← request (.getTracked r)
    let rest ← refreshUids rest
    return { r with uid := live.bind fun o => o.metadata.uid } :: rest

/-- The given copy of an object, or a fresh one. -/
def givenOr {α : Type} (given : Option α) (read : Reconcile (Option α)) : Reconcile (Option α) :=
  match given with
  | some a => return some a
  | none => read

/-- Brings a record that is out of transition in line with its Work. -/
def align (work : Work) (applied : AppliedWork) : Reconcile Unit := do
  let d := diff work.currentStatus.declared applied.resources
  releaseAll (applied.metadata.uid.getD "") d.stale
  let resources ← refreshUids d.retainedOrNew
  if resources ≠ applied.resources then request (.updateResources applied resources)

/-- Brings the record of a name in line with its Work. Copies that the caller does not hold are
read. -/
def sync («namespace» name : String) (work : Option Work) (applied : Option AppliedWork) :
    Reconcile Unit := do
  let work ← givenOr work (request (.getWork «namespace» name))
  let applied ← givenOr applied (request (.getAppliedWork name))
  match consistentPair name work applied with
  | .error failure => throw failure
  | .ok none => return
  | .ok (some (work, applied)) => align work applied

/-- Follows a change of a Work's status. -/
def reconcile (settings : Settings) (w : Work) : Reconcile Action := do
  sync (w.metadata.namespace.getD settings.workNamespace) w.name (some w) none
  return .awaitChange

end Tracking

end MemberAgent
