import MemberAgent.Manifest
import MemberAgent.Object.ContentHash

/-! Applying a Work: each manifest is created or replaced on the member cluster under its content
hash and with the Work's record among its owners, independently of the others, and the Work's status
tells what became of each. -/

namespace MemberAgent

/-- What applying a manifest did. -/
inductive ApplyAction where
  | created
  | updated
  | ownerAdded
  | unchanged
  deriving DecidableEq, Repr

/-- Adds an owner at the end, unless one of its uid is there. -/
def mergeOwners (existing : List OwnerReference) (owner : OwnerReference) :
    Option (List OwnerReference) :=
  if existing.any fun o => o.uid = owner.uid then none else some (existing ++ [owner])

/-- The owners with this one among them. -/
def withOwner (existing : List OwnerReference) (owner : OwnerReference) : List OwnerReference :=
  (mergeOwners existing owner).getD existing

namespace Apply

/-- The object to write: the declared one under its hash and with these owners. -/
def stamp (object : ApiObject) (hash : String) (owners : List OwnerReference) : ApiObject :=
  { object with
    metadata :=
      { object.metadata with
        annotations := some ((object.metadata.annotations.getD ∅).insert hashAnnotation hash)
        ownerReferences := some owners } }

/-- Creates the object, replaces one of other content, or adds the owner to one of the same
content. -/
def manifest (resolved : Manifest.Resolved) (owner : OwnerReference) : Reconcile ApplyAction := do
  let object := resolved.object
  let identifier := resolved.identifier
  let hash := object.contentHash
  match ← request (.getObject resolved.mapping identifier.namespace identifier.name) with
  | none =>
    let desired := stamp object hash (withOwner object.metadata.owners owner)
    let _ ← request (.createObject resolved.mapping desired)
    return .created
  | some live =>
    if live.metadata.recordedHash = some hash then
      match mergeOwners live.metadata.owners owner with
      | none => return .unchanged
      | some owners =>
        request (.patchOwners resolved.mapping live owners)
        return .ownerAdded
    else
      let stamped := stamp object hash (withOwner live.metadata.owners owner)
      let desired :=
        { stamped with
          metadata :=
            { stamped.metadata with resourceVersion := live.metadata.resourceVersion } }
      let _ ← request (.replaceObject resolved.mapping desired)
      return .updated

/-- What became of a manifest. -/
inductive Result where
  | applied (action : ApplyAction)
  | unresolved (failure : Failure)
  | rejected (failure : Failure)
  deriving DecidableEq

namespace Result

def failure? : Result → Option Failure
  | applied _ => none
  | unresolved failure => some failure
  | rejected failure => some failure

/-- Whether it failed for a reason that may go away by itself. -/
def mayClear : Result → Bool
  | applied _ => false
  | unresolved failure => failure.retryable
  | rejected _ => true

/-- The `Applied` condition that reports it. -/
def condition (now : Timestamp) (generation : Option Int) (r : Result) : Condition :=
  match r.failure? with
  | none =>
    { type := appliedCondition, status := .isTrue, reason := "AppliedManifestComplete"
      message := "Apply manifest complete"
      observedGeneration := generation, lastTransitionTime := now }
  | some failure =>
    { type := appliedCondition, status := .isFalse, reason := failure.reason
      message := failure.message
      observedGeneration := generation, lastTransitionTime := now }

end Result

structure Outcome where
  identifier : ResourceIdentifier
  result : Result
  deriving DecidableEq

/-- Resolves and applies one manifest; failing is an outcome too. -/
def document (owner : OwnerReference) (ordinal : Nat) (document : Json) :
    Program clientCalls Outcome := do
  match ← Manifest.resolve ordinal document with
  | .error u => return ⟨u.identifier, .unresolved u.failure⟩
  | .ok resolved =>
    match ← attempt (manifest resolved owner) with
    | .ok action => return ⟨resolved.identifier, .applied action⟩
    | .error failure => return ⟨resolved.identifier, .rejected failure⟩

/-- All documents in order, numbered from `ordinal` on. -/
def documents (owner : OwnerReference) (ordinal : Nat) :
    List Json → Program clientCalls (List Outcome)
  | [] => return []
  | d :: rest => do
    let outcome ← document owner ordinal d
    let outcomes ← documents owner (ordinal + 1) rest
    return outcome :: outcomes

/-- The conditions last reported for the manifest of an ordinal. -/
def conditionsOf (ordinal : Nat) (status : WorkStatus) : List Condition :=
  ((status.manifestConditions.find? fun m => m.identifier.ordinal = ordinal).map
    ManifestCondition.conditions).getD []

/-- The conditions of the manifests, numbered from `ordinal` on. -/
def manifestConditions (previous : WorkStatus) (generation : Option Int) (clock : Nat → Timestamp)
    (ordinal : Nat) : List Outcome → List ManifestCondition
  | [] => []
  | o :: rest =>
    { identifier := o.identifier
      conditions :=
        setCondition (o.result.condition (clock ordinal) generation)
          (conditionsOf ordinal previous) } ::
      manifestConditions previous generation clock (ordinal + 1) rest

def failed (outcomes : List Outcome) : Nat := outcomes.countP fun o => o.result.failure?.isSome

/-- Whether some manifest failed for a reason that may go away by itself. -/
def mayRetry (outcomes : List Outcome) : Bool := outcomes.any fun o => o.result.mayClear

/-- The `Applied` condition of the whole Work. -/
def aggregate (outcomes : List Outcome) (generation : Option Int) (now : Timestamp) : Condition :=
  if failed outcomes = 0 then
    { type := appliedCondition, status := .isTrue, reason := "WorkAppliedComplete"
      message := "Apply work complete"
      observedGeneration := generation, lastTransitionTime := now }
  else
    { type := appliedCondition, status := .isFalse, reason := "WorkAppliedFailed"
      message := s!"{failed outcomes} of {outcomes.length} manifests failed to apply"
      observedGeneration := generation, lastTransitionTime := now }

/-- The status after applying. Unchanged outcomes keep their times; `clock` gives the time at which
each manifest was done, and after them the time of the whole. -/
def report (previous : WorkStatus) (generation : Option Int) (clock : Nat → Timestamp)
    (outcomes : List Outcome) : WorkStatus where
  conditions :=
    setCondition (aggregate outcomes generation (clock outcomes.length)) previous.conditions
  manifestConditions := manifestConditions previous generation clock 0 outcomes

/-- Applies every manifest of a Work. -/
def work (clock : Nat → Timestamp) (work : Work) (owner : OwnerReference) :
    Program clientCalls (List Outcome × WorkStatus) := do
  let outcomes ← documents owner 0 work.manifests
  return (outcomes, report work.currentStatus work.metadata.generation clock outcomes)

/-- The delay before a Work is looked at again that has no finalizer yet. -/
def finalizerWaitSeconds : Nat := 5

/-- The record of a Work, which must be there once the finalizer is. -/
def owningRecord (work : Work) : Reconcile AppliedWork := do
  match ← request (.getAppliedWork work.name) with
  | some applied => return applied
  | none => throw (.consistency work.name "work controller didn't create the appliedWork")

/-- Applies a tracked Work and reports its status if that has changed. Works that failed for good
wait for their next change. -/
def reconcile (settings : Settings) (clock : Nat → Timestamp) (w : Work) : Reconcile Action := do
  if w.isDeleting then return .awaitChange
  if !w.hasFinalizer then return .requeue finalizerWaitSeconds
  let applied ← owningRecord w
  if applied.isDeleting then return .awaitChange
  match applied.ownerReference with
  | none => throw (.internal "apply-work" "appliedWork has no uid")
  | some owner =>
    let (outcomes, status) ← ExceptT.lift (work clock w owner)
    if w.status ≠ some status then request (.patchWorkStatus w status)
    if 0 < failed outcomes ∧ !mayRetry outcomes then return .awaitChange
    return .requeue settings.resyncSeconds

end Apply

end MemberAgent
