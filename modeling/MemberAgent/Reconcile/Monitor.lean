import MemberAgent.Reconcile.Tracking

/-! The monitor looks at every record again and again, so drift on the member cluster is noticed
even when no Work changes. -/

namespace MemberAgent

namespace Monitor

/-- Syncs the current copy of a record; a record that is gone is not looked at again. -/
def reconcile (settings : Settings) (applied : AppliedWork) : Reconcile Action := do
  let name := applied.name
  match ← request (.getAppliedWork name) with
  | none => return .awaitChange
  | some current =>
    let recorded := current.spec.workNamespace
    let «namespace» := if recorded.isEmpty then settings.workNamespace else recorded
    Tracking.sync «namespace» name none (some current)
    return .requeue settings.resyncSeconds

end Monitor

end MemberAgent
