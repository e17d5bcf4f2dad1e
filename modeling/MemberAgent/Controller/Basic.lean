import MemberAgent.EventFilter
import MemberAgent.Http.Client
import MemberAgent.Reconcile.Apply
import MemberAgent.Reconcile.Lifecycle
import MemberAgent.Reconcile.Monitor

/-! The controllers of the agent. Each watches the objects of one endpoint, and reconciles an object
when a change of it passes the predicate. Three watch the Works of this cluster on the hub; the
fourth watches their records on the member cluster. -/

namespace MemberAgent

/-- A reconcile that takes longer than `timeoutSeconds` fails, under the name of its controller. -/
structure Controller (α : Type) where
  name : String
  cluster : Cluster
  endpoint : Http.Endpoint
  predicate : EventPredicate α
  reconcile : α → Reconcile Action
  settings : Settings
  timeoutSeconds : Nat

namespace Controller

variable {α : Type}

/-- What happens after a reconcile. -/
def afterwards (c : Controller α) : Except Failure Action → Action
  | .ok action => action
  | .error failure => actionOnFailure c.settings failure

def timedOut (c : Controller α) : Failure := .timeout c.name c.timeoutSeconds

section

variable (settings : Settings) (timeoutSeconds : Nat)

def finalizeWork : Controller Work where
  name := "finalize-work"
  cluster := .hub
  endpoint := Http.worksIn settings.workNamespace
  predicate := .generationChanged
  reconcile := Lifecycle.reconcile
  settings
  timeoutSeconds

def applyWork (clock : Nat → Timestamp) : Controller Work where
  name := "apply-work"
  cluster := .hub
  endpoint := Http.worksIn settings.workNamespace
  predicate := .generationChanged
  reconcile := Apply.reconcile settings clock
  settings
  timeoutSeconds

/-- Statuses are followed only once they change, so a first sighting is nothing to follow. -/
def workStatus : Controller Work where
  name := "work-status"
  cluster := .hub
  endpoint := Http.worksIn settings.workNamespace
  predicate := .updateOnly
  reconcile := Tracking.reconcile settings
  settings
  timeoutSeconds

def appliedWork : Controller AppliedWork where
  name := "applied-work"
  cluster := .member
  endpoint := Http.records
  predicate := .all
  reconcile := Monitor.reconcile settings
  settings
  timeoutSeconds

end

/-- The controllers of Works, in the order in which they start. -/
def ofWorks (settings : Settings) (timeoutSeconds : Nat) (clock : Nat → Timestamp) :
    List (Controller Work) :=
  [finalizeWork settings timeoutSeconds, applyWork settings timeoutSeconds clock,
    workStatus settings timeoutSeconds]

/-- The controllers of records, which start after those of Works. -/
def ofRecords (settings : Settings) (timeoutSeconds : Nat) : List (Controller AppliedWork) :=
  [appliedWork settings timeoutSeconds]

end Controller

end MemberAgent
