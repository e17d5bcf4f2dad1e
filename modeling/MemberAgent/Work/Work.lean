import MemberAgent.Object.Metadata
import MemberAgent.Work.Condition
import MemberAgent.Work.Resource

/-! Works: what the hub asks a member cluster to hold, as a list of raw manifests, and what became
of each of them. -/

namespace MemberAgent

open Json

/-- Group and version of Works and of their records. -/
def workApiVersion : String := "multicluster.x-k8s.io/v1alpha1"

/-- The finalizer that keeps a Work until what was applied for it is gone. -/
def cleanupFinalizer : String := "multicluster.x-k8s.io/work-cleanup"

/-- The condition that tells whether manifests have been applied. -/
def appliedCondition : String := "Applied"

/-- What became of one manifest. -/
structure ManifestCondition where
  identifier : ResourceIdentifier
  conditions : List Condition
  deriving DecidableEq

namespace ManifestCondition

def json (m : ManifestCondition) : Json :=
  record [
    ("conditions", some (.arr (m.conditions.map Condition.json))),
    ("identifier", some m.identifier.json)]

def ofFields (fields : List (String × Json)) : Reading ManifestCondition := do
  let conditions ← field? fields "conditions" (asList Condition.ofJson)
  let identifier ← field? fields "identifier" ResourceIdentifier.ofJson
  return { identifier := ← required "identifier" identifier, conditions := conditions.getD [] }

def ofItems : Sequence ManifestCondition := do
  let identifier ← next "struct ManifestCondition with 2 elements" ResourceIdentifier.ofJson
  let conditions ← next? (asList Condition.ofJson)
  return { identifier, conditions := conditions.getD [] }

def ofJson : Json → Reading ManifestCondition :=
  asRecord "struct ManifestCondition" ofFields ofItems

end ManifestCondition

/-- The conditions of a Work as a whole, and those of each manifest in the order of the
manifests. -/
structure WorkStatus where
  conditions : List Condition := []
  manifestConditions : List ManifestCondition := []
  deriving DecidableEq

namespace WorkStatus

def json (s : WorkStatus) : Json :=
  record [
    ("conditions", some (.arr (s.conditions.map Condition.json))),
    ("manifestConditions", some (.arr (s.manifestConditions.map ManifestCondition.json)))]

def ofFields (fields : List (String × Json)) : Reading WorkStatus := do
  let conditions ← field? fields "conditions" (asList Condition.ofJson)
  let manifestConditions ← field? fields "manifestConditions" (asList ManifestCondition.ofJson)
  return {
    conditions := conditions.getD []
    manifestConditions := manifestConditions.getD [] }

def ofItems : Sequence WorkStatus := do
  let conditions ← next? (asList Condition.ofJson)
  let manifestConditions ← next? (asList ManifestCondition.ofJson)
  return {
    conditions := conditions.getD []
    manifestConditions := manifestConditions.getD [] }

def ofJson : Json → Reading WorkStatus := asRecord "struct WorkStatus" ofFields ofItems

end WorkStatus

/-- The resources that a Work declares as applied: those of manifests whose `Applied` condition is
true and that name a resource, each key once. -/
def WorkStatus.declared (s : WorkStatus) : List ResourceIdentifier :=
  firstByKey ResourceIdentifier.key <|
    ((s.manifestConditions.filter fun m => isConditionTrue appliedCondition m.conditions).map
      ManifestCondition.identifier).filter ResourceIdentifier.isResolved

/-- The manifests of a Work, as its `workload` holds them. -/
def workloadJson (manifests : List Json) : Json := record [("manifests", some (.arr manifests))]

def readWorkload : Json → Reading (List Json) :=
  asRecord "struct WorkloadTemplate"
    (fun fields => return (← field? fields "manifests" (asList asAny)).getD [])
    (return (← next? (asList asAny)).getD [])

/-- The manifests of a Work, as its `spec` holds them. -/
def workSpecJson (manifests : List Json) : Json :=
  record [("workload", some (workloadJson manifests))]

def readWorkSpec : Json → Reading (List Json) :=
  asRecord "struct WorkSpec"
    (fun fields => return (← field? fields "workload" readWorkload).getD [])
    (return (← next? readWorkload).getD [])

structure Work where
  metadata : ObjectMeta
  manifests : List Json := []
  status : Option WorkStatus := none
  deriving DecidableEq

namespace Work

def json (w : Work) : Json :=
  record [
    ("apiVersion", some (.str workApiVersion)),
    ("kind", some (.str "Work")),
    ("metadata", some w.metadata.json),
    ("spec", some (workSpecJson w.manifests)),
    ("status", w.status.map WorkStatus.json)]

def ofFields (fields : List (String × Json)) : Reading Work := do
  let metadata ← field? fields "metadata" ObjectMeta.ofJson
  let spec ← field? fields "spec" readWorkSpec
  let status ← optional fields "status" WorkStatus.ofJson
  return {
    metadata := ← required "metadata" metadata
    manifests := ← required "spec" spec
    status }

def ofItems : Sequence Work := do
  let whole := "struct Work with 3 elements"
  let metadata ← next whole ObjectMeta.ofJson
  let manifests ← next whole readWorkSpec
  let status ← next whole (asOption WorkStatus.ofJson)
  return { metadata, manifests, status }

def ofJson : Json → Reading Work := asRecord "struct Work" ofFields ofItems

def name (w : Work) : String := w.metadata.anyName

/-- The namespace on the hub, empty when none is given. -/
def «namespace» (w : Work) : String := w.metadata.namespace.getD ""

def isDeleting (w : Work) : Bool := w.metadata.isDeleting

def hasFinalizer (w : Work) : Bool := w.metadata.hasFinalizer cleanupFinalizer

/-- The status, where none written means an empty one. -/
def currentStatus (w : Work) : WorkStatus := w.status.getD {}

end Work

end MemberAgent
