import MemberAgent.Work.Work

/-! The record that a member cluster keeps of what it applied for a Work. It owns every applied
object, so removing it lets the cluster remove what nobody else owns. -/

namespace MemberAgent

open Json

/-- The Work that a record stands for. -/
structure AppliedWorkSpec where
  workName : String
  workNamespace : String
  deriving DecidableEq

namespace AppliedWorkSpec

def json (s : AppliedWorkSpec) : Json :=
  record [
    ("workName", some (.str s.workName)),
    ("workNamespace", some (.str s.workNamespace))]

def ofFields (fields : List (String × Json)) : Reading AppliedWorkSpec := do
  let workName ← field? fields "workName" asText
  let workNamespace ← field? fields "workNamespace" asText
  return {
    workName := ← required "workName" workName
    workNamespace := ← required "workNamespace" workNamespace }

def ofItems : Sequence AppliedWorkSpec := do
  let whole := "struct AppliedWorkSpec with 2 elements"
  let workName ← next whole asText
  let workNamespace ← next whole asText
  return { workName, workNamespace }

def ofJson : Json → Reading AppliedWorkSpec := asRecord "struct AppliedWorkSpec" ofFields ofItems

end AppliedWorkSpec

structure AppliedWorkStatus where
  appliedResources : List TrackedResource := []
  deriving DecidableEq

namespace AppliedWorkStatus

def json (s : AppliedWorkStatus) : Json :=
  record [("appliedResources", some (.arr (s.appliedResources.map TrackedResource.json)))]

def ofFields (fields : List (String × Json)) : Reading AppliedWorkStatus := do
  let appliedResources ← field? fields "appliedResources" (asList TrackedResource.ofJson)
  return { appliedResources := appliedResources.getD [] }

def ofItems : Sequence AppliedWorkStatus := do
  let appliedResources ← next? (asList TrackedResource.ofJson)
  return { appliedResources := appliedResources.getD [] }

def ofJson : Json → Reading AppliedWorkStatus :=
  asRecord "struct AppliedWorkStatus" ofFields ofItems

end AppliedWorkStatus

structure AppliedWork where
  metadata : ObjectMeta
  spec : AppliedWorkSpec
  status : Option AppliedWorkStatus := none
  deriving DecidableEq

namespace AppliedWork

def json (a : AppliedWork) : Json :=
  record [
    ("apiVersion", some (.str workApiVersion)),
    ("kind", some (.str "AppliedWork")),
    ("metadata", some a.metadata.json),
    ("spec", some a.spec.json),
    ("status", a.status.map AppliedWorkStatus.json)]

def ofFields (fields : List (String × Json)) : Reading AppliedWork := do
  let metadata ← field? fields "metadata" ObjectMeta.ofJson
  let spec ← field? fields "spec" AppliedWorkSpec.ofJson
  let status ← optional fields "status" AppliedWorkStatus.ofJson
  return {
    metadata := ← required "metadata" metadata
    spec := ← required "spec" spec
    status }

def ofItems : Sequence AppliedWork := do
  let whole := "struct AppliedWork with 3 elements"
  let metadata ← next whole ObjectMeta.ofJson
  let spec ← next whole AppliedWorkSpec.ofJson
  let status ← next whole (asOption AppliedWorkStatus.ofJson)
  return { metadata, spec, status }

def ofJson : Json → Reading AppliedWork := asRecord "struct AppliedWork" ofFields ofItems

/-- The record for a Work, of the same name. -/
def forWork (w : Work) : AppliedWork where
  metadata := { name := some w.name }
  spec := { workName := w.name, workNamespace := w.namespace }

def name (a : AppliedWork) : String := a.metadata.anyName

/-- What the record tracks. -/
def resources (a : AppliedWork) : List TrackedResource := (a.status.getD {}).appliedResources

def isDeleting (a : AppliedWork) : Bool := a.metadata.isDeleting

/-- The reference that marks an object as applied for this record; none until the record has a uid.
It claims no control, so several records can own one object. -/
def ownerReference (a : AppliedWork) : Option OwnerReference :=
  a.metadata.uid.map fun uid =>
    { apiVersion := workApiVersion
      kind := "AppliedWork"
      name := a.name
      uid
      blockOwnerDeletion := some true
      controller := none }

end AppliedWork

end MemberAgent
