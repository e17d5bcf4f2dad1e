import MemberAgent.Json.Reading

/-! The metadata that every stored object carries. Fields outside this list are not kept; absent and
null fields are the same, an empty list or map is not. -/

namespace MemberAgent

open Json

def Json.ofStrings (l : List String) : Json := .arr (l.map .str)

def Json.ofStringTable (t : Table String String) : Json := object (t.mapValues fun _ s => .str s)

structure OwnerReference where
  apiVersion : String
  kind : String
  name : String
  uid : String
  blockOwnerDeletion : Option Bool
  controller : Option Bool
  deriving DecidableEq

namespace OwnerReference

def json (o : OwnerReference) : Json :=
  record [
    ("apiVersion", some (.str o.apiVersion)),
    ("blockOwnerDeletion", o.blockOwnerDeletion.map .bool),
    ("controller", o.controller.map .bool),
    ("kind", some (.str o.kind)),
    ("name", some (.str o.name)),
    ("uid", some (.str o.uid))]

def ofFields (fields : List (String × Json)) : Reading OwnerReference := do
  let apiVersion ← optional fields "apiVersion" asText
  let blockOwnerDeletion ← optional fields "blockOwnerDeletion" asBool
  let controller ← optional fields "controller" asBool
  let kind ← optional fields "kind" asText
  let name ← optional fields "name" asText
  let uid ← optional fields "uid" asText
  return {
    apiVersion := apiVersion.getD ""
    kind := kind.getD ""
    name := name.getD ""
    uid := uid.getD ""
    blockOwnerDeletion
    controller }

def ofJson : Json → Reading OwnerReference := asFields "OwnerReference" ofFields

end OwnerReference

/-- Which fields of an object a manager last wrote. -/
structure ManagedFields where
  apiVersion : Option String
  fieldsType : Option String
  fieldsV1 : Option Json
  manager : Option String
  operation : Option String
  subresource : Option String
  time : Option Timestamp
  deriving DecidableEq

namespace ManagedFields

def json (m : ManagedFields) : Json :=
  record [
    ("apiVersion", m.apiVersion.map .str),
    ("fieldsType", m.fieldsType.map .str),
    ("fieldsV1", m.fieldsV1),
    ("manager", m.manager.map .str),
    ("operation", m.operation.map .str),
    ("subresource", m.subresource.map .str),
    ("time", m.time.map fun t => .str t.secondsText)]

def ofFields (fields : List (String × Json)) : Reading ManagedFields := do
  let apiVersion ← optional fields "apiVersion" asText
  let fieldsType ← optional fields "fieldsType" asText
  let fieldsV1 ← optional fields "fieldsV1" asAny
  let manager ← optional fields "manager" asText
  let operation ← optional fields "operation" asText
  let subresource ← optional fields "subresource" asText
  let time ← optional fields "time" asTimestamp
  return { apiVersion, fieldsType, fieldsV1, manager, operation, subresource, time }

def ofJson : Json → Reading ManagedFields := asFields "ManagedFieldsEntry" ofFields

end ManagedFields

structure ObjectMeta where
  annotations : Option (Table String String) := none
  creationTimestamp : Option Timestamp := none
  deletionGracePeriodSeconds : Option Int := none
  deletionTimestamp : Option Timestamp := none
  finalizers : Option (List String) := none
  generateName : Option String := none
  generation : Option Int := none
  labels : Option (Table String String) := none
  managedFields : Option (List ManagedFields) := none
  name : Option String := none
  «namespace» : Option String := none
  ownerReferences : Option (List OwnerReference) := none
  resourceVersion : Option String := none
  selfLink : Option String := none
  uid : Option String := none
  deriving DecidableEq

namespace ObjectMeta

instance : Inhabited ObjectMeta := ⟨{}⟩

/-- Times are written without fractions of a second. -/
def json (m : ObjectMeta) : Json :=
  record [
    ("annotations", m.annotations.map ofStringTable),
    ("creationTimestamp", m.creationTimestamp.map fun t => .str t.secondsText),
    ("deletionGracePeriodSeconds", m.deletionGracePeriodSeconds.map .int),
    ("deletionTimestamp", m.deletionTimestamp.map fun t => .str t.secondsText),
    ("finalizers", m.finalizers.map ofStrings),
    ("generateName", m.generateName.map .str),
    ("generation", m.generation.map .int),
    ("labels", m.labels.map ofStringTable),
    ("managedFields", m.managedFields.map fun l => .arr (l.map ManagedFields.json)),
    ("name", m.name.map .str),
    ("namespace", m.namespace.map .str),
    ("ownerReferences", m.ownerReferences.map fun l => .arr (l.map OwnerReference.json)),
    ("resourceVersion", m.resourceVersion.map .str),
    ("selfLink", m.selfLink.map .str),
    ("uid", m.uid.map .str)]

def ofFields (fields : List (String × Json)) : Reading ObjectMeta := do
  let annotations ← optional fields "annotations" (asTable asText)
  let creationTimestamp ← optional fields "creationTimestamp" asTimestamp
  let deletionGracePeriodSeconds ← optional fields "deletionGracePeriodSeconds" asInt64
  let deletionTimestamp ← optional fields "deletionTimestamp" asTimestamp
  let finalizers ← optional fields "finalizers" (asList asText)
  let generateName ← optional fields "generateName" asText
  let generation ← optional fields "generation" asInt64
  let labels ← optional fields "labels" (asTable asText)
  let managedFields ← optional fields "managedFields" (asList ManagedFields.ofJson)
  let name ← optional fields "name" asText
  let «namespace» ← optional fields "namespace" asText
  let ownerReferences ← optional fields "ownerReferences" (asList OwnerReference.ofJson)
  let resourceVersion ← optional fields "resourceVersion" asText
  let selfLink ← optional fields "selfLink" asText
  let uid ← optional fields "uid" asText
  return {
    annotations, creationTimestamp, deletionGracePeriodSeconds, deletionTimestamp, finalizers
    generateName, generation, labels, managedFields, name, «namespace», ownerReferences
    resourceVersion, selfLink, uid }

def ofJson : Json → Reading ObjectMeta := asFields "ObjectMeta" ofFields

/-- The name, or the stem of a name that is still to be made up. -/
def anyName (m : ObjectMeta) : String := (m.name <|> m.generateName).getD ""

/-- The owners, where none listed means none. -/
def owners (m : ObjectMeta) : List OwnerReference := m.ownerReferences.getD []

def isDeleting (m : ObjectMeta) : Bool := m.deletionTimestamp.isSome

def hasFinalizer (m : ObjectMeta) (finalizer : String) : Bool :=
  (m.finalizers.getD []).contains finalizer

end ObjectMeta

end MemberAgent
