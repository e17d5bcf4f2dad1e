import MemberAgent.Client
import MemberAgent.Http.Discovery

/-! The client calls as requests. Writes to an object that was read before carry the version that
was read, so the server refuses them when someone else has written in between. -/

namespace MemberAgent.Http

open Json

/-- The endpoint of Works in a namespace of the hub. -/
def worksIn («namespace» : String) : Endpoint := ⟨Work.resource, «namespace»⟩

/-- The endpoint of records. -/
def records : Endpoint := ⟨AppliedWork.resource, ""⟩

def trackedAt (r : TrackedResource) : Endpoint := ⟨.ofTracked r, r.namespace⟩

/-- Where an object of a resource belongs by its metadata. -/
def placeOf (mapping : ResourceMapping) (m : ObjectMeta) : Endpoint :=
  ⟨mapping, m.namespace.getD ""⟩

/-- The version of an object as a patch states it, null if it is not known. -/
def observedVersion (m : ObjectMeta) : Json := (m.resourceVersion.map .str).getD .null

/-- A patch of the status of an object. -/
def statusPatch (m : ObjectMeta) (status : Json) : Json :=
  record [
    ("metadata", some (record [("resourceVersion", some (observedVersion m))])),
    ("status", some status)]

def finalizersPatch (m : ObjectMeta) (finalizers : List String) : Json :=
  record [
    ("metadata", some <| record [
      ("finalizers", some (ofStrings finalizers)),
      ("resourceVersion", some (observedVersion m))])]

def ownersPatch (m : ObjectMeta) (owners : List OwnerReference) : Json :=
  record [
    ("metadata", some <| record [
      ("ownerReferences", some (.arr (owners.map OwnerReference.json))),
      ("resourceVersion", some (observedVersion m))])]

/-- When what depends on a deleted object is deleted: before it, or some time after it. -/
inductive Propagation where
  | foreground
  | background

def Propagation.text : Propagation → String
  | foreground => "Foreground"
  | background => "Background"

/-- The options of a deletion, which may be meant for the object with one uid only. -/
def deleteOptions (propagation : Propagation) (uid : Option String) : Json :=
  record [
    ("preconditions", uid.map fun uid => record [("uid", some (.str uid))]),
    ("propagationPolicy", some (.str propagation.text))]

/-- A fault that `excused` accepts is none, and then `instead` is the answer. -/
def recover {α : Type} (e : Exchange α) (excused : ClientFault → Bool) (instead : α) : Exchange α :=
  tryCatch e fun fault => if excused fault then return instead else throw fault

/-- Whether the server says that there is no such object. -/
def isMissing : ClientFault → Bool
  | .api s => s.reason = "NotFound"
  | _ => false

/-- Reads an object that may be missing. -/
def find {α : Type} (cluster : Cluster) (request : Prepared) (read : Json → Reading α) :
    Exchange (Option α) :=
  recover (some <$> ask cluster request read) isMissing none

/-- The finalizers of a Work as its observed copy has them. -/
def observedFinalizers (w : Work) : List String := w.metadata.finalizers.getD []

def patchFinalizers (w : Work) (finalizers : List String) : Exchange Unit :=
  discard <| ask .hub
    ((worksIn w.namespace).mergePatch w.name (finalizersPatch w.metadata finalizers)) Work.ofJson

/-- Nothing is sent when the finalizer is there. -/
def addFinalizer (w : Work) (finalizer : String) : Exchange Unit :=
  if (observedFinalizers w).contains finalizer then return
  else patchFinalizers w (observedFinalizers w ++ [finalizer])

/-- Nothing is sent when the finalizer is not there. -/
def removeFinalizer (w : Work) (finalizer : String) : Exchange Unit :=
  if (observedFinalizers w).contains finalizer then
    patchFinalizers w ((observedFinalizers w).filter fun f => f ≠ finalizer)
  else return

/-- Deletes what a record tracks, if it is still the object that was tracked. -/
def deleteTracked (r : TrackedResource) : Exchange Deletion :=
  recover
    (do
      let body ← exchange .member ((trackedAt r).delete r.name (deleteOptions .background r.uid))
      let deleted ← readDeleted ApiObject.ofJson body
      return .deleted ((deleted.bind fun o => o.metadata.uid) <|> r.uid))
    (fun fault =>
      let failure := Failure.client fault
      failure.isNotFound || (failure.isConflict && r.uid.isSome))
    .alreadyGone

/-- The record goes after everything that depends on it; one that is missing has gone. -/
def deleteApplied (name : String) : Exchange Unit :=
  recover
    (do
      let body ← exchange .member (records.delete name (deleteOptions .foreground none))
      discard <| readDeleted AppliedWork.ofJson body)
    (fun fault => (Failure.client fault).isNotFound)
    ()

/-- The requests of each call. -/
def exchangeOf : (c : ClientCall) → Exchange c.Value
  | .getWork «namespace» name => find .hub ((worksIn «namespace»).get name) Work.ofJson
  | .patchWorkStatus w status =>
    let patch := statusPatch w.metadata status.json
    discard <| ask .hub ((worksIn w.namespace).mergePatchStatus w.name patch) Work.ofJson
  | .addFinalizer w finalizer => addFinalizer w finalizer
  | .removeFinalizer w finalizer => removeFinalizer w finalizer
  | .getAppliedWork name => find .member (records.get name) AppliedWork.ofJson
  | .createAppliedWork applied => ask .member (records.create applied.json) AppliedWork.ofJson
  | .deleteAppliedWork name => deleteApplied name
  | .updateResources applied resources =>
    let patch := statusPatch applied.metadata (AppliedWorkStatus.json ⟨resources⟩)
    discard <| ask .member (records.mergePatchStatus applied.name patch) AppliedWork.ofJson
  | .getObject mapping «namespace» name =>
    find .member ((⟨mapping, «namespace»⟩ : Endpoint).get name) ApiObject.ofJson
  | .createObject mapping object =>
    ask .member ((placeOf mapping object.metadata).create object.json) ApiObject.ofJson
  | .replaceObject mapping object =>
    let place := placeOf mapping object.metadata
    ask .member (place.replace object.metadata.anyName object.json) ApiObject.ofJson
  | .patchOwners mapping live owners =>
    let place := placeOf mapping live.metadata
    let patch := ownersPatch live.metadata owners
    discard <| ask .member (place.mergePatch live.metadata.anyName patch) ApiObject.ofJson
  | .getTracked r => find .member ((trackedAt r).get r.name) ApiObject.ofJson
  | .deleteTracked r => deleteTracked r
  | .findMapping kind => findMapping kind

/-- The reply to each call. -/
def answer (c : ClientCall) : Program wire (Except Failure c.Value) := do
  return (← (exchangeOf c).run).mapError .client

/-- A reconciler on the wire. -/
def onWire {α : Type} (r : Reconcile α) : Program wire (Except Failure α) :=
  (attempt r).interpret answer

end MemberAgent.Http
