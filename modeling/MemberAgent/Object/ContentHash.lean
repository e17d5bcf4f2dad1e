import MemberAgent.Object.ApiObject
import MemberAgent.Sha256

/-! The hash that tells whether an object's desired content has changed. It leaves out what a round
trip through the cluster changes by itself: the status, the metadata that the server fills in, the
owners, and the annotation that holds the hash. -/

namespace MemberAgent

/-- The annotation that holds the content hash of an applied manifest. -/
def hashAnnotation : String := "multicluster.x-k8s.io/spec-hash"

/-- The annotations without the hash; none when nothing else is left. -/
def withoutHash (annotations : Table String String) : Option (Table String String) :=
  let rest := annotations.erase hashAnnotation
  if rest.isEmpty then none else some rest

def ObjectMeta.desired (m : ObjectMeta) : ObjectMeta :=
  { m with
    uid := none
    resourceVersion := none
    creationTimestamp := none
    managedFields := none
    generation := none
    selfLink := none
    ownerReferences := none
    annotations := m.annotations.bind withoutHash }

def ObjectMeta.recordedHash (m : ObjectMeta) : Option String :=
  m.annotations.bind fun a => a.get? hashAnnotation

namespace ApiObject

/-- The text that is hashed. -/
def contentText (o : ApiObject) : String :=
  (Json.object ({ o with metadata := o.metadata.desired }.fields.erase "status")).text

def contentHash (o : ApiObject) : String := Sha256.shortHash o.contentText

end ApiObject

end MemberAgent
