import MemberAgent.Json.Reading

/-! How resources are named: by the manifest that declares them, by the record that tracks them, and
by the key that both have in common. -/

namespace MemberAgent

open Json

/-- Group and version; the core group has no name and no slash. -/
def splitApiVersion (s : String) : String × String :=
  let cs := s.toList
  match cs.dropWhile (· ≠ '/') with
  | [] => ("", s)
  | _ :: version => (String.ofList (cs.takeWhile (· ≠ '/')), String.ofList version)

def joinApiVersion (group version : String) : String :=
  if group.isEmpty then version else s!"{group}/{version}"

/-- Two resources are the same if and only if their keys are equal. -/
structure ResourceKey where
  group : String
  version : String
  resource : String
  «namespace» : String
  name : String
  deriving DecidableEq

namespace ResourceKey

instance : Ord ResourceKey where
  compare := compareLex (compareOn ResourceKey.group) <|
    compareLex (compareOn ResourceKey.version) <|
    compareLex (compareOn ResourceKey.resource) <|
    compareLex (compareOn ResourceKey.namespace) (compareOn ResourceKey.name)

instance : Std.TransOrd ResourceKey :=
  show Std.TransCmp (compareLex _ (compareLex _ (compareLex _ (compareLex _ _)))) from inferInstance

def text (k : ResourceKey) : String :=
  let resource := if k.group.isEmpty then k.resource else s!"{k.resource}.{k.group}"
  if k.namespace.isEmpty then s!"{resource}/{k.name}" else s!"{resource} {k.namespace}/{k.name}"

end ResourceKey

/-- What is known of the resource that a manifest declares. The ordinal is the place of the manifest
in its Work; the plural `resource` is empty if the kind could not be mapped, the namespace if the
resource has none. Ordinals are read in 32 bits, and counted without a bound: a counter of 32 bits stops at
a Work with more manifests, which is applied here like any other. -/
structure ResourceIdentifier where
  ordinal : Nat
  group : String := ""
  version : String := ""
  kind : String := ""
  resource : String := ""
  «namespace» : String := ""
  name : String := ""
  deriving DecidableEq

namespace ResourceIdentifier

def key (i : ResourceIdentifier) : ResourceKey :=
  ⟨i.group, i.version, i.resource, i.namespace, i.name⟩

/-- Whether it names a resource on the member cluster. -/
def isResolved (i : ResourceIdentifier) : Bool := !i.resource.isEmpty && !i.name.isEmpty

def json (i : ResourceIdentifier) : Json :=
  record [
    ("group", some (.str i.group)),
    ("kind", some (.str i.kind)),
    ("name", some (.str i.name)),
    ("namespace", some (.str i.namespace)),
    ("ordinal", some (.int i.ordinal)),
    ("resource", some (.str i.resource)),
    ("version", some (.str i.version))]

def ofFields (fields : List (String × Json)) : Reading ResourceIdentifier := do
  let group ← field? fields "group" asText
  let kind ← field? fields "kind" asText
  let name ← field? fields "name" asText
  let «namespace» ← field? fields "namespace" asText
  let ordinal ← field? fields "ordinal" asNat32
  let resource ← field? fields "resource" asText
  let version ← field? fields "version" asText
  return {
    ordinal := ← required "ordinal" ordinal
    group := group.getD ""
    version := version.getD ""
    kind := kind.getD ""
    resource := resource.getD ""
    «namespace» := «namespace».getD ""
    name := name.getD "" }

def ofItems : Sequence ResourceIdentifier := do
  let ordinal ← next "struct ResourceIdentifier with 7 elements" asNat32
  let group ← next? asText
  let version ← next? asText
  let kind ← next? asText
  let resource ← next? asText
  let «namespace» ← next? asText
  let name ← next? asText
  return {
    ordinal
    group := group.getD ""
    version := version.getD ""
    kind := kind.getD ""
    resource := resource.getD ""
    «namespace» := «namespace».getD ""
    name := name.getD "" }

def ofJson : Json → Reading ResourceIdentifier :=
  asRecord "struct ResourceIdentifier" ofFields ofItems

end ResourceIdentifier

/-- A resource that a record tracks, with the uid of the object last seen there. -/
structure TrackedResource where
  group : String
  version : String
  resource : String
  «namespace» : String
  name : String
  uid : Option String
  deriving DecidableEq

namespace TrackedResource

def key (r : TrackedResource) : ResourceKey :=
  ⟨r.group, r.version, r.resource, r.namespace, r.name⟩

/-- A declared resource of which no object has been seen yet. -/
def ofIdentifier (i : ResourceIdentifier) : TrackedResource :=
  ⟨i.group, i.version, i.resource, i.namespace, i.name, none⟩

def json (r : TrackedResource) : Json :=
  record [
    ("group", some (.str r.group)),
    ("name", some (.str r.name)),
    ("namespace", some (.str r.namespace)),
    ("resource", some (.str r.resource)),
    ("uid", r.uid.map .str),
    ("version", some (.str r.version))]

def ofFields (fields : List (String × Json)) : Reading TrackedResource := do
  let group ← field? fields "group" asText
  let name ← field? fields "name" asText
  let «namespace» ← field? fields "namespace" asText
  let resource ← field? fields "resource" asText
  let uid ← optional fields "uid" asText
  let version ← field? fields "version" asText
  return {
    group := group.getD ""
    version := ← required "version" version
    resource := ← required "resource" resource
    «namespace» := «namespace».getD ""
    name := ← required "name" name
    uid }

def ofItems : Sequence TrackedResource := do
  let whole := "struct AppliedResourceMeta with 6 elements"
  let group ← next? asText
  let version ← next whole asText
  let resource ← next whole asText
  let «namespace» ← next? asText
  let name ← next whole asText
  let uid ← next? (asOption asText)
  return {
    group := group.getD "", version, resource, «namespace» := «namespace».getD "", name
    uid := uid.join }

def ofJson : Json → Reading TrackedResource :=
  asRecord "struct AppliedResourceMeta" ofFields ofItems

end TrackedResource

end MemberAgent
