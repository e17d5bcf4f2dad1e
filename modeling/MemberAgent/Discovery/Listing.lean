import MemberAgent.Json.Reading

/-! What an API server tells about the kinds it serves: its groups, the versions of each group, and
the resources of each version. -/

namespace MemberAgent.Discovery

open Json

/-- A field that has to hold this text if it is there. -/
def fixedText (fields : List (String × Json)) (key expected : String) : Reading Unit := do
  match ← field? fields key asText with
  | none => return
  | some s =>
    if s ≠ expected then within (.key key) (fault (.wrongValue (.str s) expected))

/-- A field that may be absent or null, and then is empty. -/
def textOf (fields : List (String × Json)) (key : String) : Reading String := do
  return (← optional fields key asText).getD ""

def listOf {α : Type} (fields : List (String × Json)) (key : String) (read : Json → Reading α) :
    Reading (List α) := do
  return (← optional fields key (asList read)).getD []

/-- A version of a group, and the name under which it is served. -/
structure GroupVersion where
  groupVersion : String
  version : String

def GroupVersion.ofJson : Json → Reading GroupVersion :=
  asFields "GroupVersionForDiscovery" fun fields => do
    let groupVersion ← textOf fields "groupVersion"
    let version ← textOf fields "version"
    return { groupVersion, version }

/-- The addresses at which clients reach a server are not used here. -/
def readAddress : Json → Reading Unit :=
  asFields "ServerAddressByClientCIDR" fun fields => do
    discard <| textOf fields "clientCIDR"
    discard <| textOf fields "serverAddress"

structure Group where
  name : String
  versions : List GroupVersion

def Group.ofJson : Json → Reading Group :=
  asFields "APIGroup" fun fields => do
    fixedText fields "apiVersion" "v1"
    fixedText fields "kind" "APIGroup"
    let name ← textOf fields "name"
    discard <| optional fields "preferredVersion" GroupVersion.ofJson
    discard <| listOf fields "serverAddressByClientCIDRs" readAddress
    let versions ← listOf fields "versions" GroupVersion.ofJson
    return { name, versions }

def readGroups : Json → Reading (List Group) :=
  asFields "APIGroupList" fun fields => do
    fixedText fields "apiVersion" "v1"
    let groups ← listOf fields "groups" Group.ofJson
    fixedText fields "kind" "APIGroupList"
    return groups

/-- The versions of the group without a name. -/
def readCoreVersions : Json → Reading (List String) :=
  asFields "APIVersions" fun fields => do
    fixedText fields "apiVersion" "v1"
    fixedText fields "kind" "APIVersions"
    discard <| listOf fields "serverAddressByClientCIDRs" readAddress
    listOf fields "versions" asText

/-- A resource, with its group and version where they are not those of the list it is in. -/
structure ListedResource where
  name : String
  kind : String
  namespaced : Bool
  group : Option String
  version : Option String

def ListedResource.ofJson : Json → Reading ListedResource :=
  asFields "APIResource" fun fields => do
    discard <| listOf fields "categories" asText
    let group ← optional fields "group" asText
    let kind ← textOf fields "kind"
    let name ← textOf fields "name"
    let namespaced ← optional fields "namespaced" asBool
    discard <| listOf fields "shortNames" asText
    discard <| textOf fields "singularName"
    discard <| textOf fields "storageVersionHash"
    discard <| listOf fields "verbs" asText
    let version ← optional fields "version" asText
    return { name, kind, namespaced := namespaced.getD false, group, version }

structure ResourceList where
  groupVersion : String
  resources : List ListedResource

def ResourceList.ofJson : Json → Reading ResourceList :=
  asFields "APIResourceList" fun fields => do
    fixedText fields "apiVersion" "v1"
    let groupVersion ← textOf fields "groupVersion"
    fixedText fields "kind" "APIResourceList"
    let resources ← listOf fields "resources" ListedResource.ofJson
    return { groupVersion, resources }

end MemberAgent.Discovery
