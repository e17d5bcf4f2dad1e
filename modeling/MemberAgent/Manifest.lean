import MemberAgent.Client

/-! Manifests: raw documents that declare one object each. A manifest is decoded, then its kind is
looked up on the member cluster, which settles where the object lives. -/

namespace MemberAgent

/-- Why a document is no manifest. -/
inductive DecodeFault where
  | notObject (document : Json)
  | misread (error : ReadError)
  | noKind
  | noName

def Json.article : Json → String
  | .null => "null"
  | .bool _ => "a boolean"
  | .int _ | .float _ => "a number"
  | .str _ => "a string"
  | .arr _ => "an array"
  | .obj _ => "an object"

def DecodeFault.message : DecodeFault → String
  | notObject document => s!"manifest must be an object, found {document.article}"
  | misread error => error.message
  | noKind => "missing apiVersion or kind"
  | noName => "missing metadata.name"

namespace Manifest

/-- The namespace of namespaced objects whose manifest names none. -/
def defaultNamespace : String := "default"

/-- The object that a document declares: it has an API version, a kind and a name, none of them
empty. -/
def decode? (document : Json) : Except DecodeFault ApiObject := do
  if !document.isObject then throw (.notObject document)
  let object ← match ApiObject.ofJson document with
    | .ok object => pure object
    | .error e => throw (.misread e)
  match object.types with
  | none => throw .noKind
  | some types =>
    if types.apiVersion.isEmpty || types.kind.isEmpty then throw .noKind
    if (object.metadata.name.getD "").isEmpty then throw .noName
    return object

def decode (ordinal : Nat) (document : Json) : Except Failure ApiObject :=
  (decode? document).mapError fun fault => .decode ordinal fault.message

/-- A manifest whose resource is known, with the object's namespace as the resource needs it. -/
structure Resolved where
  object : ApiObject
  mapping : ResourceMapping
  identifier : ResourceIdentifier
  deriving DecidableEq

/-- A manifest whose resource is not known, with as much of its name as could be read. -/
structure Unresolved where
  identifier : ResourceIdentifier
  failure : Failure
  deriving DecidableEq

/-- The name of a decoded object, before its resource is known. -/
def identify (ordinal : Nat) (object : ApiObject) : ResourceIdentifier :=
  let types := object.types.getD ⟨"", ""⟩
  let (group, version) := splitApiVersion types.apiVersion
  { ordinal, group, version, kind := types.kind
    «namespace» := object.metadata.namespace.getD ""
    name := object.metadata.name.getD "" }

/-- Settles the namespace by the scope of the resource. -/
def place (object : ApiObject) (identifier : ResourceIdentifier) (mapping : ResourceMapping) :
    Resolved :=
  if mapping.namespaced then
    let «namespace» :=
      if identifier.namespace.isEmpty then defaultNamespace else identifier.namespace
    { object := { object with metadata := { object.metadata with «namespace» := some «namespace» } }
      mapping
      identifier := { identifier with resource := mapping.plural, «namespace» } }
  else
    { object := { object with metadata := { object.metadata with «namespace» := none } }
      mapping
      identifier := { identifier with resource := mapping.plural, «namespace» := "" } }

def resolve (ordinal : Nat) (document : Json) : Program clientCalls (Except Unresolved Resolved) :=
  match decode ordinal document with
  | .error failure => return .error { identifier := { ordinal }, failure }
  | .ok object => do
    let identifier := identify ordinal object
    let types := object.types.getD ⟨"", ""⟩
    match ← attempt (request (.findMapping (identifier.lookupKind))) with
    | .error failure => return .error { identifier, failure }
    | .ok none =>
      return .error { identifier, failure := .unmappable types.apiVersion types.kind }
    | .ok (some mapping) => return .ok (place object identifier mapping)

end Manifest

end MemberAgent
