import MemberAgent.Work.Resource

/-! Kinds, and the resources under which a cluster serves them. -/

namespace MemberAgent

open Json

/-- A kind by its exact name. -/
structure Kind where
  group : String
  version : String
  kind : String
  deriving DecidableEq

namespace Kind

instance : Ord Kind where
  compare := compareLex (compareOn Kind.group) <|
    compareLex (compareOn Kind.version) (compareOn Kind.kind)

instance : Std.TransOrd Kind :=
  show Std.TransCmp (compareLex _ (compareLex _ _)) from inferInstance

end Kind

/-- The kind under which a declared resource is looked up. -/
def ResourceIdentifier.lookupKind (i : ResourceIdentifier) : Kind := ⟨i.group, i.version, i.kind⟩

/-- The resource that a kind maps to. -/
structure ResourceMapping where
  group : String
  version : String
  apiVersion : String
  kind : String
  plural : String
  namespaced : Bool
  deriving DecidableEq

namespace ResourceMapping

def lookedUpAs (m : ResourceMapping) : Kind := ⟨m.group, m.version, m.kind⟩

/-- The resource of a tracked entry: it is in a namespace if the entry names one, and its kind does
not matter. -/
def ofTracked (r : TrackedResource) : ResourceMapping where
  group := r.group
  version := r.version
  apiVersion := joinApiVersion r.group r.version
  kind := ""
  plural := r.resource
  namespaced := !r.namespace.isEmpty

def json (m : ResourceMapping) : Json :=
  record [
    ("apiVersion", some (.str m.apiVersion)),
    ("group", some (.str m.group)),
    ("kind", some (.str m.kind)),
    ("namespaced", some (.bool m.namespaced)),
    ("plural", some (.str m.plural)),
    ("version", some (.str m.version))]

end ResourceMapping

end MemberAgent
