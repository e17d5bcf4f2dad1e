import MemberAgent.Object.Metadata

/-! Objects of kinds that are not known beforehand: the kind's name and version, the metadata, and
all other fields as they came. -/

namespace MemberAgent

open Json

structure TypeMeta where
  apiVersion : String
  kind : String
  deriving DecidableEq

structure ApiObject where
  types : Option TypeMeta := none
  metadata : ObjectMeta := {}
  content : Table String Json := ∅
  deriving DecidableEq

namespace ApiObject

instance : Inhabited ApiObject := ⟨{}⟩

/-- The names that `types` takes out of an object: both when both are texts, otherwise as far as
reading came. -/
def typesOf (fields : List (String × Json)) : Option TypeMeta × List String :=
  match fields.lookup "apiVersion", fields.lookup "kind" with
  | some (.str apiVersion), some (.str kind) => (some ⟨apiVersion, kind⟩, ["apiVersion", "kind"])
  | some (.str _), _ => (none, ["apiVersion", "kind"])
  | some _, _ => (none, ["apiVersion"])
  | none, _ => (none, ["kind"])

def ofFields (fields : List (String × Json)) : Reading ApiObject := do
  let metadata ← field? fields "metadata" ObjectMeta.ofJson
  let (types, names) := typesOf fields
  let content := fields.filter fun f => f.1 ≠ "metadata" ∧ f.1 ∉ names
  return { types, metadata := metadata.getD {}, content := Table.ofList content }

def ofJson : Json → Reading ApiObject := asFields "struct DynamicObject" ofFields

/-- The fields of the object; the metadata is written even when it is empty. -/
def fields (o : ApiObject) : Table String Json :=
  let types := match o.types with
    | some t => [("apiVersion", Json.str t.apiVersion), ("kind", .str t.kind)]
    | none => []
  Table.ofList (types ++ ("metadata", o.metadata.json) :: o.content.toList)

def json (o : ApiObject) : Json := object o.fields

end ApiObject

end MemberAgent
