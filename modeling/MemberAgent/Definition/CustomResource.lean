import MemberAgent.Definition.Schema

/-! Definitions of custom resources: the documents that make an API server serve a kind of its
own. -/

namespace MemberAgent.Definition

open Json

/-- A column that lists of the objects show. -/
structure Column where
  name : String
  type : String
  path : String

def Column.json (c : Column) : Json :=
  record [
    ("jsonPath", some (.str c.path)),
    ("name", some (.str c.name)),
    ("type", some (.str c.type))]

def ageColumn : Column := ⟨"Age", "date", ".metadata.creationTimestamp"⟩

structure CustomResource where
  group : String
  version : String
  kind : String
  singular : String
  plural : String
  namespaced : Bool
  columns : List Column
  description : String
  spec : Schema
  status : Schema

namespace CustomResource

def name (r : CustomResource) : String := s!"{r.plural}.{r.group}"

/-- The schema of a whole object. A specification is required, a status is not. -/
def schema (r : CustomResource) : Schema :=
  ("title", .str r.kind) ::
    ((Schema.object [("spec", r.spec), ("status", r.status.orNull)] ["spec"]).withDescription
      r.description)

def versionJson (r : CustomResource) : Json :=
  record [
    ("additionalPrinterColumns", some (.arr (r.columns.map Column.json))),
    ("name", some (.str r.version)),
    ("schema", some (record [("openAPIV3Schema", some r.schema.json)])),
    ("served", some (.bool true)),
    ("storage", some (.bool true)),
    ("subresources", some (record [("status", some (record []))]))]

def namesJson (r : CustomResource) : Json :=
  record [
    ("categories", some (.arr [])),
    ("kind", some (.str r.kind)),
    ("plural", some (.str r.plural)),
    ("shortNames", some (.arr [])),
    ("singular", some (.str r.singular))]

def json (r : CustomResource) : Json :=
  record [
    ("apiVersion", some (.str "apiextensions.k8s.io/v1")),
    ("kind", some (.str "CustomResourceDefinition")),
    ("metadata", some (record [("name", some (.str r.name))])),
    ("spec", some <| record [
      ("group", some (.str r.group)),
      ("names", some r.namesJson),
      ("scope", some (.str (if r.namespaced then "Namespaced" else "Cluster"))),
      ("versions", some (.arr [r.versionJson]))])]

end CustomResource

end MemberAgent.Definition
