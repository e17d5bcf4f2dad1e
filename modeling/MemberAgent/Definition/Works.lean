import MemberAgent.Definition.CustomResource
import MemberAgent.Http.Endpoint
import MemberAgent.Yaml.Writer

/-! The definitions of Works, which the hub serves, and of their records, which the member cluster
serves. -/

namespace MemberAgent.Definition

open Schema

def conditionSchema : Schema :=
  (object [
    ("lastTransitionTime", time.withDescription "Last time the condition transitioned"),
    ("message", text.withDescription "Human-readable message"),
    ("observedGeneration", integer.orNull.withDescription
      "Generation of the object this condition was computed from"),
    ("reason", text.withDescription "Machine-readable reason for the condition"),
    ("status", (word ["True", "False", "Unknown"]).withDescription
      "Status of the condition (True, False, Unknown)"),
    ("type", text.withDescription "Type of condition (e.g., Applied)")]
    ["lastTransitionTime", "message", "reason", "status", "type"]).withDescription
    "Kubernetes-style condition for status reporting"

/-- A text that is empty when it is left out. -/
def textOrEmpty (description : String) : Schema :=
  (text.withDefault (.str "")).withDescription description

/-- A list that is empty when it is left out. -/
def listOrEmpty (description : String) (item : Schema) : Schema :=
  ((listOf item).withDefault (.arr [])).withDescription description

def identifierSchema : Schema :=
  object [
    ("group", textOrEmpty "API group (empty for the core group)"),
    ("kind", textOrEmpty "Kind as written in the manifest"),
    ("name", textOrEmpty "Object name"),
    ("namespace", textOrEmpty
      "Namespace on the member cluster; empty for cluster-scoped resources"),
    ("ordinal", natural.withDescription "Position of the manifest in `spec.workload.manifests`"),
    ("resource", textOrEmpty
      "Plural resource name from discovery; empty if the kind could not be mapped"),
    ("version", textOrEmpty "API version")]
    ["ordinal"]

def manifestConditionSchema : Schema :=
  (object [
    ("conditions", listOrEmpty "Conditions for this manifest, at minimum `Applied`"
      conditionSchema),
    ("identifier", identifierSchema.withDescription "Which manifest (and which resource) this is")]
    ["identifier"]).withDescription "Apply outcome of one manifest"

def workSpecSchema : Schema :=
  (object [
    ("workload", ((object [
      ("manifests", listOrEmpty "Raw manifests; a manifest's position is its ordinal" anyObject)]
      []).withDefault (Json.ofFields [("manifests", .arr [])])).withDescription
      "Manifests to apply on the member cluster")]
    []).withDescription <|
    "Specification for a Work\n\nManifests are kept as raw documents; they are decoded and " ++
      "resolved against the member cluster's discovery data only when applied."

def workStatusSchema : Schema :=
  (object [
    ("conditions", listOrEmpty "Aggregate conditions for the whole Work" conditionSchema),
    ("manifestConditions", listOrEmpty "Per-manifest outcomes, indexed by ordinal"
      manifestConditionSchema)]
    []).withDescription "Status for a Work"

def trackedResourceSchema : Schema :=
  (object [
    ("group", textOrEmpty "API group (empty for the core group)"),
    ("name", text.withDescription "Object name"),
    ("namespace", textOrEmpty "Namespace, empty for cluster-scoped resources"),
    ("resource", text.withDescription "Plural resource name"),
    ("uid", text.orNull.withDescription "UID observed for the live object, if known"),
    ("version", text.withDescription "API version")]
    ["name", "resource", "version"]).withDescription "One resource the Work has applied"

def appliedWorkSpecSchema : Schema :=
  (object [
    ("workName", text.withDescription "Name of the Work on the hub"),
    ("workNamespace", text.withDescription "Namespace of the Work on the hub")]
    ["workName", "workNamespace"]).withDescription <|
    "Specification for an AppliedWork\n\nCluster-scoped and named after its Work. Every " ++
      "resource applied for the Work carries an owner reference to this object, so deleting it " ++
      "with foreground propagation lets the cluster's garbage collector remove them."

def appliedWorkStatusSchema : Schema :=
  (object [
    ("appliedResources", listOrEmpty
      "Resources currently live on this cluster because of the Work" trackedResourceSchema)]
    []).withDescription "Status for an AppliedWork"

/-- The definition of a resource that is served under `mapping`. -/
def define (mapping : ResourceMapping) (singular : String) (columns : List Column)
    (spec status : Schema) : CustomResource where
  group := mapping.group
  version := mapping.version
  kind := mapping.kind
  singular
  plural := mapping.plural
  namespaced := mapping.namespaced
  columns
  description := s!"Auto-generated derived type for {mapping.kind}Spec via `CustomResource`"
  spec
  status

def works : CustomResource :=
  define Work.resource "work" [ageColumn] workSpecSchema workStatusSchema

def appliedWorks : CustomResource :=
  define AppliedWork.resource "appliedwork" [⟨"Work", "string", ".spec.workName"⟩, ageColumn]
    appliedWorkSpecSchema appliedWorkStatusSchema

/-- Both definitions as documents of one text. -/
def documents : String :=
  String.join ([works, appliedWorks].map fun r => "---\n" ++ Yaml.text r.json)

end MemberAgent.Definition
