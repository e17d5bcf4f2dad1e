import MemberAgent.Definition.Works
import MemberAgent.Discovery.Listing
import MemberAgent.Http.Wire
import MemberAgent.Object.Metadata

/-! Installing the definitions: each cluster gets the one that it serves, and what others wrote into
it is overruled. -/

namespace MemberAgent.Definition

open Json Discovery

/-- Under which name the agent answers for the fields that it writes. -/
def fieldManager : String := "fleetwork-agent"

def endpoint : Http.Endpoint where
  resource :=
    { group := "apiextensions.k8s.io"
      version := "v1"
      apiVersion := "apiextensions.k8s.io/v1"
      kind := "CustomResourceDefinition"
      plural := "customresourcedefinitions"
      namespaced := false }
  «namespace» := ""

/-- The request that states a definition. -/
def applyRequest (r : CustomResource) : Http.Prepared :=
  (Http.prepare .patch
      s!"{endpoint.path}/{r.name}?force=true&fieldManager={fieldManager}").withBody
    .applyPatch r.json

/-- The definition that the server answers with is read and not used. -/
def readDefinition : Json → Reading Unit :=
  asFields "CustomResourceDefinition" fun fields => do
    fixedText fields "apiVersion" "apiextensions.k8s.io/v1"
    fixedText fields "kind" "CustomResourceDefinition"
    discard <| optional fields "metadata" ObjectMeta.ofJson
    discard <| optional fields "spec" readSpec
    discard <| optional fields "status" readStatus
where
  readNames : Json → Reading Unit :=
    asFields "CustomResourceDefinitionNames" fun fields => do
      discard <| listOf fields "categories" asText
      discard <| textOf fields "kind"
      discard <| textOf fields "listKind"
      discard <| textOf fields "plural"
      discard <| listOf fields "shortNames" asText
      discard <| textOf fields "singular"
  readVersion : Json → Reading Unit :=
    asFields "CustomResourceDefinitionVersion" fun fields => do
      discard <| optional fields "deprecated" asBool
      discard <| optional fields "deprecationWarning" asText
      discard <| textOf fields "name"
      discard <| optional fields "served" asBool
      discard <| optional fields "storage" asBool
  readSpec : Json → Reading Unit :=
    asFields "CustomResourceDefinitionSpec" fun fields => do
      discard <| textOf fields "group"
      discard <| optional fields "names" readNames
      discard <| optional fields "preserveUnknownFields" asBool
      discard <| textOf fields "scope"
      discard <| listOf fields "versions" readVersion
  readStatus : Json → Reading Unit :=
    asFields "CustomResourceDefinitionStatus" fun fields => do
      discard <| optional fields "acceptedNames" readNames
      discard <| listOf fields "storedVersions" asText

/-- The name of the definition that could not be installed, and why. -/
structure InstallFailure where
  name : String
  fault : ClientFault

def InstallFailure.message (f : InstallFailure) : String :=
  s!"failed to install {f.name} CRD: {f.fault.message}"

def install (cluster : Cluster) (r : CustomResource) :
    Program Http.wire (Except InstallFailure Unit) := do
  let answer ← (Http.ask cluster (applyRequest r) readDefinition).run
  return answer.mapError fun fault => ⟨r.name, fault⟩

/-- Installs Works on the hub, then their records on the member cluster. -/
def installAll : Program Http.wire (Except InstallFailure Unit) :=
  ExceptT.run do
    ExceptT.mk (install .hub works)
    ExceptT.mk (install .member appliedWorks)

end MemberAgent.Definition
