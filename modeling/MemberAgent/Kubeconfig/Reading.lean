import MemberAgent.Json.Reading
import MemberAgent.Yaml.Reader

/-! Kubeconfig documents: named clusters, users and contexts, and the name of the context to use. -/

namespace MemberAgent.Kubeconfig

open Json

/-- A cluster, as far as it matters for reaching it. -/
structure ClusterEntry where
  server : Option String
  proxyUrl : Option String

/-- A context pairs a cluster with a user and a namespace. -/
structure Context where
  cluster : String
  user : Option String
  «namespace» : Option String

/-- An entry under a name. Its content may be missing. -/
structure Named (α : Type) where
  name : String
  content : Option α

structure Document where
  kind : Option String := none
  apiVersion : Option String := none
  clusters : List (Named ClusterEntry) := []
  users : List (Named Unit) := []
  contexts : List (Named Context) := []
  currentContext : Option String := none

/-- Extensions have a name and any content. -/
def readExtensions : Json → Reading Unit := fun j =>
  discard <| asList (asFields "struct NamedExtension" fun fields => do
    required "extension" (← field? fields "extension" asAny) >>= fun _ => do
      discard <| required "name" (← field? fields "name" asText)) j

def ClusterEntry.ofJson : Json → Reading ClusterEntry :=
  asFields "struct Cluster" fun fields => do
    discard <| optional fields "certificate-authority" asText
    discard <| optional fields "certificate-authority-data" asText
    discard <| optional fields "disable-compression" asBool
    discard <| optional fields "extensions" readExtensions
    discard <| optional fields "insecure-skip-tls-verify" asBool
    let proxyUrl ← optional fields "proxy-url" asText
    let server ← optional fields "server" asText
    discard <| optional fields "tls-server-name" asText
    return { server, proxyUrl }

/-- How a user proves who it is does not matter before the first request. -/
def readUser : Json → Reading Unit :=
  asFields "struct AuthInfo" fun fields => do
    for key in ["as", "client-certificate", "client-certificate-data", "client-key",
        "client-key-data", "password", "token", "tokenFile", "username"] do
      discard <| optional fields key asText
    discard <| optional fields "as-groups" (asList asText)

def Context.ofJson : Json → Reading Context :=
  asFields "struct Context" fun fields => do
    let cluster ← field? fields "cluster" asText
    discard <| optional fields "extensions" readExtensions
    let «namespace» ← optional fields "namespace" asText
    let user ← optional fields "user" asText
    return { cluster := ← required "cluster" cluster, user, «namespace» }

/-- Reads an entry whose content is under `key`. -/
def Named.ofJson {α : Type} (expected key : String) (read : Json → Reading α) :
    Json → Reading (Named α) :=
  asFields expected fun fields => do
    let content ← optional fields key read
    let name ← field? fields "name" asText
    return { name := ← required "name" name, content }

def readPreferences : Json → Reading Unit :=
  asFields "struct Preferences" fun fields => do
    discard <| optional fields "colors" asBool
    discard <| optional fields "extensions" readExtensions

namespace Document

def ofFields (fields : List (String × Json)) : Reading Document := do
  let apiVersion ← optional fields "apiVersion" asText
  let clusters ← optional fields "clusters"
    (asList (Named.ofJson "struct NamedCluster" "cluster" ClusterEntry.ofJson))
  let contexts ← optional fields "contexts"
    (asList (Named.ofJson "struct NamedContext" "context" Context.ofJson))
  let currentContext ← optional fields "current-context" asText
  discard <| optional fields "extensions" readExtensions
  let kind ← optional fields "kind" asText
  discard <| optional fields "preferences" readPreferences
  let users ← optional fields "users" (asList (Named.ofJson "struct NamedAuthInfo" "user" readUser))
  return {
    kind, apiVersion, clusters := clusters.getD [], users := users.getD []
    contexts := contexts.getD [], currentContext }

def ofJson : Json → Reading Document := asFields "struct Kubeconfig" ofFields

end Document

/-- The entries of two lists; of two with one name the first counts. -/
def mergeNamed {α : Type} (first next : List (Named α)) : List (Named α) :=
  first ++ next.filter fun n => !first.any fun f => f.name = n.name

/-- Whether two statements, either of which may be missing, contradict each other. -/
def disagree (a b : Option String) : Bool :=
  match a, b with
  | some a, some b => a ≠ b
  | _, _ => false

namespace Document

def merge (first next : Document) : Except String Document :=
  if disagree first.kind next.kind then .error "the documents are of different kinds"
  else if disagree first.apiVersion next.apiVersion then
    .error "the documents are of different versions"
  else .ok {
    kind := first.kind <|> next.kind
    apiVersion := first.apiVersion <|> next.apiVersion
    clusters := mergeNamed first.clusters next.clusters
    users := mergeNamed first.users next.users
    contexts := mergeNamed first.contexts next.contexts
    currentContext := first.currentContext <|> next.currentContext }

/-- All documents of a text as one. -/
def ofText (text : String) : Except String Document := do
  let some documents := Yaml.documents text | throw "not a YAML document"
  let mut whole : Document := {}
  for j in documents do
    match ofJson j with
    | .error e => throw e.message
    | .ok next => whole ← merge whole next
  return whole

end Document

end MemberAgent.Kubeconfig
