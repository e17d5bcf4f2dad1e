import MemberAgent.Failure
import MemberAgent.Kubeconfig.Reading

/-! From a kubeconfig to access to a cluster. Nothing is contacted; what is missing or cannot be
used is reported. -/

namespace MemberAgent.Kubeconfig

/-- Access to a cluster. Requests that name no namespace are meant for the default one. -/
structure Access where
  server : String
  defaultNamespace : String
  deriving DecidableEq, Repr

inductive Fault where
  | invalid (detail : String)
  | noCurrentContext
  | noContext (name : String)
  | noCluster (name : String)
  | noServer
  | badProxy (url : String)
  | unreadable (path cause : String)
  | nothingFound (detail : String)
  deriving DecidableEq, Repr

namespace Fault

def message : Fault → String
  | invalid detail => s!"invalid kubeconfig: {detail}"
  | noCurrentContext => "failed to load kubeconfig: failed to determine current context"
  | noContext name => s!"failed to load kubeconfig: failed to load current context: {name}"
  | noCluster name =>
    s!"failed to load kubeconfig: failed to load the cluster of context: {name}"
  | noServer => "failed to load kubeconfig: cluster url is missing on selected cluster"
  | badProxy url => s!"failed to create client: no support for the proxy {url}"
  | unreadable path cause => s!"failed to read kubeconfig {path}: {cause}"
  | nothingFound detail => s!"failed to infer config: {detail}"

def failure (f : Fault) : Failure := .internal "create_client" f.message

end Fault

/-- The namespace of contexts that name none. -/
def defaultNamespace : String := "default"

/-- The content of the first entry of a name. -/
def find {α : Type} (name : String) (entries : List (Named α)) : Option α :=
  (entries.find? fun e => e.name = name).bind Named.content

/-- The cluster and the namespace of the current context. -/
def Document.select (d : Document) : Except Fault (ClusterEntry × Access) := do
  let some current := d.currentContext | throw .noCurrentContext
  let some context := find current d.contexts | throw (.noContext current)
  let some cluster := find context.cluster d.clusters | throw (.noCluster context.cluster)
  let some server := cluster.server | throw .noServer
  return (cluster, ⟨server, context.namespace.getD defaultNamespace⟩)

/-- Access by the current context. A user that is not there is none; proxies are not supported. -/
def Document.access (d : Document) : Except Fault Access := do
  let (cluster, access) ← d.select
  match cluster.proxyUrl with
  | none | some "" => return access
  | some url => throw (.badProxy url)

def ofText (text : String) : Except Fault Access := do
  ((← (Document.ofText text).mapError .invalid)).access

/-- Files by their paths; one that cannot be read says why. -/
abbrev Files := String → Except String String

/-- The file that a path leads to, whose trouble is reported with the path. -/
def ofFile (files : Files) (path : String) : Except Fault Access := do
  match files path with
  | .error cause =>
    throw (.unreadable path s!"failed to read kubeconfig from '{Text.quoted path}': {cause}")
  | .ok text => ((← (Document.ofText text).mapError (.unreadable path))).access

/-- Access by the configuration that lies at hand, if there is one and it leads to a cluster. -/
def infer (text : Option String) : Except Fault Access :=
  match text with
  | none => .error (.nothingFound "there is no kubeconfig and this is no cluster")
  | some text => do
    let (cluster, access) ← ((Document.ofText text).mapError .nothingFound).bind fun d =>
      d.select.mapError fun f => .nothingFound f.message
    match cluster.proxyUrl with
    | none | some "" => return access
    | some url => throw (.badProxy url)

end MemberAgent.Kubeconfig
