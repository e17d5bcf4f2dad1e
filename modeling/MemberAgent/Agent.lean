import MemberAgent.CommandLine
import MemberAgent.Definition.Install
import MemberAgent.Logging.Filter

/-! The start of the agent: it gains access to the member cluster and to the hub, and installs the
definitions if it is asked to. What it reports on the way is part of the answer. -/

namespace MemberAgent.Agent

open Kubeconfig Logging

/-- What the agent finds where it is started: the variables, the kubeconfig of the member cluster,
and files. -/
structure Surroundings where
  environment : Table String String
  kubeconfig : Option String
  files : Files

/-- Why the agent does not start. -/
inductive Obstacle where
  | noMember (fault : Fault)
  | noHub (failure : Failure)
  | notInstalled (failure : Definition.InstallFailure)

def Obstacle.message : Obstacle → String
  | noMember fault => s!"failed to create member cluster client: {fault.failure.message}"
  | noHub failure => s!"failed to create hub client: {failure.message}"
  | notInstalled failure => failure.message

/-- What a started agent works with. -/
structure Started where
  settings : Settings
  timeoutSeconds : Nat
  member : Access
  hub : Access

def startEvent («namespace» : String) : Event where
  level := .info
  target := "fleetwork_agent"
  message := "fleetwork agent starting..."
  fields := [("namespace", «namespace»)]

/-- What is reported before the hub is looked for. -/
def hubEvent (source : HubSource) : Event :=
  let target := "fleetwork_agent::hub"
  match source with
  | .file path =>
    { level := .info, target, message := "loading hub kubeconfig from file"
      fields := [("path", path)] }
  | .secret «namespace» name =>
    { level := .info, target, message := "loading hub kubeconfig from secret"
      fields := [("namespace", «namespace»), ("name", name)] }
  | .memberCluster =>
    { level := .info, target
      message := "no hub kubeconfig given, using the member cluster as hub" }

def installEvent (name : String) : Event where
  level := .info
  target := "fleetwork_agent::crds"
  message := "installing CRD"
  fields := [("crd", name)]

def installedEvent : Event where
  level := .info
  target := "fleetwork_agent::crds"
  message := "CRDs installed/updated"

/-- A program that reports events and may meet an obstacle. -/
abbrev Start := ExceptT Obstacle (StateT (List Event) (Program Http.wire))

def report (e : Event) : Start Unit := modify fun events => events ++ [e]

def install (cluster : Cluster) (r : Definition.CustomResource) : Start Unit := do
  report (installEvent r.name)
  match ← (Definition.install cluster r : Program Http.wire _) with
  | .ok () => return
  | .error failure => throw (.notInstalled failure)

/-- Starts the agent for the Works in a namespace. -/
def start (options : CommandLine.Options) (s : Surroundings) («namespace» : String) :
    Start Started := do
  report (startEvent «namespace»)
  let member ← match infer s.kubeconfig with
    | .ok member => pure member
    | .error fault => throw (.noMember fault)
  report (hubEvent options.hubSource)
  let hub ← match ← (options.hubSource.access s.files member : Program Http.wire _) with
    | .ok hub => pure hub
    | .error failure => throw (.noHub failure)
  if options.installCrds then
    install .hub Definition.works
    install .member Definition.appliedWorks
    report installedEvent
  return {
    settings := ⟨«namespace», options.resyncIntervalSecs⟩
    timeoutSeconds := options.reconcileTimeoutSecs, member, hub }

/-- How a run of the agent ends, with the lines that it has written by then. -/
inductive Outcome where
  | printed (text : String)
  | stopped (stop : CommandLine.Stop)
  | failed (log : List String) (message : String)
  | started (log : List String) (agent : Started)

/-- The lines of the events that the filter lets through. -/
def log (options : CommandLine.Options) (s : Surroundings) (events : List Event) : List String :=
  let filter := Filter.ofSetting (s.environment.get? "RUST_LOG")
  (events.filter filter.accepts).map (Event.line options.logFormat)

def run (args : List String) (s : Surroundings) : Program Http.wire Outcome := do
  match CommandLine.parse args s.environment with
  | .error stop => return .stopped stop
  | .ok options =>
    if options.crd then return .printed Definition.documents
    match options.workNamespace with
    | none => return .stopped .missingRequired
    | some «namespace» =>
      match ← ((start options s «namespace»).run).run [] with
      | (.ok agent, events) => return .started (log options s events) agent
      | (.error obstacle, events) =>
        return .failed (log options s events) s!"Error: {obstacle.message}"

end MemberAgent.Agent
