import MemberAgent.Agent
import MemberAgent.CommandLine.Help

/-! The program: it starts the agent where it is called and writes what the agent reports. -/

open MemberAgent

namespace MemberAgent.Main

/-- The variables that the agent looks at. -/
def variableNames : List String :=
  CommandLine.Flag.options.filterMap CommandLine.Flag.environmentName ++ ["RUST_LOG"]

def environment : IO (Table String String) := do
  let found ← variableNames.filterMapM fun name => do
    return (← IO.getEnv name).map fun value => (name, value)
  return Table.ofList found

def readFile (path : String) : IO (Except String String) := do
  try
    return .ok (← IO.FS.readFile path)
  catch e => return .error (toString e)

/-- The only file that the agent may want to read besides its own kubeconfig. -/
def filesFor (args : List String) (environment : Table String String) : IO Kubeconfig.Files := do
  match CommandLine.parse args environment with
  | .ok { hubKubeconfig := some path, .. } =>
    let content ← readFile path
    return fun p => if p = path then content else .error "No such file"
  | _ => return fun _ => .error "No such file"

/-- The kubeconfig of the member cluster. -/
def kubeconfig : IO (Option String) := do
  match ← IO.getEnv "KUBECONFIG" with
  | none => return none
  | some path => return (← readFile path).toOption

def surroundings (args : List String) : IO Agent.Surroundings := do
  let environment ← environment
  return { environment, kubeconfig := ← kubeconfig, files := ← filesFor args environment }

/-- There is no way to a cluster from here, so every request fails. -/
def answer : (c : Http.WireCall) → IO c.Answer
  | .send .. => return .error "no route to the cluster"
  | .known => return none
  | .remember _ => return ()

def exitOn (environment : Table String String) : CommandLine.Stop → IO UInt32
  | .version => do
    IO.print CommandLine.versionText
    return 0
  | .help => do
    IO.print (CommandLine.helpText environment)
    return 0
  | _ => do
    IO.eprintln "error: the command line is not valid, see --help"
    return 2

end MemberAgent.Main

open MemberAgent.Main in
def main (args : List String) : IO UInt32 := do
  let surroundings ← surroundings args
  match ← (Agent.run args surroundings).run answer with
  | .printed text =>
    IO.print text
    return 0
  | .stopped stop => exitOn surroundings.environment stop
  | .failed log message =>
    log.forM IO.println
    IO.eprintln message
    return 1
  | .started log _ =>
    log.forM IO.println
    IO.eprintln "Error: no route to the clusters"
    return 1
