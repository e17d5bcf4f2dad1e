import MemberAgent.CommandLine

/-! What the agent says about itself and its command line. -/

namespace MemberAgent.CommandLine

namespace Flag

def description : Flag → String
  | crd => "Print the Work and AppliedWork CRDs as YAML and exit"
  | installCrds => "Apply both CRDs to the hub and the member cluster at start-up"
  | hubKubeconfig => "Kubeconfig file for the hub cluster"
  | hubKubeconfigSecret =>
    "Secret on the member cluster whose \x60kubeconfig\x60 key points at the hub"
  | hubKubeconfigSecretNamespace => "Namespace of the hub kubeconfig Secret"
  | workNamespace => "Hub namespace holding this cluster's Works"
  | resyncIntervalSecs => "Interval between periodic resyncs, in seconds"
  | reconcileTimeoutSecs => "Deadline for a single reconcile, in seconds"
  | logFormat => "Log output format (json or text)"
  | help => "Print help"
  | version => "Print version"

/-- The value of an option that is given nowhere. -/
def defaultText : Flag → Option String
  | hubKubeconfigSecretNamespace => some defaultSecretNamespace
  | resyncIntervalSecs => some (toString defaultResyncSeconds)
  | reconcileTimeoutSecs => some (toString defaultTimeoutSeconds)
  | logFormat => some Logging.Format.json.name
  | _ => none

/-- A flag with what it takes: its letter stands before its name, its value after it. -/
def usage (f : Flag) : String :=
  let letter := match f with
    | help => "-h, "
    | version => "-V, "
    | _ => "    "
  let value := if f.takesValue then s!" <{f.environmentName.getD f.name}>" else ""
  s!"  {letter}--{f.name}{value}"

/-- Where the value of an option may come from if it is not given. -/
def sources (environment : Table String String) (f : Flag) : List String :=
  let variable_ := f.environmentName.map fun name =>
    let value := (environment.get? name).getD ""
    s!"[env: {name}={value}]"
  variable_.toList ++ (f.defaultText.map fun text => s!"[default: {text}]").toList

def helpLines (environment : Table String String) (f : Flag) : List String :=
  let described := String.intercalate " " (f.description :: f.sources environment)
  [f.usage, s!"          {described}"]

end Flag

def versionText : String := "fleetwork-agent 0.1.0\n"

def helpText (environment : Table String String) : String :=
  let flags := Flag.options ++ [Flag.help, Flag.version]
  let lines := flags.flatMap (Flag.helpLines environment)
  String.join <|
    (["fleetwork-agent - applies hub Work objects to this member cluster", "",
      "Usage: fleetwork-agent [OPTIONS]", "", "Options:"] ++ lines).map fun l => l ++ "\n"

end MemberAgent.CommandLine
