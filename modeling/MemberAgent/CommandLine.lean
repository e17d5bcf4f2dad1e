import MemberAgent.HubSource
import MemberAgent.Logging.Event
import MemberAgent.Text.Basic

/-! The command line of the agent. Options are read from left to right; what is not given there may
come from the environment, and what is in neither has a default. The first thing that is wrong is
reported. -/

namespace MemberAgent.CommandLine

/-- Why a command line does not start the agent, two wishes included that are no mistakes. -/
inductive Stop where
  | missingRequired
  | invalidValue
  | valueValidation
  | conflict
  | unknownArgument
  | tooManyValues
  | help
  | version
  deriving DecidableEq, Repr

inductive Flag where
  | crd
  | installCrds
  | hubKubeconfig
  | hubKubeconfigSecret
  | hubKubeconfigSecretNamespace
  | workNamespace
  | resyncIntervalSecs
  | reconcileTimeoutSecs
  | logFormat
  | help
  | version
  deriving DecidableEq, Repr

namespace Flag

/-- All flags that are options, in the order in which the environment is searched for them. -/
def options : List Flag := [crd, installCrds, hubKubeconfig, hubKubeconfigSecret,
  hubKubeconfigSecretNamespace, workNamespace, resyncIntervalSecs, reconcileTimeoutSecs, logFormat]

def name : Flag → String
  | crd => "crd"
  | installCrds => "install-crds"
  | hubKubeconfig => "hub-kubeconfig"
  | hubKubeconfigSecret => "hub-kubeconfig-secret"
  | hubKubeconfigSecretNamespace => "hub-kubeconfig-secret-namespace"
  | workNamespace => "work-namespace"
  | resyncIntervalSecs => "resync-interval-secs"
  | reconcileTimeoutSecs => "reconcile-timeout-secs"
  | logFormat => "log-format"
  | help => "help"
  | version => "version"

def ofName? (name : String) : Option Flag :=
  (options ++ [help, version]).find? fun f => f.name = name

def ofLetter? : Char → Option Flag
  | 'h' => some help
  | 'V' => some version
  | _ => none

def takesValue : Flag → Bool
  | crd | installCrds | help | version => false
  | _ => true

/-- The variable that stands in for an option. -/
def environmentName : Flag → Option String
  | installCrds => some "INSTALL_CRDS"
  | hubKubeconfig => some "HUB_KUBECONFIG"
  | hubKubeconfigSecret => some "HUB_KUBECONFIG_SECRET"
  | hubKubeconfigSecretNamespace => some "HUB_KUBECONFIG_SECRET_NAMESPACE"
  | workNamespace => some "WORK_NAMESPACE"
  | resyncIntervalSecs => some "RESYNC_INTERVAL_SECS"
  | reconcileTimeoutSecs => some "RECONCILE_TIMEOUT_SECS"
  | logFormat => some "LOG_FORMAT"
  | crd | help | version => none

end Flag

/-- A number of seconds, at least one. -/
def seconds? (s : String) : Option Nat := (Text.natural64? s).filter fun n => 1 ≤ n

/-- Whether a value may be given to an option. -/
def check (flag : Flag) (value : String) : Except Stop Unit :=
  match flag with
  | .crd | .installCrds =>
    if value = "true" ∨ value = "false" then .ok () else .error .invalidValue
  | .hubKubeconfig => if value.isEmpty then .error .invalidValue else .ok ()
  | .resyncIntervalSecs | .reconcileTimeoutSecs =>
    if (seconds? value).isSome then .ok () else .error .valueValidation
  | .logFormat =>
    if (Logging.Format.ofName? value).isSome then .ok () else .error .valueValidation
  | _ => .ok ()

/-- The values of the options seen so far. -/
abbrev Given := List (Flag × String)

/-- Takes note of an option, which can be given once. -/
def give (given : Given) (flag : Flag) (value : String) : Except Stop Given := do
  if (given.lookup flag).isSome then throw .conflict
  check flag value
  return given ++ [(flag, value)]

/-- An option that waits for the next argument, or has just been given its value. -/
structure Open where
  flag : Flag
  value : Option String

/-- Closes an option, which cannot be without its value. -/
def close (given : Given) : Option Open → Except Stop Given
  | none => .ok given
  | some ⟨_, none⟩ => .error .invalidValue
  | some ⟨flag, some value⟩ => give given flag value

/-- Takes note of a flag without a value. -/
def switch (given : Given) : Flag → Except Stop Given
  | .help => .error .help
  | .version => .error .version
  | flag => give given flag "true"

/-- The letters of an argument with one dash. -/
def letters (given : Given) : List Char → Except Stop Given
  | [] => .ok given
  | c :: rest => match Flag.ofLetter? c with
    | none => .error .unknownArgument
    | some flag => do letters (← switch given flag) rest

/-- An argument with two dashes: the flag, and the value after an equals sign. -/
def split (body : List Char) : String × Option String :=
  let name := body.takeWhile (· != '=')
  match body.drop name.length with
  | [] => (String.ofList name, none)
  | _ :: value => (String.ofList name, some (String.ofList value))

/-- Goes through the arguments. An option that is not closed when a wrong argument comes does not
matter any more. -/
def scan (given : Given) (pending : Option Open) : List String → Except Stop Given
  | [] => close given pending
  | arg :: rest => match arg.toList with
    | ['-', '-'] => if rest.isEmpty then close given pending else .error .unknownArgument
    | '-' :: '-' :: body =>
      let (name, value) := split body
      match Flag.ofName? name with
      | none => .error .unknownArgument
      | some flag =>
        match flag.takesValue, value with
        | true, none => do scan (← close given pending) (some ⟨flag, none⟩) rest
        | true, some value => do scan (← give (← close given pending) flag value) none rest
        | false, none => do scan (← switch (← close given pending) flag) none rest
        | false, some _ => .error .tooManyValues
    | '-' :: c :: body =>
      if (Flag.ofLetter? c).isNone then .error .unknownArgument
      else do scan (← letters (← close given pending) (c :: body)) none rest
    | _ => match pending with
      | some ⟨flag, none⟩ => scan given (some ⟨flag, some arg⟩) rest
      | _ => .error .unknownArgument

/-- Fills in what the environment says about options that are not given. -/
def fill (environment : Table String String) (given : Given) : List Flag → Except Stop Given
  | [] => .ok given
  | flag :: rest =>
    match (given.lookup flag), flag.environmentName.bind fun v => environment.get? v with
    | none, some value => do fill environment (← give given flag value) rest
    | _, _ => fill environment given rest

structure Options where
  crd : Bool
  installCrds : Bool
  hubKubeconfig : Option String
  hubKubeconfigSecret : Option String
  hubKubeconfigSecretNamespace : String
  workNamespace : Option String
  resyncIntervalSecs : Nat
  reconcileTimeoutSecs : Nat
  logFormat : Logging.Format
  deriving DecidableEq, Repr

/-- The namespace in which a Secret is looked for that is named without one. -/
def defaultSecretNamespace : String := "work"

def defaultResyncSeconds : Nat := 60

def defaultTimeoutSeconds : Nat := 30

def Options.ofGiven (given : Given) : Options where
  crd := given.lookup .crd = some "true"
  installCrds := given.lookup .installCrds = some "true"
  hubKubeconfig := given.lookup .hubKubeconfig
  hubKubeconfigSecret := given.lookup .hubKubeconfigSecret
  hubKubeconfigSecretNamespace :=
    (given.lookup .hubKubeconfigSecretNamespace).getD defaultSecretNamespace
  workNamespace := given.lookup .workNamespace
  resyncIntervalSecs := ((given.lookup .resyncIntervalSecs).bind seconds?).getD defaultResyncSeconds
  reconcileTimeoutSecs :=
    ((given.lookup .reconcileTimeoutSecs).bind seconds?).getD defaultTimeoutSeconds
  logFormat := ((given.lookup .logFormat).bind Logging.Format.ofName?).getD .json

/-- A file takes precedence over a Secret. -/
def Options.hubSource (o : Options) : HubSource :=
  match o.hubKubeconfig, o.hubKubeconfigSecret with
  | some path, _ => .file path
  | none, some name => .secret o.hubKubeconfigSecretNamespace name
  | none, none => .memberCluster

/-- The hub is named in one way at most, and only who wants to see the definitions needs no
namespace of Works. -/
def validate (given : Given) : Except Stop Options := do
  if (given.lookup .hubKubeconfig).isSome ∧ (given.lookup .hubKubeconfigSecret).isSome then
    throw .conflict
  if (given.lookup .workNamespace).isNone ∧ (given.lookup .crd).isNone then
    throw .missingRequired
  return .ofGiven given

def parse (args : List String) (environment : Table String String) : Except Stop Options := do
  let given ← scan [] none args
  validate (← fill environment given Flag.options)

end MemberAgent.CommandLine
