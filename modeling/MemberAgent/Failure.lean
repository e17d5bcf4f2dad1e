import MemberAgent.Json.Location

/-! What can go wrong in a reconcile, how it is worded, whether trying again may help, and what happens
after a reconcile, be it a failed one or not. -/

namespace MemberAgent

/-- How a server refuses a request. -/
structure ApiStatus where
  status : String
  message : String
  reason : String
  code : Nat
  deriving DecidableEq

/-- Why a client call fails. An address is a path that the server itself gave. -/
inductive ClientFault where
  | api (status : ApiStatus)
  | unreadable (error : TextError)
  | emptyName
  | invalidUri
  | invalidAddress
  | transport (text : String)
  | emptyGroup (group : String)
  | tlsRequired
  deriving DecidableEq

inductive Failure where
  | client (fault : ClientFault)
  | decode (ordinal : Nat) (message : String)
  | unmappable (apiVersion kind : String)
  | consistency (work message : String)
  | deletion (failures : List String)
  | serialization (message : String)
  | timeout (context : String) (seconds : Nat)
  | internal (context message : String)
  deriving DecidableEq

def ApiStatus.text (s : ApiStatus) : String :=
  s!"{s.message}: {s.reason} (ErrorResponse \x7b status: {Text.quoted s.status}, " ++
    s!"message: {Text.quoted s.message}, reason: {Text.quoted s.reason}, code: {s.code} \x7d)"

def ClientFault.message : ClientFault → String
  | api status => s!"ApiError: {status.text}"
  | unreadable error => s!"Error deserializing response: {error.message}"
  | emptyName =>
    "Failed to build request: failed to validate request: A non-empty name is required"
  | invalidUri => "Failed to build request: failed to build request: invalid uri character"
  | invalidAddress => "HttpError: invalid uri character"
  | transport text => s!"ServiceError: {text}"
  | emptyGroup group => s!"Error from discovery: Empty Api Group: {group}"
  | tlsRequired => "TLS required but no TLS stack selected"

namespace Failure

def message : Failure → String
  | client fault => s!"kubernetes error: {fault.message}"
  | decode ordinal message => s!"failed to decode manifest {ordinal}: {message}"
  | unmappable apiVersion kind => s!"no resource mapping for {kind} in {apiVersion}"
  | consistency work message => s!"consistency error for {work}: {message}"
  | deletion failures =>
    let causes := String.intercalate "; " failures
    s!"failed to delete {failures.length} stale resource(s): {causes}"
  | serialization message => s!"serialization error: {message}"
  | timeout context seconds => s!"timed out after {seconds}s [{context}]"
  | internal context message => s!"internal error [{context}]: {message}"

/-- A conflict goes away with the next read, other refusals of the request itself do not; a
malformed manifest needs a new one. -/
def retryable : Failure → Bool
  | client (.api s) => s.code = 409 || !(400 ≤ s.code && s.code < 500)
  | decode .. => false
  | serialization _ => false
  | _ => true

/-- The reason under which the failure is reported as a condition. -/
def reason : Failure → String
  | decode .. => "ManifestDecodeFailed"
  | unmappable .. => "UnmappableKind"
  | _ => "AppliedManifestFailed"

def code? : Failure → Option Nat
  | client (.api s) => some s.code
  | _ => none

def isNotFound (f : Failure) : Bool := f.code? = some 404

def isAlreadyExists : Failure → Bool
  | client (.api s) => s.code = 409 && s.reason = "AlreadyExists"
  | _ => false

/-- A stale version or a failed precondition. -/
def isConflict (f : Failure) : Bool := f.code? = some 409 && !f.isAlreadyExists

/-- The answer of a server that refuses a request. -/
def refused (code : Nat) (reason message : String) : Failure :=
  client (.api { status := "Failure", message, reason, code })

/-- A value that does not have the shape it should have. -/
def ofReadError (e : ReadError) : Failure := serialization e.message

end Failure

inductive Action where
  | awaitChange
  | requeue (seconds : Nat)
  deriving DecidableEq, Repr

/-- What all reconciles have in common: where the Works of this cluster are, and how often
everything is looked at again. -/
structure Settings where
  workNamespace : String := "cluster1"
  resyncSeconds : Nat := 60

/-- The delay before a failed reconcile is tried again. -/
def failureRequeueSeconds : Nat := 5

/-- A disagreement between a Work and its record needs an operator, so it can wait. -/
def actionOnFailure (settings : Settings) : Failure → Action
  | .consistency .. => .requeue settings.resyncSeconds
  | _ => .requeue failureRequeueSeconds

end MemberAgent
