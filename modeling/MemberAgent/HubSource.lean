import MemberAgent.Http.Wire
import MemberAgent.Kubeconfig.Secret

/-! Where access to the hub comes from: a file, a Secret on the member cluster, or the member
cluster itself, which then is the hub too. -/

namespace MemberAgent

inductive HubSource where
  | file (path : String)
  | secret («namespace» name : String)
  | memberCluster
  deriving DecidableEq, Repr

namespace HubSource

open Kubeconfig Http

/-- Secrets in a namespace of the member cluster. -/
def secretsIn («namespace» : String) : Endpoint where
  resource :=
    { group := "", version := "v1", apiVersion := "v1", kind := "Secret", plural := "secrets"
      namespaced := true }
  «namespace»

def access (files : Files) (member : Access) : HubSource → Program wire (Except Failure Access)
  | file path => return (ofFile files path).mapError Fault.failure
  | secret «namespace» name => do
    match ← (ask .member ((secretsIn «namespace»).get name) Secret.ofJson).run with
    | .error fault => return .error (.client fault)
    | .ok found =>
      return do (ofText (← ofSecret found)).mapError Fault.failure
  | memberCluster => return .ok member

end HubSource

end MemberAgent
