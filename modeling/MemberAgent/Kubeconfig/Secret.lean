import MemberAgent.Discovery.Listing
import MemberAgent.Kubeconfig.Access
import MemberAgent.Object.Metadata
import MemberAgent.Text.Base64
import MemberAgent.Text.Utf8

/-! Secrets, in one of which a kubeconfig may be kept. -/

namespace MemberAgent

open Json Discovery

structure Secret where
  metadata : ObjectMeta := {}
  data : Option (Table String (List UInt8)) := none
  stringData : Option (Table String String) := none

namespace Secret

/-- Bytes, as Base64 writes them; null is no bytes. -/
def asBytes : Json → Reading (List UInt8)
  | .null => .ok []
  | .str s => match Base64.decode s with
    | some bytes => .ok bytes
    | none => fault .notBase64
  | j => fault (.wrongType j "a base64-encoded string")

def ofJson : Json → Reading Secret :=
  asFields "Secret" fun fields => do
    fixedText fields "apiVersion" "v1"
    let data ← optional fields "data" (asTable asBytes)
    discard <| optional fields "immutable" asBool
    fixedText fields "kind" "Secret"
    let metadata ← optional fields "metadata" ObjectMeta.ofJson
    let stringData ← optional fields "stringData" (asTable asText)
    discard <| optional fields "type" asText
    return { metadata := metadata.getD {}, data, stringData }

end Secret

namespace Kubeconfig

/-- The key under which a Secret holds a kubeconfig. -/
def secretKey : String := "kubeconfig"

/-- The kubeconfig in a Secret: its bytes if they are there, otherwise its text. -/
def ofSecret (secret : Secret) : Except Failure String :=
  let name := secret.metadata.name.getD ""
  let bytes := secret.data.bind fun d => d.get? secretKey
  let text := secret.stringData.bind fun d => d.get? secretKey
  match bytes, text with
  | some bytes, _ => (Utf8.decode bytes).mapError fun e =>
    .internal "hub_client" s!"secret {name} kubeconfig is not UTF-8: {e.message}"
  | none, some text => .ok text
  | none, none => .error (.internal "hub_client" s!"secret {name} has no '{secretKey}' key")

end Kubeconfig

end MemberAgent
