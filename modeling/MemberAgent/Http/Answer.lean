import MemberAgent.Failure
import MemberAgent.Http.Message

/-! What the response of an API server means: a refusal with its reason, or the object that was
asked for. -/

namespace MemberAgent

open Json

namespace ApiStatus

def ofFields (fields : List (String × Json)) : Reading ApiStatus := do
  let code ← field? fields "code" (asNat "u16" 16)
  let message ← field? fields "message" asText
  let reason ← field? fields "reason" asText
  let status ← field? fields "status" asText
  return {
    status := ← required "status" status
    message := message.getD ""
    reason := reason.getD ""
    code := ← required "code" code }

def ofItems : Sequence ApiStatus := do
  let whole := "struct ErrorResponse with 4 elements"
  let status ← next whole asText
  let message ← next? asText
  let reason ← next? asText
  let code ← next whole (asNat "u16" 16)
  return { status, message := message.getD "", reason := reason.getD "", code }

def ofJson : Json → Reading ApiStatus := asRecord "struct ErrorResponse" ofFields ofItems

end ApiStatus

/-- What a server says about a deletion when it does not show the deleted object. Nothing of it is
kept. -/
def readReport : Json → Reading Unit :=
  asRecord "struct Status"
    (fun fields => do
      discard <| field? fields "code" (asNat "u16" 16)
      discard <| optional fields "details" readDetails
      discard <| field? fields "message" asText
      discard <| field? fields "reason" asText
      discard <| optional fields "status" readSummary)
    (do
      discard <| next? (asOption readSummary)
      discard <| next? (asNat "u16" 16)
      discard <| next? asText
      discard <| next? asText
      discard <| next? (asOption readDetails))
where
  readSummary : Json → Reading Unit
    | .str s =>
      if s = "Success" ∨ s = "Failure" then .ok ()
      else fault (.unknownVariant s ["Success", "Failure"])
    | j => fault (.wrongType j "string or map")
  readCause : Json → Reading Unit :=
    asRecord "struct StatusCause"
      (fun fields => do
        discard <| field? fields "field" asText
        discard <| field? fields "message" asText
        discard <| field? fields "reason" asText)
      (do
        discard <| next? asText
        discard <| next? asText
        discard <| next? asText)
  readDetails : Json → Reading Unit :=
    asRecord "struct StatusDetails"
      (fun fields => do
        discard <| field? fields "causes" (asList readCause)
        discard <| field? fields "group" asText
        discard <| field? fields "kind" asText
        discard <| field? fields "name" asText
        discard <| field? fields "retryAfterSeconds" asNat32
        discard <| field? fields "uid" asText)
      (do
        discard <| next? asText
        discard <| next? asText
        discard <| next? asText
        discard <| next? asText
        discard <| next? (asList readCause)
        discard <| next? asNat32)

namespace Http

/-- Why a server refuses a request: what the body says, or the body itself if it does not say. -/
def Response.refusal (r : Response) : ApiStatus :=
  match Json.readText ApiStatus.ofJson r.body with
  | .ok status => status
  | .error _ =>
    { status := statusLine r.status
      message := Text.quoted r.body
      reason := "Failed to parse error data"
      code := r.status }

/-- The body of a response that grants the request. -/
def Reply.granted : Reply → Except ClientFault String
  | .error text => .error (.transport text)
  | .ok r => if r.isRefusal then .error (.api r.refusal) else .ok r.body

def readBody {α : Type} (read : Json → Reading α) (body : String) : Except ClientFault α :=
  (Json.readText read body).mapError .unreadable

/-- A deleted object, or none if the server only reports. -/
def readDeleted {α : Type} (read : Json → Reading α) (body : String) :
    Except ClientFault (Option α) := do
  let shown ← readBody asAny body
  if shown.get? "kind" = some (.str "Status") then
    readBody readReport body
    return none
  else some <$> readBody read body

end Http

end MemberAgent
