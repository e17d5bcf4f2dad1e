import MemberAgent.Json.Reading

/-! Conditions: named statements about an object, each with the time since which it has had its
status. Setting a condition with the status it already has keeps that time (`setCondition`). -/

namespace MemberAgent

open Json

inductive ConditionStatus where
  | isTrue
  | isFalse
  | unknown
  deriving DecidableEq, Repr

namespace ConditionStatus

def text : ConditionStatus → String
  | isTrue => "True"
  | isFalse => "False"
  | unknown => "Unknown"

def ofText (s : String) : Reading ConditionStatus :=
  if s = "True" then .ok isTrue
  else if s = "False" then .ok isFalse
  else if s = "Unknown" then .ok unknown
  else fault (.unknownVariant s ["True", "False", "Unknown"])

/-- A text, or an object whose only key is that text and whose value is null. -/
def ofJson : Json → Reading ConditionStatus
  | .str s => ofText s
  | .obj [(key, value)] => do
    let status ← ofText key
    match value with
    | .null => return status
    | j => within (.key key) (fault (.wrongType j "unit"))
  | .obj fields => fault (.wrongValue (.obj fields) "map with a single key")
  | j => fault (.wrongType j "string or map")

end ConditionStatus

structure Condition where
  type : String
  status : ConditionStatus
  reason : String
  message : String
  observedGeneration : Option Int
  lastTransitionTime : Timestamp
  deriving DecidableEq

namespace Condition

def json (c : Condition) : Json :=
  record [
    ("lastTransitionTime", some (.str c.lastTransitionTime.text)),
    ("message", some (.str c.message)),
    ("observedGeneration", c.observedGeneration.map .int),
    ("reason", some (.str c.reason)),
    ("status", some (.str c.status.text)),
    ("type", some (.str c.type))]

def ofFields (fields : List (String × Json)) : Reading Condition := do
  let lastTransitionTime ← field? fields "lastTransitionTime" asTimestamp
  let message ← field? fields "message" asText
  let observedGeneration ← optional fields "observedGeneration" asInt64
  let reason ← field? fields "reason" asText
  let status ← field? fields "status" ConditionStatus.ofJson
  let type ← field? fields "type" asText
  return {
    type := ← required "type" type
    status := ← required "status" status
    reason := ← required "reason" reason
    message := ← required "message" message
    observedGeneration
    lastTransitionTime := ← required "lastTransitionTime" lastTransitionTime }

def ofItems : Sequence Condition := do
  let whole := "struct Condition with 6 elements"
  let type ← next whole asText
  let status ← next whole ConditionStatus.ofJson
  let reason ← next whole asText
  let message ← next whole asText
  let observedGeneration ← next? (asOption asInt64)
  let lastTransitionTime ← next whole asTimestamp
  return { type, status, reason, message
           observedGeneration := observedGeneration.join, lastTransitionTime }

def ofJson : Json → Reading Condition := asRecord "struct Condition" ofFields ofItems

end Condition

/-- The first condition of a type. -/
def findCondition (type : String) (conditions : List Condition) : Option Condition :=
  conditions.find? fun c => c.type = type

def isConditionTrue (type : String) (conditions : List Condition) : Bool :=
  (findCondition type conditions).any fun c => c.status = .isTrue

/-- The condition `new` in place of `old`: an unchanged status keeps its time. -/
def Condition.succeed (old new : Condition) : Condition :=
  if old.status = new.status then { new with lastTransitionTime := old.lastTransitionTime } else new

/-- Puts a condition in the place of the first one of its type, or at the end. -/
def setCondition (new : Condition) : List Condition → List Condition
  | [] => [new]
  | c :: rest => if c.type = new.type then c.succeed new :: rest else c :: setCondition new rest

end MemberAgent
