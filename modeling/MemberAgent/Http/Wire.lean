import MemberAgent.Discovery.Lookup
import MemberAgent.Http.Answer
import MemberAgent.Http.Endpoint

/-! The wire: requests to the two clusters, and the table of kinds that all programs on it share. -/

namespace MemberAgent.Http

inductive WireCall where
  | send (cluster : Cluster) (request : Request)
  | known
  | remember (table : KindTable)

namespace WireCall

@[reducible] def Answer : WireCall → Type
  | send .. => Reply
  | known => Option KindTable
  | remember _ => Unit

end WireCall

@[reducible] def wire : Interface := ⟨WireCall, WireCall.Answer⟩

/-- A program on the wire that may fail. -/
abbrev Exchange := ExceptT ClientFault (Program wire)

def send (cluster : Cluster) (request : Request) : Program wire Reply :=
  .perform (I := wire) (.send cluster request)

/-- Sends a request, unless it is none, and answers with the body of the response that grants it. -/
def exchange (cluster : Cluster) : Prepared → Exchange String
  | .error fault => throw fault
  | .ok request => ExceptT.mk do return (← send cluster request).granted

/-- Sends a request and reads the granted answer. -/
def ask {α : Type} (cluster : Cluster) (request : Prepared) (read : Json → Json.Reading α) :
    Exchange α := do
  readBody read (← exchange cluster request)

end MemberAgent.Http
