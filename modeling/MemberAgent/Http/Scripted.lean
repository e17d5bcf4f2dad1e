import MemberAgent.Http.Wire

/-! Servers that answer from a list, whichever cluster is asked. When the list is empty nothing is
found. -/

namespace MemberAgent.Http

structure Scripted where
  replies : List Reply := []
  requests : List (Cluster × Request) := []
  kinds : Option KindTable := none

namespace Scripted

def nothingLeft : Response where
  status := 404
  body := (Json.record [
    ("apiVersion", some (.str "v1")),
    ("code", some (.int 404)),
    ("kind", some (.str "Status")),
    ("message", some (.str "no scripted response")),
    ("reason", some (.str "NotFound")),
    ("status", some (.str "Failure"))]).text

/-- Takes the next reply. -/
def take : List Reply → Reply × List Reply
  | [] => (.ok nothingLeft, [])
  | reply :: rest => (reply, rest)

def answer (s : Scripted) : (c : WireCall) → c.Answer × Scripted
  | .send cluster request =>
    let (reply, replies) := take s.replies
    (reply, { s with replies, requests := s.requests ++ [(cluster, request)] })
  | .known => (s.kinds, s)
  | .remember table => ((), { s with kinds := some table })

def run {α : Type} (s : Scripted) : Program wire α → α × Scripted
  | .done a => (a, s)
  | .call c next => let (reply, s) := s.answer c; run s (next reply)

end Scripted

end MemberAgent.Http
