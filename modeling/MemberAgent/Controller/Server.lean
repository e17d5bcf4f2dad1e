import MemberAgent.Http.Scripted

/-! A server whose answers take time. A run sends one request after another; it stops where an
answer takes time, and goes on when the answer is there. -/

namespace MemberAgent.Controller

open Http

/-- Servers that answer from a list, each answer after some seconds. -/
structure Server where
  replies : List (Nat × Reply) := []
  kinds : Option KindTable := none
  requests : List (Nat × Cluster × Request) := []

namespace Server

/-- The next answer and its delay. -/
def next (s : Server) : Nat × Reply := s.replies.headD (0, .ok Scripted.nothingLeft)

/-- The server after a request was sent. -/
def received (s : Server) (now : Nat) (cluster : Cluster) (request : Request) : Server :=
  { s with replies := s.replies.tail, requests := s.requests ++ [(now, cluster, request)] }

end Server

/-- A program on the wire that answers what happens after a reconcile. -/
abbrev Rest := Program wire (Except Failure Action)

/-- How far a run gets at an instant. -/
inductive Progress where
  | ended (outcome : Except Failure Action)
  | waiting (due : Nat) (rest : Rest)

/-- Goes on with a run as far as an instant allows. At the deadline nothing more is sent, and an
answer that would come later is not waited for. -/
def proceed (now deadline : Nat) (timedOut : Failure) : Rest → Server → Progress × Server
  | .done outcome, s => (.ended outcome, s)
  | .call .known next, s => proceed now deadline timedOut (next s.kinds) s
  | .call (.remember table) next, s =>
    proceed now deadline timedOut (next ()) { s with kinds := some table }
  | .call (.send cluster request) next, s =>
    if deadline ≤ now then (.ended (.error timedOut), s)
    else
      let (delay, reply) := s.next
      let s := s.received now cluster request
      if delay = 0 then proceed now deadline timedOut (next reply) s
      else if deadline < now + delay then (.waiting deadline (.done (.error timedOut)), s)
      else (.waiting (now + delay) (next reply), s)

end MemberAgent.Controller
