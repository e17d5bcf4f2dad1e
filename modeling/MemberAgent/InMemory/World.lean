import MemberAgent.InMemory.Hub
import MemberAgent.InMemory.Member

/-! A hub, a member cluster and its table of kinds in memory, which answer every client call. A call
that fails changes nothing. -/

namespace MemberAgent.InMemory

structure World where
  hub : Hub := {}
  member : Member := {}
  kinds : List ResourceMapping := []

namespace World

/-- The first mapping of a kind. -/
def mapping? (w : World) (kind : Kind) : Option ResourceMapping :=
  w.kinds.find? fun m => m.lookedUpAs = kind

def onHub (w : World) (r : Except Failure Hub) : Except Failure (Unit × World) :=
  r.map fun hub => ((), { w with hub })

def onMember {α : Type} (w : World) (r : Except Failure (α × Member)) :
    Except Failure (α × World) :=
  r.map fun (a, member) => (a, { w with member })

def perform (w : World) : (c : ClientCall) → Except Failure (c.Value × World)
  | .getWork «namespace» name => .ok (w.hub.work? ⟨«namespace», name⟩, w)
  | .patchWorkStatus work status => w.onHub (w.hub.patchStatus work status)
  | .addFinalizer work finalizer => w.onHub (w.hub.addFinalizer work finalizer)
  | .removeFinalizer work finalizer => w.onHub (w.hub.removeFinalizer work finalizer)
  | .getAppliedWork name => .ok (w.member.applied? name, w)
  | .createAppliedWork applied => w.onMember (w.member.createApplied applied)
  | .deleteAppliedWork name => .ok ((), { w with member := w.member.deleteApplied name })
  | .updateResources applied resources =>
    w.onMember ((w.member.updateResources applied resources).map fun m => ((), m))
  | .getObject mapping «namespace» name =>
    .ok (w.member.object? ⟨mapping.plural, «namespace», name⟩, w)
  | .createObject mapping object => w.onMember (w.member.createObject mapping object)
  | .replaceObject mapping object => w.onMember (w.member.replaceObject mapping object)
  | .patchOwners mapping live owners =>
    w.onMember ((w.member.patchOwners mapping live owners).map fun m => ((), m))
  | .getTracked resource => .ok (w.member.object? (.ofTracked resource), w)
  | .deleteTracked resource => w.onMember (w.member.deleteTracked resource)
  | .findMapping kind => .ok (w.mapping? kind, w)

/-- The reply to a call, and the world after it. -/
def answer (w : World) (c : ClientCall) : Except Failure c.Value × World :=
  match w.perform c with
  | .ok (value, w) => (.ok value, w)
  | .error failure => (.error failure, w)

/-- Runs a program without interruption. -/
def run {α : Type} (w : World) : Program clientCalls α → α × World
  | .done a => (a, w)
  | .call c next => let (reply, w) := w.answer c; run w (next reply)

end World

end MemberAgent.InMemory
