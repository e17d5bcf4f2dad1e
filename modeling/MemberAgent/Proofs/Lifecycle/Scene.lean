import MemberAgent.Proofs.InMemory.Fate
import MemberAgent.Reconcile.Apply
import MemberAgent.Reconcile.Lifecycle
import MemberAgent.Reconcile.Monitor
import Mathlib.Logic.Function.Basic
import Mathlib.Logic.Relation

/-! Reconciles side by side. A scene is a world and what is left of the reconciles under way in it;
a step is one change made on the hub, or one call of one reconcile. So reconciles interleave call by
call, in any order. -/

namespace MemberAgent.InMemory

/-- What is left of a reconcile. -/
abbrev Running := Program clientCalls (Except Failure Action)

/-- At most one lifecycle reconcile of a name is under way, and any number of others. -/
structure Scene where
  world : World
  lifecycle : String → Option Running := fun _ => none
  others : List Running := []

namespace Scene

def onHub (s : Scene) (hub : Hub) : Scene := { s with world := { s.world with hub } }

/-- The reconciles that leave the life of a Work alone, of any copies. -/
inductive Other : Running → Prop where
  | apply (settings : Settings) (clock : Nat → Timestamp) (w : Work) :
      Other (Apply.reconcile settings clock w).run
  | tracking (settings : Settings) (w : Work) : Other (Tracking.reconcile settings w).run
  | monitor (settings : Settings) (applied : AppliedWork) :
      Other (Monitor.reconcile settings applied).run

/-- Steps over the Works of one namespace. `possible` says which fates calls may meet. A lifecycle
reconcile starts from the current copy of a Work, and may be abandoned at any time. -/
inductive Step (possible : World → Fate → ClientCall → Prop) («namespace» : String) :
    Scene → Scene → Prop where
  | insert {s : Scene} (w : Work) (hnamespace : w.namespace = «namespace»)
      (habsent : s.world.hub.work? (.ofWork w) = none) (hfree : w.hasFinalizer = false) :
      Step possible «namespace» s (s.onHub (s.world.hub.insert w))
  | edit {s : Scene} (key : WorkName) (manifests : List Json) {hub : Hub}
      (hedit : s.world.hub.updateManifests key manifests = some hub) :
      Step possible «namespace» s (s.onHub hub)
  | requestDeletion {s : Scene} (key : WorkName) (now : Timestamp) :
      Step possible «namespace» s (s.onHub (s.world.hub.requestDeletion key now))
  | startLifecycle {s : Scene} (name : String) {w : Work}
      (hcurrent : s.world.hub.work? ⟨«namespace», name⟩ = some w) (hidle : s.lifecycle name = none) :
      Step possible «namespace» s
        { s with lifecycle := Function.update s.lifecycle name (some (Lifecycle.reconcile w).run) }
  | callLifecycle {s : Scene} (name : String) (fate : Fate) {c : ClientCall}
      {next : Except Failure c.Value → Running} (hat : s.lifecycle name = some (.call c next))
      (hpossible : possible s.world fate c) :
      Step possible «namespace» s
        { s with
          world := (s.world.meet fate c).2
          lifecycle := Function.update s.lifecycle name (some (next (s.world.meet fate c).1)) }
  | endLifecycle {s : Scene} (name : String) :
      Step possible «namespace» s { s with lifecycle := Function.update s.lifecycle name none }
  | startOther {s : Scene} {p : Running} (hother : Other p) :
      Step possible «namespace» s { s with others := p :: s.others }
  | callOther {s : Scene} (before after : List Running) (fate : Fate) {c : ClientCall}
      {next : Except Failure c.Value → Running} (hat : s.others = before ++ .call c next :: after)
      (hpossible : possible s.world fate c) :
      Step possible «namespace» s
        { s with
          world := (s.world.meet fate c).2
          others := before ++ next (s.world.meet fate c).1 :: after }

/-- What comes of empty clusters. -/
def Reachable (possible : World → Fate → ClientCall → Prop) («namespace» : String)
    (kinds : List ResourceMapping) (s : Scene) : Prop :=
  Relation.ReflTransGen (Step possible «namespace») { world := { kinds } } s

/-- A refusal says that a record exists only if it does. -/
def Truthful (w : World) : Fate → ClientCall → Prop
  | .refused failure, .createAppliedWork applied =>
    failure.isAlreadyExists = true → (w.member.applied? applied.name).isSome
  | _, _ => True

/-- Every Work that has the cleanup finalizer and is not being deleted has a record. -/
def Recorded (s : Scene) : Prop :=
  ∀ key w, s.world.hub.work? key = some w → w.hasFinalizer = true → w.isDeleting = false →
    (s.world.member.applied? w.name).isSome

def Carries (s : Scene) (key : WorkName) : Prop :=
  ∃ w, s.world.hub.work? key = some w ∧ w.hasFinalizer = true

/-- Works that lose the cleanup finalizer between two scenes have no record in the first. -/
def LetsGoAfterRecord (s s' : Scene) : Prop :=
  ∀ key, s.Carries key → ¬s'.Carries key → s.world.member.applied? key.name = none

end Scene

end MemberAgent.InMemory
