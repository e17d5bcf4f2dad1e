import MemberAgent.Reconcile.Apply
import MemberAgent.Reconcile.Lifecycle
import MemberAgent.Reconcile.Monitor
import MemberAgent.Rehearsal.Disturbance

/-! Rehearsals: scripts of edits, disturbances and reconciles against a hub and a member cluster in
memory. Each step has a result, and leaves the stage as the next step finds it. -/

namespace MemberAgent.Rehearsal

open InMemory

/-- A copy of an object to work on: the current one, or one kept under a label. -/
inductive Copy where
  | current
  | kept (label : String)

inductive Step where
  | insertWork (work : Work)
  | updateManifests (name : WorkName) (manifests : List Json)
  | requestDeletion (name : WorkName)
  | seedApplied (applied : AppliedWork) (resources : List TrackedResource)
  | removeApplied (name : String)
  | markAppliedDeleting (name : String)
  | removeObject (key : ObjectKey)
  | failDeletes (key : ObjectKey)
  | healDeletes (key : ObjectKey)
  | putObject (mapping : ResourceMapping) (object : ApiObject)
  | setKinds (kinds : List ResourceMapping)
  | keepWork (name : WorkName) (label : String)
  | keepApplied (name : String) (label : String)
  | fault (fault : Fault)
  | clearFaults
  | race (race : Race)
  | trackedNames (name : String)
  | finalize (name : WorkName) (copy : Copy)
  | apply (name : WorkName) (copy : Copy)
  | status (name : WorkName) (copy : Copy)
  | resync (name : String)
  | sync (name : WorkName) (work : Option Copy) (applied : Option Copy)
  | applyManifest (ordinal : Nat) (document : Json) (owner : OwnerReference)
  | applyWork (name : WorkName) (copy : Copy) (owner : OwnerReference)
  | release (owner : String) (resource : TrackedResource)
  | releaseAll (owner : String) (stale : List TrackedResource)

inductive Value where
  | none
  | action (action : Action)
  | names (names : List String)
  | applyAction (action : ApplyAction)
  | report (status : WorkStatus) (failed : Nat) (mayRetry : Bool)
  | release (release : Tracking.Release)

/-- A step fails, or it lacks the object that it needs. -/
inductive StepFailure where
  | noSuchObject
  | failed (failure : Failure)

structure State where
  stage : Stage := {}
  settings : Settings := {}
  works : Table String Work := ∅
  records : Table String AppliedWork := ∅

namespace State

def hub (s : State) : Hub := s.stage.world.hub

def member (s : State) : Member := s.stage.world.member

def editHub (s : State) (hub : Hub) : State :=
  { s with stage := { s.stage with world := { s.stage.world with hub } } }

def editMember (s : State) (edit : Member → Member) : State :=
  { s with
    stage := { s.stage with world := { s.stage.world with member := edit s.member } } }

def work? (s : State) (name : WorkName) : Copy → Option Work
  | .current => s.hub.work? name
  | .kept label => s.works.get? label

def record? (s : State) (name : String) : Copy → Option AppliedWork
  | .current => s.member.applied? name
  | .kept label => s.records.get? label

/-- Runs a reconciler or a part of one. -/
def perform {α : Type} (s : State) (value : α → Value) (r : Reconcile α) :
    Except StepFailure Value × State :=
  let (result, stage) := s.stage.run (attempt r)
  ((result.map value).mapError .failed, { s with stage })

/-- Goes on with an object that has to be there. -/
def withObject {α : Type} (s : State) (object : Option α)
    (next : α → Except StepFailure Value × State) : Except StepFailure Value × State :=
  match object with
  | some a => next a
  | none => (.error .noSuchObject, s)

/-- A copy to hand over, if one is wanted; a wanted one has to be there. -/
def withCopy {α : Type} (s : State) (wanted : Option Copy) (find : Copy → Option α)
    (next : Option α → Except StepFailure Value × State) : Except StepFailure Value × State :=
  match wanted with
  | none => next none
  | some copy => s.withObject (find copy) fun a => next (some a)

/-- Resolves a manifest, then applies it. -/
def applyManifest (ordinal : Nat) (document : Json) (owner : OwnerReference) :
    Reconcile ApplyAction := do
  match ← ExceptT.lift (Manifest.resolve ordinal document) with
  | .error u => throw u.failure
  | .ok resolved => Apply.manifest resolved owner

/-- An empty record of a name. -/
def emptyRecord (name : String) : AppliedWork where
  metadata := { name := some name }
  spec := { workName := "", workNamespace := "" }

/-- One step. The clock tells the time at which each manifest is done, and `now` the time of
deletions. -/
def step (s : State) (clock : Nat → Timestamp) (now : Timestamp) :
    Step → Except StepFailure Value × State
  | .insertWork work => (.ok .none, s.editHub (s.hub.insert work))
  | .updateManifests name manifests =>
    s.withObject (s.hub.updateManifests name manifests) fun hub => (.ok .none, s.editHub hub)
  | .requestDeletion name => (.ok .none, s.editHub (s.hub.requestDeletion name now))
  | .seedApplied applied resources =>
    (.ok .none, s.editMember fun m => m.seedApplied applied resources)
  | .removeApplied name => (.ok .none, s.editMember fun m => m.removeApplied name)
  | .markAppliedDeleting name => (.ok .none, s.editMember fun m => m.markAppliedDeleting name now)
  | .removeObject key => (.ok .none, s.editMember fun m => m.removeObject key)
  | .failDeletes key => (.ok .none, s.editMember fun m => m.failDeletes key)
  | .healDeletes key => (.ok .none, s.editMember fun m => m.healDeletes key)
  | .putObject mapping object => (.ok .none, s.editMember fun m => m.putObject mapping object)
  | .setKinds kinds =>
    (.ok .none, { s with stage := { s.stage with world := { s.stage.world with kinds } } })
  | .keepWork name label =>
    s.withObject (s.work? name .current) fun w =>
      (.ok .none, { s with works := s.works.insert label w })
  | .keepApplied name label =>
    s.withObject (s.record? name .current) fun a =>
      (.ok .none, { s with records := s.records.insert label a })
  | .fault fault =>
    (.ok .none, { s with stage := { s.stage with faults := s.stage.faults ++ [fault] } })
  | .clearFaults => (.ok .none, { s with stage := { s.stage with faults := [] } })
  | .race race =>
    (.ok .none, { s with stage := { s.stage with races := s.stage.races ++ [race] } })
  | .trackedNames name =>
    let resources := ((s.member.applied? name).map AppliedWork.resources).getD []
    (.ok (.names (resources.map TrackedResource.name)), s)
  | .finalize name copy =>
    s.withObject (s.work? name copy) fun w => s.perform .action (Lifecycle.reconcile w)
  | .apply name copy =>
    s.withObject (s.work? name copy) fun w =>
      s.perform .action (Apply.reconcile s.settings clock w)
  | .status name copy =>
    s.withObject (s.work? name copy) fun w => s.perform .action (Tracking.reconcile s.settings w)
  | .resync name =>
    let record := (s.member.applied? name).getD (emptyRecord name)
    s.perform .action (Monitor.reconcile s.settings record)
  | .sync name work applied =>
    s.withCopy work (s.work? name) fun work =>
      s.withCopy applied (s.record? name.name) fun applied =>
        s.perform (fun () => .none) (Tracking.sync name.namespace name.name work applied)
  | .applyManifest ordinal document owner =>
    s.perform .applyAction (applyManifest ordinal document owner)
  | .applyWork name copy owner =>
    s.withObject (s.work? name copy) fun w =>
      s.perform
        (fun (outcomes, status) => .report status (Apply.failed outcomes) (Apply.mayRetry outcomes))
        (ExceptT.lift (Apply.work clock w owner))
  | .release owner resource => s.perform .release (Tracking.release owner resource)
  | .releaseAll owner stale => s.perform (fun () => .none) (Tracking.releaseAll owner stale)

end State

end MemberAgent.Rehearsal
