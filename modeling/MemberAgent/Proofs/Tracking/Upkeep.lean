import MemberAgent.Proofs.Tracking.Coverage
import Mathlib.Logic.Relation

/-! Runs of edits, applications and syncs of one Work. Nothing is forgotten as long as a sync succeeds
between any two applications. Where none does, a status that was never synced may be overwritten, and
what only that one declared stays owned with no entry. -/

namespace MemberAgent

open InMemory Tracking

namespace InMemory.World

variable {name : WorkName} {uid : String} {w w' : World} {work work' : Work}
  {applied applied' : AppliedWork}

/-- What happens around one Work: its manifests are edited, and its current copy is applied or
synced. -/
inductive Step (name : WorkName) : World → World → Prop where
  | edit {w : World} (manifests : List Json) {hub : Hub}
      (hedit : w.hub.updateManifests name manifests = some hub) : Step name w { w with hub := hub }
  | apply {w : World} (settings : Settings) (clock : Nat → Timestamp) {work : Work}
      (hwork : w.hub.work? name = some work) :
      Step name w (w.run (Apply.reconcile settings clock work).run).2
  | sync {w : World} (settings : Settings) {work : Work} (hwork : w.hub.work? name = some work) :
      Step name w (w.run (Tracking.reconcile settings work).run).2

/-- A tracked Work of which nothing has been applied yet. -/
structure Fresh (name : WorkName) (uid : String) (w : World) (work : Work) (applied : AppliedWork) :
    Prop extends Tracked name uid w work applied where
  tracksNothing : applied.resources = []
  ownsNothing : ∀ key o, ¬w.member.Holds uid key o

/-- Runs in which a sync succeeds between any two applications, with whether the last application
still waits for one. -/
inductive Followed (name : WorkName) (start : World) : Bool → World → Prop where
  | start : Followed name start false start
  | edit {pending : Bool} {w : World} (h : Followed name start pending w) (manifests : List Json)
      {hub : Hub} (hedit : w.hub.updateManifests name manifests = some hub) :
      Followed name start pending { w with hub := hub }
  | apply {w : World} (h : Followed name start false w) (settings : Settings)
      (clock : Nat → Timestamp) {work : Work} (hwork : w.hub.work? name = some work) :
      Followed name start true (w.run (Apply.reconcile settings clock work).run).2
  | sync {pending : Bool} {w w' : World} (h : Followed name start pending w) (settings : Settings)
      {work : Work} (hwork : w.hub.work? name = some work) {action : Action}
      (hsync : w.run (Tracking.reconcile settings work).run = (.ok action, w')) :
      Followed name start false w'
  | failedSync {pending : Bool} {w w' : World} (h : Followed name start pending w)
      (settings : Settings) {work : Work} (hwork : w.hub.work? name = some work) {failure : Failure}
      (hsync : w.run (Tracking.reconcile settings work).run = (.error failure, w')) :
      Followed name start pending w'

theorem Followed.run {start : World} {pending : Bool} (h : Followed name start pending w) :
    Relation.ReflTransGen (Step name) start w := by
  induction h with
  | start => exact .refl
  | edit _ manifests hedit ih => exact ih.tail (.edit manifests hedit)
  | apply _ settings clock hwork ih => exact ih.tail (.apply settings clock hwork)
  | sync _ settings hwork hsync ih | failedSync _ settings hwork hsync ih =>
      have hstep := Step.sync settings hwork
      rw [hsync] at hstep
      exact ih.tail hstep

/-- Steps leave the Work tracked. -/
theorem Tracked.step (h : Tracked name uid w work applied) (hstep : Step name w w') :
    ∃ work' applied', Tracked name uid w' work' applied' := by
  cases hstep with
  | edit manifests hedit =>
      obtain ⟨work', h', -⟩ := h.edit hedit
      exact ⟨work', applied, h'⟩
  | apply settings clock hwork =>
      cases h.workThere.symm.trans hwork
      obtain ⟨action, w', work', hrun, h', -⟩ := h.run_apply settings clock
      rw [hrun]
      exact ⟨work', applied, h'⟩
  | sync settings hwork =>
      cases h.workThere.symm.trans hwork
      obtain ⟨result, w', hrun, hleft, -⟩ := h.run_sync settings
      rw [hrun]
      rcases hleft with ⟨l, -, rfl⟩ | rfl
      · exact ⟨work, applied, h.of_releasedAll l⟩
      · obtain ⟨applied', h', -⟩ := h.exists_aligned
        exact ⟨work, applied', h'⟩

theorem Fresh.tracked_of_run {start : World} (hfresh : Fresh name uid start work applied)
    (hrun : Relation.ReflTransGen (Step name) start w) :
    ∃ work' applied', Tracked name uid w work' applied' := by
  induction hrun with
  | refl => exact ⟨work, applied, hfresh.toTracked⟩
  | tail _ hstep ih =>
      obtain ⟨work', applied', h⟩ := ih
      exact h.step hstep

/-- What a run accounts for in which a sync succeeds between any two applications. -/
def Accounted (uid : String) (w : World) (work : Work) (applied : AppliedWork) : Bool → Prop
  | true => Covered uid w work applied
  | false => AllTracked uid w applied

namespace Accounted

variable {pending : Bool}

theorem covered (h : Accounted uid w work applied pending) : Covered uid w work applied := by
  cases pending with
  | false => exact AllTracked.covered h work
  | true => exact h

theorem of_allTracked (h : AllTracked uid w applied) : Accounted uid w work applied pending := by
  cases pending with
  | false => exact h
  | true => exact h.covered work

theorem of_holds (h : Accounted uid w work applied pending)
    (hholds : ∀ key o, w'.member.Holds uid key o → w.member.Holds uid key o) :
    Accounted uid w' work applied pending := by
  cases pending with
  | false =>
      intro key o ho
      exact h key o (hholds key o ho)
  | true =>
      intro key o ho
      exact h key o (hholds key o ho)

theorem of_status_eq (h : Accounted uid w work applied pending) (hstatus : work'.status = work.status)
    (hmember : w'.member = w.member) : Accounted uid w' work' applied pending := by
  have hdeclares : ∀ key, work.Declares key → work'.Declares key := by
    intro key hkey
    rw [Work.Declares, Work.currentStatus, hstatus]
    exact hkey
  cases pending with
  | false =>
      intro key o ho
      rw [hmember] at ho
      exact h key o ho
  | true =>
      intro key o ho
      rw [hmember] at ho
      exact (h key o ho).imp_left (hdeclares key)

end Accounted

theorem Followed.accounted {start : World} {pending : Bool}
    (hfresh : Fresh name uid start work applied) (h : Followed name start pending w) :
    ∃ work' applied', Tracked name uid w work' applied' ∧ Accounted uid w work' applied' pending := by
  induction h with
  | start =>
      have hall : AllTracked uid start applied := by
        intro key o ho
        exact absurd ho (hfresh.ownsNothing key o)
      exact ⟨work, applied, hfresh.toTracked, hall⟩
  | edit _ manifests hedit ih =>
      obtain ⟨work, applied, htracked, haccounted⟩ := ih
      obtain ⟨work', htracked', hstatus⟩ := htracked.edit hedit
      exact ⟨work', applied, htracked', haccounted.of_status_eq hstatus rfl⟩
  | apply _ settings clock hwork ih =>
      obtain ⟨work, applied, htracked, haccounted⟩ := ih
      cases htracked.workThere.symm.trans hwork
      obtain ⟨action, w', work', hrun, htracked', hleaves⟩ := htracked.run_apply settings clock
      rw [hrun]
      have hall : AllTracked uid _ applied := haccounted
      exact ⟨work', applied, htracked', hleaves.covered_iff.2 (hall.covered work')⟩
  | sync _ settings hwork hsync ih =>
      obtain ⟨work, applied, htracked, haccounted⟩ := ih
      cases htracked.workThere.symm.trans hwork
      obtain ⟨result, w', hrun, -, hsynced⟩ := htracked.run_sync settings
      cases hrun.symm.trans hsync
      obtain ⟨applied', htracked', hresources⟩ := htracked.exists_aligned
      rw [hsynced _ rfl]
      exact ⟨_, applied', htracked', htracked.allTracked_aligned hresources haccounted.covered⟩
  | failedSync _ settings hwork hsync ih =>
      obtain ⟨work, applied, htracked, haccounted⟩ := ih
      cases htracked.workThere.symm.trans hwork
      obtain ⟨result, w', hrun, hleft, -⟩ := htracked.run_sync settings
      cases hrun.symm.trans hsync
      rcases hleft with ⟨l, -, rfl⟩ | rfl
      · exact ⟨_, applied, htracked.of_releasedAll l,
          haccounted.of_holds fun _ _ => holds_of_releasedAll⟩
      · obtain ⟨applied', htracked', hresources⟩ := htracked.exists_aligned
        have hall := htracked.allTracked_aligned hresources haccounted.covered
        exact ⟨_, applied', htracked', .of_allTracked hall⟩

/-- Whether every object that was owned before an application is declared by the status after it, or
an entry of the record means it. -/
def AppliedOrTracked (name : WorkName) (uid : String) (before after : World) : Prop :=
  ∃ work applied, after.hub.work? name = some work ∧
    before.member.applied? name.name = some applied ∧ Covered uid before work applied

/-- After an application and a sync that follows it, nothing is forgotten if and only if every object
that was owned before has been applied again or was tracked. This is so in runs in which a sync
succeeds between any two applications. -/
theorem nothing_forgotten_iff {start w₁ w₂ : World} {work₀ work₁ : Work} {applied₀ : AppliedWork}
    (hfresh : Fresh name uid start work₀ applied₀)
    (hrun : Relation.ReflTransGen (Step name) start w) {settings settings' : Settings}
    {clock : Nat → Timestamp} {action action' : Action} (hwork : w.hub.work? name = some work)
    (happly : w.run (Apply.reconcile settings clock work).run = (.ok action, w₁))
    (hwork₁ : w₁.hub.work? name = some work₁)
    (hsync : w₁.run (Tracking.reconcile settings' work₁).run = (.ok action', w₂)) :
    (NothingForgotten name uid w₂ ↔ AppliedOrTracked name uid w w₁) ∧
      (Followed name start false w → NothingForgotten name uid w₂) := by
  obtain ⟨_, applied, htracked⟩ := hfresh.tracked_of_run hrun
  cases htracked.workThere.symm.trans hwork
  obtain ⟨_, _, work', hrunApply, htracked₁, hleaves⟩ := htracked.run_apply settings clock
  cases hrunApply.symm.trans happly
  cases htracked₁.workThere.symm.trans hwork₁
  obtain ⟨_, _, hrunSync, -, hsynced⟩ := htracked₁.run_sync settings'
  cases hrunSync.symm.trans hsync
  have hiff : NothingForgotten name uid w₂ ↔ AppliedOrTracked name uid w w₁ := by
    rw [hsynced _ rfl, htracked₁.nothingForgotten_aligned_iff, hleaves.covered_iff]
    constructor
    · intro hcovered
      exact ⟨work₁, applied, hwork₁, htracked.recordThere, hcovered⟩
    · rintro ⟨work, applied, hwork, hrecord, hcovered⟩
      cases hwork₁.symm.trans hwork
      cases htracked.recordThere.symm.trans hrecord
      exact hcovered
  refine ⟨hiff, fun hfollowed => hiff.2 ?_⟩
  obtain ⟨_, applied, htracked, hall⟩ := hfollowed.accounted hfresh
  exact ⟨work₁, applied, hwork₁, htracked.recordThere, AllTracked.covered hall work₁⟩

end InMemory.World

/-! ### One Work whose manifest is replaced -/

namespace InMemory.Demo

open World

def name : WorkName := ⟨"cluster1", "demo"⟩

def epoch : Timestamp := ⟨1970, 1, 1, 0, 0, 0, 0, by decide, by decide⟩

def configMap (name : String) : Json :=
  .obj [("apiVersion", .str "v1"), ("kind", .str "ConfigMap"),
    ("metadata", .obj [("name", .str name), ("namespace", .str "default")])]

def work : Work where
  metadata := {
    name := some "demo", «namespace» := some "cluster1", finalizers := some [cleanupFinalizer] }
  manifests := [configMap "m1"]

def record : AppliedWork where
  metadata := { name := some "demo", uid := some "aw-1", resourceVersion := some "1" }
  spec := ⟨"demo", "cluster1"⟩

def start : World where
  hub := ({} : Hub).put name work
  member := ({} : Member).putApplied "demo" record
  kinds := [⟨"", "v1", "v1", "ConfigMap", "configmaps", true⟩]

theorem fresh_start : Fresh name "aw-1" start work record where
  workThere := rfl
  workName := rfl
  finalizer := rfl
  workStays := rfl
  recordThere := rfl
  recordName := rfl
  recordUid := rfl
  recordStays := rfl
  once := List.nodup_nil
  placed := by rintro key o ⟨⟩
  served := by simp [start]
  tracksNothing := rfl
  ownsNothing := by rintro key o ⟨⟨⟩, -⟩

def current (w : World) : Work := (w.hub.work? name).getD { metadata := {} }

def apply (w : World) : Except Failure Action × World :=
  w.run (Apply.reconcile {} (fun _ => epoch) (current w)).run

def sync (w : World) : Except Failure Action × World :=
  w.run (Tracking.reconcile {} (current w)).run

def edited (w : World) (manifests : List Json) : World :=
  { w with hub := (w.hub.updateManifests name manifests).getD w.hub }

/-- After the manifest has been replaced: the first one was applied, but no sync has seen that. -/
def replaced : World := edited (apply start).2 [configMap "m2"]

theorem run_replaced : Relation.ReflTransGen (Step name) start replaced := by
  have happly : Step name start (apply start).2 := .apply {} (fun _ => epoch) rfl
  exact .tail (.single happly) (.edit [configMap "m2"] rfl)

/-- The manifest has been applied and synced, so the record has an entry for its object. -/
def synced : World := (sync (apply start).2).2

theorem followed_edited (manifests : List Json) :
    Followed name start false (edited synced manifests) := by
  have happlied : Followed name start true (apply start).2 := .apply .start {} (fun _ => epoch) rfl
  have hsync : sync (apply start).2 = (.ok .awaitChange, synced) := Prod.ext rfl rfl
  exact .edit (.sync happlied {} rfl hsync) manifests rfl

/-- The places that the record has entries for. -/
def places (w : World) : Option (List ObjectKey) :=
  (w.member.applied? "demo").map fun applied => applied.resources.map ObjectKey.ofTracked

def replacedOnceSynced : World := edited synced [configMap "m2"]

/-- The record has an entry for the object of the first manifest when that is replaced, and so the sync
after the next application lets go of it. -/
theorem nothing_forgotten_when_replaced_once_synced :
    places replacedOnceSynced = some [⟨"configmaps", "default", "m1"⟩] ∧
      places (sync (apply replacedOnceSynced).2).2 = some [⟨"configmaps", "default", "m2"⟩] ∧
      NothingForgotten name "aw-1" (sync (apply replacedOnceSynced).2).2 := by
  have hfollowed : Followed name start false replacedOnceSynced := followed_edited [configMap "m2"]
  have happly : apply replacedOnceSynced = (.ok (.requeue 60), (apply replacedOnceSynced).2) :=
    Prod.ext rfl rfl
  have hsync : sync (apply replacedOnceSynced).2 =
      (.ok .awaitChange, (sync (apply replacedOnceSynced).2).2) := Prod.ext rfl rfl
  have hwork : (apply replacedOnceSynced).2.hub.work? name =
      some (current (apply replacedOnceSynced).2) := rfl
  have hiff := nothing_forgotten_iff fresh_start hfollowed.run rfl happly hwork hsync
  exact ⟨rfl, rfl, hiff.2 hfollowed⟩

/-- A Work that is applied, edited and applied again before it is synced leaves the object of its first
manifest owned and without an entry. -/
theorem forgotten_when_applied_twice : ¬∀ (name : WorkName) (uid : String) (start w w₁ w₂ : World)
    (work₀ work work₁ : Work) (applied₀ : AppliedWork) (settings settings' : Settings)
    (clock : Nat → Timestamp) (action action' : Action), Fresh name uid start work₀ applied₀ →
      Relation.ReflTransGen (Step name) start w → w.hub.work? name = some work →
      w.run (Apply.reconcile settings clock work).run = (.ok action, w₁) →
      w₁.hub.work? name = some work₁ →
      w₁.run (Tracking.reconcile settings' work₁).run = (.ok action', w₂) →
      NothingForgotten name uid w₂ := by
  intro hclaim
  let w₂ := (sync (apply replaced).2).2
  have happly : apply replaced = (.ok (.requeue 60), (apply replaced).2) := Prod.ext rfl rfl
  have hsync : sync (apply replaced).2 = (.ok .awaitChange, w₂) := Prod.ext rfl rfl
  have hwork : (apply replaced).2.hub.work? name = some (current (apply replaced).2) := rfl
  obtain ⟨applied, hthere, hentries⟩ :=
    hclaim _ _ _ _ _ _ _ _ _ _ _ _ _ _ _ fresh_start run_replaced rfl happly hwork hsync
  have hplaces : (w₂.member.applied? "demo").map (fun a => a.resources.map ObjectKey.ofTracked) =
      some [⟨"configmaps", "default", "m2"⟩] := rfl
  have howned : (w₂.member.object? ⟨"configmaps", "default", "m1"⟩).map (fun o =>
      o.metadata.owners.map OwnerReference.uid) = some ["aw-1"] := rfl
  obtain ⟨o, ho, huids⟩ := Option.map_eq_some_iff.1 howned
  have hholds : o.IsOwnedBy "aw-1" :=
    List.mem_map.1 (huids ▸ List.mem_singleton_self "aw-1")
  obtain ⟨r, hr, hplace⟩ := hentries _ o ⟨ho, hholds⟩
  have hmem : ObjectKey.ofTracked r ∈ applied.resources.map ObjectKey.ofTracked :=
    List.mem_map_of_mem hr
  have hlisted : applied.resources.map ObjectKey.ofTracked = [⟨"configmaps", "default", "m2"⟩] := by
    rw [show w₂.member.applied? "demo" = some applied from hthere] at hplaces
    exact Option.some.inj hplaces
  rw [hlisted, hplace] at hmem
  exact absurd hmem (by decide)

end InMemory.Demo

end MemberAgent
