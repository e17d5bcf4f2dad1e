import MemberAgent.Proofs.Ownership.Adopted
import MemberAgent.Proofs.Tracking.Upkeep

/-! What is reported as applied, after the sync that follows. Entries are told apart by the version of
their API, objects are not. So an entry that is left from another version is stale, although it means
an object that has just been applied; the sync then releases that object, and no other one. -/

namespace MemberAgent

open InMemory Tracking

namespace InMemory.World

variable {w w' w₁ w₂ : World} {work work₁ : Work} {applied : AppliedWork} {uid : String}
  {clock : Nat → Timestamp}

/-- Applying a Work leaves the records as they are. -/
theorem applied?_of_mayAdopt (h : Apply.MayAdopt work w.member w'.member) (name : String) :
    w'.member.applied? name = w.member.applied? name := by
  rcases h with h | ⟨_, owner, -, -, h⟩
  · rw [h]
  · rw [Member.applied?, Member.applied_of_adoptions h]
    rfl

/-- A Work that is stored with its report differs from the one before in its status and its version
only. -/
theorem stored_of_reported (hwork : w.hub.work? (.ofWork work) = some work)
    (h : Apply.Reported clock work uid w w')
    (hwork₁ : w'.hub.work? (.ofWork work) = some work₁) :
    (work₁.hasFinalizer = work.hasFinalizer ∧ work₁.isDeleting = work.isDeleting ∧
      work₁.name = work.name) ∧ ∃ outcomes, (∀ o ∈ outcomes, Apply.WentThrough uid w' o) ∧
        work₁.currentStatus =
          Apply.report work.currentStatus work.metadata.generation clock outcomes := by
  obtain ⟨outcomes, hthrough, ⟨hstatus, hhub⟩ | hpatched⟩ := h
  · rw [hhub, hwork] at hwork₁
    cases hwork₁
    have hcurrent := congrArg (fun status => Option.getD status {}) hstatus
    exact ⟨⟨rfl, rfl, rfl⟩, outcomes, hthrough, hcurrent⟩
  · obtain ⟨stored, hstored, -, hhub⟩ := (Hub.write_eq_ok_iff _).1 hpatched
    cases hwork.symm.trans hstored
    rw [hhub, Hub.work?_put, if_pos rfl] at hwork₁
    cases hwork₁
    exact ⟨⟨rfl, rfl, rfl⟩, outcomes, hthrough, rfl⟩

/-- What the status says has been applied is there and owned. -/
theorem holds_of_condition {outcomes : List Apply.Outcome} {previous : WorkStatus}
    {generation : Option Int} (hthrough : ∀ o ∈ outcomes, Apply.WentThrough uid w o)
    {c : ManifestCondition}
    (hc : c ∈ (Apply.report previous generation clock outcomes).manifestConditions)
    (htrue : isConditionTrue appliedCondition c.conditions = true) :
    ∃ o, w.member.Holds uid (.ofIdentifier c.identifier) o := by
  have hreported : ((Apply.report previous generation clock outcomes).manifestConditions.filter
      fun m => isConditionTrue appliedCondition m.conditions).map ManifestCondition.identifier =
        (outcomes.filter Apply.Outcome.isApplied).map Apply.Outcome.identifier :=
    Apply.applied_manifestConditions
  have hmem : c.identifier ∈ (outcomes.filter Apply.Outcome.isApplied).map Apply.Outcome.identifier :=
    hreported ▸ List.mem_map.2 ⟨c, List.mem_filter.2 ⟨hc, htrue⟩, rfl⟩
  obtain ⟨o, ho, hidentifier⟩ := List.mem_map.1 hmem
  obtain ⟨ho, happlied⟩ := List.mem_filter.1 ho
  rw [← hidentifier]
  exact hthrough o ho happlied

/-- A sync that goes through aligns the record with the Work. -/
theorem aligned_of_sync (happlicable : Apply.IsApplicable work applied w)
    (hplaced : w.member.Placed) {settings : Settings} {action : Action}
    (hsync : w.run (Tracking.reconcile settings work).run = (.ok action, w')) :
    w' = w.aligned work applied := by
  let «namespace» := work.metadata.namespace.getD settings.workNamespace
  have hpair : w.pairOf «namespace» work.name (some work) none = .ok (some (work, applied)) := by
    show consistentPair work.name (some work) (w.member.applied? work.name) = _
    rw [happlicable.recordThere, consistentPair, happlicable.finalizer, happlicable.workStays,
      happlicable.recordStays]
    rfl
  have hends : Ends (fun _ => True) w (sync «namespace» work.name (some work) none) _ _ :=
    sync_ends hplaced
  obtain ⟨-, hsynced⟩ := Reaches.run hends trivial
  rw [hpair] at hsynced
  unfold Tracking.reconcile at hsync
  rcases hrun : w.run (sync «namespace» work.name (some work) none).run with ⟨failure | _, v⟩
  · cases (run_andThen_error hrun _).symm.trans hsync
  · cases (run_andThen hrun _).symm.trans hsync
    rw [hrun] at hsynced
    exact hsynced _ rfl

/-- Whether what the status says has been applied is there and owned. -/
def AppliedLive (name : WorkName) (uid : String) (w : World) : Prop :=
  ∃ work, w.hub.work? name = some work ∧ ∀ c ∈ work.currentStatus.manifestConditions,
    isConditionTrue appliedCondition c.conditions = true →
      ∃ o, w.member.Holds uid (.ofIdentifier c.identifier) o

/-- Whether an entry is stale although it means the object under this key. -/
def Mistaken (work : Work) (applied : AppliedWork) (m : Member) (key : ObjectKey) : Prop :=
  ∃ r ∈ (diff work.currentStatus.declared applied.resources).stale, ∃ o,
    m.object? key = some o ∧ r.Means key o

/-- Whether all entries at the place of a manifest that has been applied are declared as they are, in
the same version. -/
def EntriesAgree (work : Work) (applied : AppliedWork) : Prop :=
  ∀ r ∈ applied.resources, ∀ c ∈ work.currentStatus.manifestConditions,
    isConditionTrue appliedCondition c.conditions = true →
      ObjectKey.ofTracked r = .ofIdentifier c.identifier →
        ∃ i ∈ work.currentStatus.declared, i.key = r.key

theorem EntriesAgree.not_mistaken (h : EntriesAgree work applied) {m : Member}
    {c : ManifestCondition} (hc : c ∈ work.currentStatus.manifestConditions)
    (htrue : isConditionTrue appliedCondition c.conditions = true) :
    ¬Mistaken work applied m (.ofIdentifier c.identifier) := by
  rintro ⟨r, hr, o, -, hplace, -⟩
  obtain ⟨i, hi, hkey⟩ := h r (tracked_of_mem_stale hr) c hc htrue hplace
  exact key_ne_of_mem_stale hr i hi hkey

/-- After an application and a sync that follows it, the object of a manifest that is reported as
applied is there and owned, if and only if no entry that is stale means it. So all of them are where
the entries at their places are of the versions that are declared. -/
theorem applied_live_iff (hwork : w.hub.work? (.ofWork work) = some work)
    (happlicable : Apply.IsApplicable work applied w) (huid : applied.metadata.uid = some uid)
    (hplaced : w.member.Placed) {settings settings' : Settings} {action action' : Action}
    (happly : w.run (Apply.reconcile settings clock work).run = (.ok action, w₁))
    (hwork₁ : w₁.hub.work? (.ofWork work) = some work₁)
    (hsync : w₁.run (Tracking.reconcile settings' work₁).run = (.ok action', w₂)) :
    w₂.hub.work? (.ofWork work) = some work₁ ∧
    (∀ c ∈ work₁.currentStatus.manifestConditions,
      isConditionTrue appliedCondition c.conditions = true →
        ((∃ o, w₂.member.Holds uid (.ofIdentifier c.identifier) o) ↔
          ¬Mistaken work₁ applied w₁.member (.ofIdentifier c.identifier))) ∧
    (EntriesAgree work₁ applied → AppliedLive (.ofWork work) uid w₂) := by
  have hends : Ends (fun _ => True) w (Apply.reconcile settings clock work) _ _ :=
    Apply.reconcile_ends settings clock work hplaced
  obtain ⟨hadopts, hreported⟩ := Reaches.run hends trivial
  rw [happly] at hadopts hreported
  have hreported := hreported action rfl applied happlicable
  rw [huid] at hreported
  obtain ⟨⟨hfinalizer, hdeleting, hname⟩, outcomes, hthrough, hstatus⟩ :=
    stored_of_reported hwork hreported hwork₁
  have happlicable₁ : Apply.IsApplicable work₁ applied w₁ :=
    ⟨hfinalizer.trans happlicable.finalizer, hdeleting.trans happlicable.workStays,
      by rw [hname, applied?_of_mayAdopt hadopts]; exact happlicable.recordThere,
      happlicable.recordStays⟩
  have hplaced₁ : w₁.member.Placed := by
    have hreaches : Reaches (fun _ => True) w (Apply.reconcile settings clock work).run _ :=
      placed_reaches hplaced _
    have hrun := Reaches.run hreaches trivial
    rwa [happly] at hrun
  have haligned := aligned_of_sync happlicable₁ hplaced₁ hsync
  have hiff : ∀ c ∈ work₁.currentStatus.manifestConditions,
      isConditionTrue appliedCondition c.conditions = true →
        ((∃ o, w₂.member.Holds uid (.ofIdentifier c.identifier) o) ↔
          ¬Mistaken work₁ applied w₁.member (.ofIdentifier c.identifier)) := by
    intro c hc htrue
    obtain ⟨o, ho⟩ := holds_of_condition hthrough (hstatus ▸ hc) htrue
    rw [haligned]
    constructor
    · rintro ⟨o', ho'⟩ ⟨r, hr, live, hlive, hmeans⟩
      obtain ⟨hbefore, hmeant⟩ := (holds_of_aligned_iff huid).1 ho'
      cases hbefore.1.symm.trans hlive
      exact hmeant r hr hmeans
    · intro hnone
      refine ⟨o, (holds_of_aligned_iff huid).2 ⟨ho, fun r hr hmeans => ?_⟩⟩
      exact hnone ⟨r, hr, o, ho.1, hmeans⟩
  have hwork₂ : w₂.hub.work? (.ofWork work) = some work₁ := haligned ▸ hwork₁
  refine ⟨hwork₂, hiff, fun hagree => ⟨work₁, hwork₂, fun c hc htrue => ?_⟩⟩
  exact (hiff c hc htrue).2 (hagree.not_mistaken hc htrue)

end InMemory.World

open World

namespace InMemory.Demo

def entry : TrackedResource := ⟨"", "v1", "configmaps", "default", "m1", some "obj-1"⟩

def tracking : AppliedWork := { record with status := some { appliedResources := [entry] } }

/-- The object of the entry. It has lost its hash, so it is written again. -/
def live : ApiObject where
  metadata := {
    name := some "m1", «namespace» := some "default", uid := some "obj-1"
    ownerReferences := some tracking.ownerReference.toList, resourceVersion := some "1" }

/-- A second manifest has come to one whose object is tracked. -/
def extended : World where
  hub := ({} : Hub).put name { work with manifests := [configMap "m1", configMap "m2"] }
  member := (({} : Member).put (.ofTracked entry) live).putApplied "demo" tracking
  kinds := start.kinds

/-- The entry is declared as it is, in the same version, so no object is mistaken for a stale one. -/
theorem live_when_extended :
    AppliedLive name "aw-1" (sync (apply extended).2).2 ∧
      (current (apply extended).2).currentStatus.manifestConditions.map (fun c =>
        (ObjectKey.ofIdentifier c.identifier, isConditionTrue appliedCondition c.conditions)) =
          [(⟨"configmaps", "default", "m1"⟩, true), (⟨"configmaps", "default", "m2"⟩, true)] := by
  have happlicable : Apply.IsApplicable (current extended) tracking extended := ⟨rfl, rfl, rfl, rfl⟩
  have hplaced : extended.member.Placed := Member.placed_empty.put ⟨rfl, rfl⟩
  have happly : apply extended = (.ok (.requeue 60), (apply extended).2) := Prod.ext rfl rfl
  have hsync : sync (apply extended).2 = (.ok .awaitChange, (sync (apply extended).2).2) :=
    Prod.ext rfl rfl
  have hwork : (apply extended).2.hub.work? name = some (current (apply extended).2) := rfl
  have hdeclared : (current (apply extended).2).currentStatus.declared.map ResourceIdentifier.key =
      [entry.key, ⟨"", "v1", "configmaps", "default", "m2"⟩] := rfl
  have hagree : EntriesAgree (current (apply extended).2) tracking := by
    intro r hr c _ _ _
    obtain rfl : r = entry := List.mem_singleton.1 hr
    exact List.mem_map.1 (hdeclared ▸ List.mem_cons_self)
  obtain ⟨-, -, hlive⟩ := applied_live_iff rfl happlicable rfl hplaced happly hwork hsync
  exact ⟨hlive hagree, rfl⟩

end InMemory.Demo

/-! ### One resource in two versions -/

namespace InMemory.TwoVersions

open Demo

def deployment (version : String) : Json :=
  .obj [("apiVersion", .str version), ("kind", .str "Deployment"),
    ("metadata", .obj [("name", .str "web"), ("namespace", .str "default")])]

def start : World where
  hub := ({} : Hub).put name { work with manifests := [deployment "apps/v1beta1"] }
  member := ({} : Member).putApplied "demo" record
  kinds := [⟨"apps", "v1", "apps/v1", "Deployment", "deployments", true⟩,
    ⟨"apps", "v1beta1", "apps/v1beta1", "Deployment", "deployments", true⟩]

theorem fresh_start : Fresh name "aw-1" start { work with manifests := [deployment "apps/v1beta1"] }
    record where
  workThere := rfl
  workName := rfl
  finalizer := rfl
  workStays := rfl
  recordThere := rfl
  recordName := rfl
  recordUid := rfl
  recordStays := rfl
  once := List.nodup_nil
  placed := by rintro key o ⟨⟩
  served := by simp [start]
  tracksNothing := rfl
  ownsNothing := by rintro key o ⟨⟨⟩, -⟩

/-- The manifest has been applied and synced in the one version, and is then edited to be of the
other. -/
def changed : World := edited (sync (apply start).2).2 [deployment "apps/v1"]

theorem run_changed : Relation.ReflTransGen (Step name) start changed := by
  have happly : Step name start (apply start).2 := .apply {} (fun _ => epoch) rfl
  have hsync : Step name (apply start).2 (sync (apply start).2).2 := .sync {} rfl
  exact .tail (.tail (.single happly) hsync) (.edit [deployment "apps/v1"] rfl)

/-- Whether a world reports some manifest as applied whose object is not there. -/
def reportsMissing (w : World) : Bool :=
  (current w).currentStatus.manifestConditions.any fun c =>
    isConditionTrue appliedCondition c.conditions &&
      (w.member.object? (.ofIdentifier c.identifier)).isNone

theorem not_appliedLive {w : World} (h : reportsMissing w = true) (uid : String) :
    ¬AppliedLive name uid w := by
  rintro ⟨work, hwork, hlive⟩
  have hcurrent : current w = work := by rw [current, hwork]; rfl
  rw [reportsMissing, hcurrent] at h
  obtain ⟨c, hc, hmissing⟩ := List.any_eq_true.1 h
  obtain ⟨htrue, hnone⟩ := (Bool.and_eq_true _ _).mp hmissing
  obtain ⟨o, ho, -⟩ := hlive c hc htrue
  rw [ho] at hnone
  cases hnone

/-- Whether applying and syncing go through and leave a manifest reported whose object is missing. -/
def losesObject (w : World) : Bool :=
  match apply w with
  | (.ok _, w₁) =>
    match w₁.hub.work? name, sync w₁ with
    | some _, (.ok _, w₂) => reportsMissing w₂
    | _, _ => false
  | (.error _, _) => false

theorem exists_of_losesObject {w : World} (h : losesObject w = true) :
    ∃ action w₁ work₁ action' w₂, apply w = (.ok action, w₁) ∧ w₁.hub.work? name = some work₁ ∧
      w₁.run (Tracking.reconcile {} work₁).run = (.ok action', w₂) ∧ reportsMissing w₂ = true := by
  unfold losesObject at h
  split at h
  · next action w₁ happly =>
      split at h
      · next work₁ action' w₂ hwork hsync =>
          have hcurrent : current w₁ = work₁ := by rw [current, hwork]; rfl
          rw [Demo.sync, hcurrent] at hsync
          exact ⟨action, w₁, work₁, action', w₂, happly, hwork, hsync, h⟩
      · cases h
  · cases h

/-- A Work whose manifest is applied in one version and then in another one is reported as applied,
and the sync removes the object. -/
theorem removed_when_version_changes : ¬∀ (name : WorkName) (uid : String) (start w w₁ w₂ : World)
    (work₀ work work₁ : Work) (applied₀ : AppliedWork) (settings settings' : Settings)
    (clock : Nat → Timestamp) (action action' : Action), Fresh name uid start work₀ applied₀ →
      Relation.ReflTransGen (Step name) start w → w.hub.work? name = some work →
      w.run (Apply.reconcile settings clock work).run = (.ok action, w₁) →
      w₁.hub.work? name = some work₁ →
      w₁.run (Tracking.reconcile settings' work₁).run = (.ok action', w₂) →
      AppliedLive name uid w₂ := by
  intro hclaim
  have hloses : losesObject changed = true := by decide +kernel
  obtain ⟨action, w₁, work₁, action', w₂, happly, hwork₁, hsync, hmissing⟩ :=
    exists_of_losesObject hloses
  have hwork : changed.hub.work? name = some (current changed) := rfl
  refine not_appliedLive hmissing "aw-1" ?_
  exact hclaim _ _ _ _ _ _ _ _ _ _ _ _ _ _ _ fresh_start run_changed hwork happly hwork₁ hsync

end InMemory.TwoVersions

end MemberAgent
