import MemberAgent.Proofs.Apply.Written
import MemberAgent.Proofs.Tracking.Replay

/-! Tracked Works, and what applying and syncing do to them. Both leave the Work tracked; applying
always goes through, and what its status declares then is there and owned. -/

namespace MemberAgent

open InMemory

/-- Whether the status of a Work declares the object under a key as applied. -/
def Work.Declares (work : Work) (key : ObjectKey) : Prop :=
  ∃ i ∈ work.currentStatus.declared, ObjectKey.ofIdentifier i = key

namespace InMemory.World

open Tracking

/-- A Work that is tracked, with its record: it has the finalizer, the record tracks each resource
once, and neither of the two is going. Objects stand under their own names, and the member cluster
serves no resource without a name. -/
structure Tracked (name : WorkName) (uid : String) (w : World) (work : Work) (applied : AppliedWork) :
    Prop where
  workThere : w.hub.work? name = some work
  workName : WorkName.ofWork work = name
  finalizer : work.hasFinalizer = true
  workStays : work.isDeleting = false
  recordThere : w.member.applied? name.name = some applied
  recordName : applied.name = name.name
  recordUid : applied.metadata.uid = some uid
  recordStays : applied.isDeleting = false
  once : (applied.resources.map TrackedResource.key).Nodup
  placed : w.member.Placed
  served : ∀ m ∈ w.kinds, m.plural.isEmpty = false

/-- What applying leaves: what the status of the Work declares is there and owned, and what was there
before is still the same object. Everything else stays as it is. -/
structure LeavesDeclared (uid : String) (work' : Work) (w w' : World) : Prop where
  owned : ∀ key, work'.Declares key → ∃ o', w'.member.object? key = some o' ∧ o'.IsOwnedBy uid ∧
    ∀ o, w.member.object? key = some o → o'.metadata.uid = o.metadata.uid
  elsewhere : ∀ key, ¬work'.Declares key → w'.member.object? key = w.member.object? key

namespace Tracked

variable {name : WorkName} {uid : String} {w w' : World} {work work' : Work}
  {applied applied' : AppliedWork}

theorem name_eq (h : Tracked name uid w work applied) : work.name = name.name :=
  congrArg WorkName.name h.workName

/-- A Work stays tracked when it is written with its name, its finalizers and no deletion time. -/
theorem of_hub (h : Tracked name uid w work applied) {hub : Hub} (hwork : hub.work? name = some work')
    (hname : WorkName.ofWork work' = name) (hfinalizer : work'.hasFinalizer = work.hasFinalizer)
    (hstays : work'.isDeleting = work.isDeleting) :
    Tracked name uid { w with hub := hub } work' applied where
  workThere := hwork
  workName := hname
  finalizer := hfinalizer.trans h.finalizer
  workStays := hstays.trans h.workStays
  recordThere := h.recordThere
  recordName := h.recordName
  recordUid := h.recordUid
  recordStays := h.recordStays
  once := h.once
  placed := h.placed
  served := h.served

/-- Writing objects leaves the Work tracked. -/
theorem of_writes (h : Tracked name uid w work applied) {keys : List ObjectKey}
    (hwrites : Writes uid keys w w') : Tracked name uid w' work applied where
  workThere := hwrites.hub ▸ h.workThere
  workName := h.workName
  finalizer := h.finalizer
  workStays := h.workStays
  recordThere := by rw [Member.applied?, hwrites.records]; exact h.recordThere
  recordName := h.recordName
  recordUid := h.recordUid
  recordStays := h.recordStays
  once := h.once
  placed := hwrites.placed
  served := hwrites.kinds.symm ▸ h.served

/-! ### Edits -/

/-- Editing the manifests leaves the Work tracked, and its status as it is. -/
theorem edit (h : Tracked name uid w work applied) {manifests : List Json} {hub : Hub}
    (hedit : w.hub.updateManifests name manifests = some hub) :
    ∃ work', Tracked name uid { w with hub := hub } work' applied ∧ work'.status = work.status := by
  unfold Hub.updateManifests at hedit
  rw [h.workThere] at hedit
  cases hedit
  refine ⟨_, h.of_hub (Hub.work?_put _ _ _ _ |>.trans (if_pos rfl)) h.workName rfl rfl, rfl⟩

/-! ### Applying -/

theorem run_owningRecord (h : Tracked name uid w work applied) :
    w.run (Apply.owningRecord work).run = (.ok applied, w) := by
  have hget : w.answer (.getAppliedWork work.name) = (.ok (some applied), w) := by
    rw [h.name_eq, ← h.recordThere]
    rfl
  unfold Apply.owningRecord
  rw [run_request_andThen hget]
  rfl

/-- A status that is written is there, and the Work stays tracked. -/
theorem patchStatus (h : Tracked name uid w work applied) (status : WorkStatus) :
    ∃ hub work', w.answer (.patchWorkStatus work status) = (.ok (), { w with hub := hub }) ∧
      Tracked name uid { w with hub := hub } work' applied ∧ work'.status = some status := by
  let written : Work := { work with status := some status, metadata := bumped work.metadata }
  have hwrite : w.hub.patchStatus work status = .ok (w.hub.put name written) :=
    (Hub.write_eq_ok_iff _).2 ⟨work, h.workName.symm ▸ h.workThere, rfl, by rw [h.workName]⟩
  refine ⟨w.hub.put name written, written, answer_of_perform ?_, ?_, rfl⟩
  · rw [perform, hwrite]
    rfl
  · exact h.of_hub ((Hub.work?_put _ _ _ _).trans (if_pos rfl)) h.workName rfl rfl

/-- Applying a tracked Work goes through, and leaves what its status declares then. -/
theorem run_apply (h : Tracked name uid w work applied) (settings : Settings)
    (clock : Nat → Timestamp) : ∃ action w' work',
      w.run (Apply.reconcile settings clock work).run = (.ok action, w') ∧
        Tracked name uid w' work' applied ∧ LeavesDeclared uid work' w w' := by
  obtain ⟨owner, howner, huid⟩ : ∃ owner, applied.ownerReference = some owner ∧ owner.uid = uid := by
    rw [AppliedWork.ownerReference, h.recordUid]
    exact ⟨_, rfl, rfl⟩
  obtain ⟨outcomes, v, hdocuments, hwrites, hresolved⟩ :=
    Apply.run_documents h.placed h.served owner 0 work.manifests
  rw [huid] at hwrites
  have hv := h.of_writes hwrites
  let status := Apply.report work.currentStatus work.metadata.generation clock outcomes
  have hlift : w.run (ExceptT.lift (Apply.work clock work owner) : Reconcile _).run =
      (.ok (outcomes, status), v) := by
    rw [run_lift, Apply.work, run_bind, hdocuments]
    rfl
  -- what the status declares is what has been written
  have hdeclares : ∀ work' : Work, work'.status = some status →
      ∀ key, work'.Declares key ↔ key ∈ Apply.places outcomes := by
    intro work' hstatus key
    rw [Work.Declares, Work.currentStatus, hstatus]
    exact Apply.exists_mem_declared_report_iff hresolved
  have hleaves : ∀ (hub : Hub) (work' : Work), work'.status = some status →
      LeavesDeclared uid work' w { v with hub := hub } := by
    intro hub work' hstatus
    constructor
    · intro key hkey
      exact hwrites.owned key ((hdeclares work' hstatus key).1 hkey)
    · intro key hkey
      refine hwrites.elsewhere key fun hmem => ?_
      exact hkey ((hdeclares work' hstatus key).2 hmem)
  unfold Apply.reconcile
  rw [h.workStays, h.finalizer]
  simp only [Bool.false_eq_true, if_false, Bool.not_true]
  rw [run_andThen h.run_owningRecord, h.recordStays, howner]
  simp only [Bool.false_eq_true, if_false]
  rw [run_andThen hlift]
  dsimp only
  split
  · obtain ⟨hub, work', hanswer, htracked, hstatus⟩ := hv.patchStatus status
    rw [run_request_andThen hanswer]
    split <;> exact ⟨_, _, work', rfl, htracked, hleaves hub work' hstatus⟩
  · next hsame =>
      have hstatus : work.status = some status := Decidable.not_not.1 hsame
      split <;> exact ⟨_, v, work, rfl, hv, hleaves v.hub work hstatus⟩

/-! ### Syncing -/

theorem pairOf_eq (h : Tracked name uid w work applied) («namespace» : String) :
    w.pairOf «namespace» work.name (some work) none = .ok (some (work, applied)) := by
  show consistentPair work.name (some work) (w.member.applied? work.name) = _
  rw [h.name_eq, h.recordThere, consistentPair, h.finalizer, h.workStays, h.recordStays]
  rfl

/-- A sync of a tracked Work releases some stale entries, or it aligns the record; and it aligns it if
it succeeds. -/
theorem run_sync (h : Tracked name uid w work applied) (settings : Settings) :
    ∃ result w', w.run (Tracking.reconcile settings work).run = (result, w') ∧
      (ReleasedSome uid (diff work.currentStatus.declared applied.resources).stale w w' ∨
        w' = w.aligned work applied) ∧
        ∀ action, result = .ok action → w' = w.aligned work applied := by
  have howner : applied.metadata.uid.getD "" = uid := by rw [h.recordUid]; rfl
  have hends : Ends (fun _ => True) w
      (sync (work.metadata.namespace.getD settings.workNamespace) work.name (some work) none) _ _ :=
    sync_ends h.placed
  obtain ⟨hpartly, hsynced⟩ := Reaches.run hends trivial
  rw [h.pairOf_eq] at hpartly hsynced
  unfold Tracking.reconcile
  rcases hrun : w.run (sync (work.metadata.namespace.getD settings.workNamespace) work.name
    (some work) none).run with ⟨failure | _, w'⟩ <;> rw [hrun] at hpartly hsynced
  · refine ⟨.error failure, w', run_andThen_error hrun _, ?_, fun _ he => by cases he⟩
    rw [← howner]
    exact hpartly
  · refine ⟨.ok .awaitChange, w', (run_andThen hrun _).trans rfl, ?_, fun _ _ => hsynced _ rfl⟩
    exact Or.inr (hsynced _ rfl)

theorem of_releasedAll (h : Tracked name uid w work applied) (l : List TrackedResource) :
    Tracked name uid (w.releasedAll uid l) work applied where
  workThere := h.workThere
  workName := h.workName
  finalizer := h.finalizer
  workStays := h.workStays
  recordThere := by
    show (w.member.releasedAll uid l).applied? name.name = _
    rw [Member.applied?_releasedAll]
    exact h.recordThere
  recordName := h.recordName
  recordUid := h.recordUid
  recordStays := h.recordStays
  once := h.once
  placed := h.placed.releasedAll
  served := h.served

/-- Aligning leaves the Work tracked, with an entry for each declared resource that has the uid of the
object there. -/
theorem exists_aligned (h : Tracked name uid w work applied) : ∃ applied',
    Tracked name uid (w.aligned work applied) work applied' ∧
      applied'.resources = (w.aligned work applied).member.refreshed
        (diff work.currentStatus.declared applied.resources).retainedOrNew := by
  let d := diff work.currentStatus.declared applied.resources
  let released := w.member.releasedAll (applied.metadata.uid.getD "") d.stale
  have hthere : released.applied? applied.name = some applied := by
    rw [Member.applied?_releasedAll, h.recordName]
    exact h.recordThere
  obtain ⟨applied', hthere', hresources, hname, huid, hdeleting⟩ :=
    Member.record_committed hthere (released.refreshed d.retainedOrNew)
  rw [h.recordName] at hthere'
  have honce : (applied'.resources.map TrackedResource.key).Nodup := by
    rw [hresources, Member.key_refreshed, key_retainedOrNew]
    exact nodup_firstByKey
  refine ⟨applied', ⟨h.workThere, h.workName, h.finalizer, h.workStays, hthere',
    hname.trans h.recordName, huid.trans h.recordUid, hdeleting.trans h.recordStays, honce,
    h.placed.releasedAll.committed, h.served⟩, ?_⟩
  rw [hresources]
  exact Member.refreshed_committed.symm

end Tracked

end InMemory.World

end MemberAgent
