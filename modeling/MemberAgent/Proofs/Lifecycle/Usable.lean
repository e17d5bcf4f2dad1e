import MemberAgent.Proofs.Lifecycle.Retried
import MemberAgent.Proofs.Tracking.Upkeep

/-! The record that a Work is left with when the finalizer is attached to it, whatever becomes of the
calls. Where no record was there a new one is created; one that was there is taken as it is, so
whether the Work can rely on it is settled before the reconcile. -/

namespace MemberAgent

open InMemory Lifecycle

/-- Whether a Work can rely on a record: it stays, and it was built for that Work. -/
structure AppliedWork.IsUsableFor (a : AppliedWork) (w : Work) : Prop where
  stays : a.isDeleting = false
  work : a.spec = { workName := w.name, workNamespace := w.namespace }

namespace InMemory.World

variable {w : World} {work : Work} {fates : List Fate} {action : Action}

theorem stored_isUsableFor (m : Member) (work : Work) :
    (m.stored (.forWork work)).IsUsableFor work := ⟨rfl, rfl⟩

/-! ### Attempts that go through -/

theorem attempt_attaching_ok (h : (w.attempt fates (attaching work)).1 = some (.ok action)) :
    action = .awaitChange ∧ (w.attempt fates (attaching work)).2.1 = w.attached work := by
  cases fates with
  | nil => cases h
  | cons fate rest =>
      have hreply : (w.meet fate (.addFinalizer work cleanupFinalizer)).1.map
          (fun _ => Action.awaitChange) = .ok action := Option.some.inj h
      cases hmet : (w.meet fate (.addFinalizer work cleanupFinalizer)).1 with
      | error failure => rw [hmet] at hreply; cases hreply
      | ok value =>
          rw [hmet] at hreply
          exact ⟨(Except.ok.inj hreply).symm, congrArg Prod.snd (meet_ok hmet)⟩

/-- After the reply to the creation of the record, only one thing is left to go through. -/
theorem attempt_created_ok {reply : Except Failure AppliedWork}
    (h : (w.attempt fates (created work reply)).1 = some (.ok action)) :
    (∀ failure, reply = .error failure → failure.isAlreadyExists = true) ∧
      action = .awaitChange ∧ (w.attempt fates (created work reply)).2.1 = w.attached work := by
  cases reply with
  | ok applied => exact ⟨nofun, attempt_attaching_ok h⟩
  | error failure =>
      rw [created] at h ⊢
      split at h
      · next hexists =>
          rw [if_pos hexists]
          exact ⟨fun _ he => Except.error.inj he ▸ hexists, attempt_attaching_ok h⟩
      · cases h

theorem attempt_creating_ok (hpossible : AllPossible Scene.Truthful w fates (creating work))
    (h : (w.attempt fates (creating work)).1 = some (.ok action)) : action = .awaitChange ∧
      (w.attempt fates (creating work)).2.1 = (w.recorded work).attached work := by
  cases fates with
  | nil => cases h
  | cons fate rest =>
      have hrest : (World.attempt (w.meet fate (.createAppliedWork (.forWork work))).2 rest
          (created work (w.meet fate (.createAppliedWork (.forWork work))).1)).1 =
            some (.ok action) := h
      obtain ⟨hexists, haction, hworld⟩ := attempt_created_ok hrest
      refine ⟨haction, hworld.trans (congrArg (attached · work) ?_)⟩
      cases fate with
      | answered | lost => rfl
      | refused failure =>
          -- The refusal is believed, and it is right: nothing would have been created.
          have hthere : (w.member.applied? work.name).isSome := hpossible.1 (hexists failure rfl)
          rw [recorded, recorded_of_applied hthere]
          rfl

/-! ### The record -/

/-- A Work has the finalizer, and a record of its name is there: the one that was there before, or a
new one if there was none. It can rely on that unless it could not rely on what was there. -/
structure Backed (work : Work) (w w' : World) : Prop where
  attached : w'.hub.work? (.ofWork work) = some work.tracked
  finalizer : work.tracked.hasFinalizer = true
  record : ∃ applied, w'.member.applied? work.name = some applied ∧
    (∀ before, w.member.applied? work.name = some before → applied = before) ∧
    (applied.IsUsableFor work ↔
      ∀ before, w.member.applied? work.name = some before → before.IsUsableFor work)

theorem backed_attached (hcurrent : w.hub.work? (.ofWork work) = some work)
    (hstate : State.ofWork work = .unmanaged) :
    Backed work w ((w.recorded work).attached work) := by
  have hfree : work.hasFinalizer = false := (State.ofWork_eq_unmanaged_iff.1 hstate).1
  have hthere : (w.recorded work).hub.work? (.ofWork work) = some work :=
    (recorded_idem w work).1 ▸ hcurrent
  rw [attached_eq hthere rfl hfree]
  refine ⟨?_, (State.ofWork_eq_tracked_iff.1 (Work.state_tracked hstate)).1, ?_⟩
  · rw [Hub.work?_put, if_pos rfl]
  show ∃ applied, (w.recorded work).member.applied? work.name = some applied ∧ _
  cases hbefore : w.member.applied? work.name with
  | some before =>
      have hsame : (w.recorded work).member = w.member := by
        rw [recorded, recorded_of_applied (by rw [hbefore]; rfl)]
      rw [hsame]
      refine ⟨before, hbefore, fun _ h => Option.some.inj h, ?_⟩
      exact ⟨fun h _ he => Option.some.inj he ▸ h, fun h => h before rfl⟩
  | none =>
      have hnothing : ∀ before : AppliedWork, none ≠ some before := fun before =>
        (Option.some_ne_none before).symm
      refine ⟨w.member.stored (.forWork work), ?_, fun _ h => absurd h (hnothing _), ?_⟩
      · rw [recorded, recorded_of_not_applied hbefore]
        show (w.member.putApplied work.name _).applied? work.name = _
        rw [Member.applied?_putApplied, if_pos rfl]
      · exact iff_of_true (stored_isUsableFor w.member work) fun _ h => absurd h (hnothing _)

/-- An undisturbed reconcile goes through, whether or not there is a record. -/
theorem run_reconcile (hcurrent : w.hub.work? (.ofWork work) = some work)
    (hstate : State.ofWork work = .unmanaged) :
    w.run (reconcile work).run = (.ok .awaitChange, (w.recorded work).attached work) := by
  have hfree : work.hasFinalizer = false := (State.ofWork_eq_unmanaged_iff.1 hstate).1
  have hattach : ∀ v : World, v.hub = w.hub →
      v.run (attaching work) = (.ok .awaitChange, v.attached work) := by
    intro v hhub
    have hthere : v.hub.work? (.ofWork work) = some work := hhub ▸ hcurrent
    have hanswer := answer_addFinalizer hthere rfl hfree
    rw [attaching, World.run, attached, hanswer]
    rfl
  rw [lifecycle_run, hstate]
  show (w.recorded work).run (created work (w.answer (.createAppliedWork (.forWork work))).1) = _
  have hhub := (recorded_idem w work).1
  cases hrecord : w.member.applied? work.name with
  | none =>
      rw [recorded_of_not_applied hrecord]
      exact hattach _ hhub
  | some applied =>
      rw [recorded_of_applied (by rw [hrecord]; rfl)]
      exact hattach _ hhub

/-- Whenever a reconcile of the current copy of a Work without the finalizer goes through, as an
undisturbed one does, the Work has the finalizer and a record. It can rely on that record unless one
was there before that it could not rely on. -/
theorem backed_by_record (hcurrent : w.hub.work? (.ofWork work) = some work)
    (hstate : State.ofWork work = .unmanaged) :
    (w.run (reconcile work).run).1 = .ok .awaitChange ∧
      Backed work w (w.run (reconcile work).run).2 ∧
      ∀ fates action, AllPossible Scene.Truthful w fates (reconcile work).run →
        (w.attempt fates (reconcile work).run).1 = some (.ok action) →
        action = .awaitChange ∧ Backed work w (w.attempt fates (reconcile work).run).2.1 := by
  have hgoes : ∀ fates action, AllPossible Scene.Truthful w fates (reconcile work).run →
      (w.attempt fates (reconcile work).run).1 = some (.ok action) →
      action = .awaitChange ∧ Backed work w (w.attempt fates (reconcile work).run).2.1 := by
    intro fates action hpossible hok
    rw [lifecycle_run, hstate] at hpossible hok ⊢
    obtain ⟨haction, hworld⟩ := attempt_creating_ok hpossible hok
    exact ⟨haction, hworld ▸ backed_attached hcurrent hstate⟩
  have hrun := run_reconcile hcurrent hstate
  exact ⟨by rw [hrun], by rw [hrun]; exact backed_attached hcurrent hstate, hgoes⟩

end InMemory.World

/-! ### A Work that arrives where there is a record of its name -/

namespace InMemory.Recreated

open World

/-- A Work has arrived, and there is a record of its name. -/
def beside (applied : AppliedWork) : World :=
  { arrivedAt with member := ({} : Member).putApplied "demo" applied }

/-- The record that an earlier attempt has created. -/
def earlier : AppliedWork := ({} : Member).stored (.forWork Scene.arrived)

/-- The record while it is being deleted. -/
def leftover : AppliedWork :=
  { earlier with metadata := { earlier.metadata with deletionTimestamp := some Demo.epoch } }

/-- The record of an earlier attempt can be relied on, and it is not created again. -/
theorem arrival_backed_by_record :
    ((beside earlier).run (reconcile Scene.arrived).run).1 = .ok .awaitChange ∧
      ∃ applied, ((beside earlier).run (reconcile Scene.arrived).run).2.member.applied? "demo" =
        some applied ∧ applied = earlier ∧ applied.IsUsableFor Scene.arrived := by
  have hcurrent : (beside earlier).hub.work? (.ofWork Scene.arrived) = some Scene.arrived := rfl
  obtain ⟨hok, hbacked, -⟩ := backed_by_record hcurrent rfl
  obtain ⟨applied, hthere, hsame, husable⟩ := hbacked.record
  refine ⟨hok, applied, hthere, hsame earlier rfl, husable.2 fun before hbefore => ?_⟩
  cases hbefore
  exact stored_isUsableFor {} Scene.arrived

/-- The finalizer is attached while the record of the name is being deleted. -/
theorem backed_by_leftover : ¬ ∀ (w : World) (work : Work),
    w.hub.work? (.ofWork work) = some work → State.ofWork work = .unmanaged →
    (w.run (reconcile work).run).1 = .ok .awaitChange →
    ∃ applied, (w.run (reconcile work).run).2.member.applied? work.name = some applied ∧
      applied.IsUsableFor work := by
  intro hclaim
  obtain ⟨applied, hthere, husable⟩ := hclaim (beside leftover) Scene.arrived rfl rfl rfl
  cases hthere
  cases husable.stays

end InMemory.Recreated

end MemberAgent
