import MemberAgent.Proofs.Lifecycle.Scene
import MemberAgent.Proofs.Lifecycle.Standing

/-! How far a lifecycle reconcile has got, and what that says about the standing of its name. A
reconcile that is about to attach the finalizer has left a record behind; one that is about to remove
it has deleted the record, and its Work is still being deleted. -/

namespace MemberAgent.InMemory

/-- What is left before the finalizer is attached. -/
def attaching (w : Work) : Running :=
  .call (.addFinalizer w cleanupFinalizer) fun reply => .done (reply.map fun _ => .awaitChange)

/-- What is left after the reply to the creation of the record. -/
def created (w : Work) : Except Failure AppliedWork → Running
  | .ok _ => attaching w
  | .error failure => if failure.isAlreadyExists then attaching w else .done (.error failure)

/-- What is left before the record is created. -/
def creating (w : Work) : Running := .call (.createAppliedWork (.forWork w)) (created w)

/-- What is left before the finalizer is removed. -/
def detaching (w : Work) : Running :=
  .call (.removeFinalizer w cleanupFinalizer) fun reply => .done (reply.map fun _ => .awaitChange)

/-- What is left before the record is deleted. -/
def dropping (w : Work) : Running :=
  .call (.deleteAppliedWork w.name) fun
    | .ok _ => detaching w
    | .error failure => .done (.error failure)

theorem lifecycle_run (w : Work) : (Lifecycle.reconcile w).run =
    match Lifecycle.State.ofWork w with
    | .unmanaged => creating w
    | .terminating => dropping w
    | .tracked | .gone => .done (.ok .awaitChange) := by
  have hattach : (do request (.addFinalizer w cleanupFinalizer); return .awaitChange :
      Reconcile Action).run = attaching w :=
    congrArg (Program.call (I := clientCalls) _) (funext fun reply => by cases reply <;> rfl)
  have hdetach : (do request (.removeFinalizer w cleanupFinalizer); return .awaitChange :
      Reconcile Action).run = detaching w :=
    congrArg (Program.call (I := clientCalls) _) (funext fun reply => by cases reply <;> rfl)
  unfold Lifecycle.reconcile
  cases Lifecycle.State.ofWork w with
  | tracked | gone => rfl
  | terminating =>
      refine congrArg (Program.call (I := clientCalls) _) (funext fun reply => ?_)
      cases reply with
      | error => rfl
      | ok => exact hdetach
  | unmanaged =>
      refine congrArg (Program.call (I := clientCalls) _) (funext fun reply => ?_)
      cases reply with
      | ok => exact hattach
      | error failure =>
          show ((if !failure.isAlreadyExists then _ else request (.addFinalizer w cleanupFinalizer)) >>=
            fun _ => pure .awaitChange : Reconcile Action).run =
              if failure.isAlreadyExists then attaching w else .done (.error failure)
          cases failure.isAlreadyExists with
          | true => exact hattach
          | false => rfl

/-- The phases of a reconcile of a name. -/
inductive Phase (key : WorkName) (v : Standing) : Running → Prop where
  | creating (w : Work) (hkey : .ofWork w = key) : Phase key v (creating w)
  | attaching (w : Work) (hkey : .ofWork w = key) (hrecorded : v.recorded = true) :
      Phase key v (attaching w)
  | dropping (w : Work) (hkey : .ofWork w = key) (hleaving : v.Leaving) : Phase key v (dropping w)
  | detaching (w : Work) (hkey : .ofWork w = key) (hleaving : v.Leaving)
      (hunrecorded : v.recorded = false) : Phase key v (detaching w)
  | ended (result : Except Failure Action) : Phase key v (.done result)

namespace Phase

variable {key : WorkName} {v v' : Standing} {p : Running}

theorem drift (hdrift : v.Drift v') (hp : Phase key v p) : Phase key v' p := by
  cases hp with
  | creating w hkey => exact .creating w hkey
  | attaching w hkey hrecorded => exact .attaching w hkey (hdrift.recorded_eq ▸ hrecorded)
  | dropping w hkey hleaving => exact .dropping w hkey (hdrift.leaving hleaving)
  | detaching w hkey hleaving hunrecorded =>
      exact .detaching w hkey (hdrift.leaving hleaving) (hdrift.recorded_eq ▸ hunrecorded)
  | ended result => exact .ended result

/-- A reconcile starts in a phase that the current copy of its Work bears out. -/
theorem start {w : Work} (hkey : .ofWork w = key) (hlife : v.life = some w.life) :
    Phase key v (Lifecycle.reconcile w).run := by
  rw [lifecycle_run]
  cases hstate : Lifecycle.State.ofWork w with
  | unmanaged => exact .creating w hkey
  | tracked | gone => exact .ended _
  | terminating =>
      refine .dropping w hkey ⟨w.life, hlife, ?_⟩
      unfold Lifecycle.State.ofWork at hstate
      show w.hasFinalizer = true ∧ w.isDeleting = true
      split at hstate
      · cases hstate
      · cases hstate
      · next hf hd => exact ⟨hf, hd⟩
      · cases hstate

variable {w : World} {«namespace» name : String} {c : ClientCall}
  {next : Except Failure c.Value → Running}

/-- A reconcile does not touch the standing of another name. -/
theorem call_other (hp : Phase ⟨«namespace», name⟩ v (.call c next)) (fate : Fate) {other : String}
    (hother : name ≠ other) :
    (w.meet fate c).2.standing «namespace» other = w.standing «namespace» other := by
  rcases World.meet_world w fate c with h | h <;> rw [h]
  have hkey : ∀ {work : Work}, WorkName.ofWork work = ⟨«namespace», name⟩ →
      work.name ≠ other ∧ WorkName.ofWork work ≠ ⟨«namespace», other⟩ := by
    intro work hkey
    have hname : work.name = name := congrArg WorkName.name hkey
    refine ⟨hname ▸ hother, fun e => hother ?_⟩
    rw [← hname]
    exact congrArg WorkName.name e
  generalize hq : Program.call (I := clientCalls) c next = q at hp
  cases hp with
  | creating work hwork =>
      cases hq
      rw [World.standing_answer_createAppliedWork]
      exact if_neg (hkey hwork).1
  | attaching work hwork =>
      cases hq
      rcases World.standing_answer_addFinalizer w «namespace» other work with h | ⟨e, -⟩
      · exact h
      · exact absurd e (hkey hwork).2
  | dropping work hwork =>
      cases hq
      rw [World.standing_answer_deleteAppliedWork]
      exact if_neg (hkey hwork).1
  | detaching work hwork =>
      cases hq
      rcases World.standing_answer_removeFinalizer w «namespace» other work with h | ⟨e, -⟩
      · exact h
      · exact absurd e (hkey hwork).2
  | ended => cases hq

theorem call_guarded (hp : Phase ⟨«namespace», name⟩ (w.standing «namespace» name) (.call c next))
    (hcovered : (w.standing «namespace» name).Covered) (fate : Fate) :
    Standing.Guarded (w.standing «namespace» name)
      ((w.meet fate c).2.standing «namespace» name) := by
  rcases World.meet_world w fate c with h | h <;> rw [h]
  · exact .of_life_eq rfl hcovered
  generalize hq : Program.call (I := clientCalls) c next = q at hp
  cases hp with
  | creating work hwork =>
      cases hq
      have hname : (AppliedWork.forWork work).name = name := congrArg WorkName.name hwork
      rw [World.standing_answer_createAppliedWork, if_pos hname]
      exact .of_life_eq rfl (Standing.covered_of_recorded rfl)
  | attaching work hwork hrecorded =>
      cases hq
      rcases World.standing_answer_addFinalizer w «namespace» name work with h | ⟨-, l, -, h⟩
      · rw [h]
        exact .of_life_eq rfl hcovered
      · rw [h]
        exact ⟨Standing.covered_of_recorded hrecorded, fun _ hlost => absurd ⟨_, rfl, rfl⟩ hlost⟩
  | dropping work hwork hleaving =>
      cases hq
      have hname : work.name = name := congrArg WorkName.name hwork
      rw [World.standing_answer_deleteAppliedWork, if_pos hname]
      exact .of_life_eq rfl (Standing.Leaving.covered hleaving)
  | detaching work hwork hleaving hunrecorded =>
      cases hq
      refine ⟨?_, fun _ _ => hunrecorded⟩
      rcases World.standing_answer_removeFinalizer w «namespace» name work with
        h | ⟨-, l, -, h | h⟩ <;> rw [h]
      · exact hcovered
      · rintro _ ⟨⟩
      · rintro _ ⟨⟩ ⟨⟩
  | ended => cases hq

/-- A record is there after any reply to its creation that lets the reconcile go on. -/
theorem created {work : Work} (hkey : .ofWork work = key) {r : Except Failure AppliedWork}
    (hrecorded : (∀ failure, r = .error failure → failure.isAlreadyExists = true) →
      v.recorded = true) : Phase key v (InMemory.created work r) := by
  cases r with
  | ok => exact .attaching work hkey (hrecorded fun _ h => by cases h)
  | error failure =>
      rw [InMemory.created]
      split
      · next hexists => exact .attaching work hkey (hrecorded fun _ h => by cases h; exact hexists)
      · exact .ended _

theorem call_next (hp : Phase ⟨«namespace», name⟩ (w.standing «namespace» name) (.call c next))
    {fate : Fate} (hpossible : Scene.Truthful w fate c) :
    Phase ⟨«namespace», name⟩ ((w.meet fate c).2.standing «namespace» name)
      (next (w.meet fate c).1) := by
  generalize hq : Program.call (I := clientCalls) c next = q at hp
  cases hp with
  | creating work hwork =>
      cases hq
      refine created hwork fun hexists => ?_
      have hname : (AppliedWork.forWork work).name = name := congrArg WorkName.name hwork
      have hanswer : ((w.answer (.createAppliedWork (.forWork work))).2.standing «namespace»
          name).recorded = true := by
        rw [World.standing_answer_createAppliedWork, if_pos hname]
      cases fate with
      | answered | lost => exact hanswer
      | refused failure =>
          rw [← hname]
          exact hpossible (hexists failure rfl)
  | dropping work hwork hleaving =>
      cases hq
      cases fate with
      | refused | lost => exact .ended _
      | answered =>
          have hname : work.name = name := congrArg WorkName.name hwork
          show Phase _ ((w.answer (.deleteAppliedWork work.name)).2.standing «namespace» name)
            (InMemory.detaching work)
          rw [World.standing_answer_deleteAppliedWork, if_pos hname]
          exact .detaching work hwork hleaving rfl
  | attaching | detaching => cases hq; exact .ended _
  | ended => cases hq

end Phase

end MemberAgent.InMemory
