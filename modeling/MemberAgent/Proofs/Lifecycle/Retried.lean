import MemberAgent.Proofs.Lifecycle.Safety
import MemberAgent.Proofs.Ownership.Teardown

/-! Lifecycle reconciles tried again and again. An attempt may fail at any call, before or after the
call took effect, or be cut off; it then leaves the clusters as they were, with the first of its two
calls done, or with both. The first call does nothing when it is repeated, and after the second there
is nothing left to do, so one undisturbed reconcile gets from all three to the same end. -/

namespace MemberAgent

open InMemory Lifecycle

namespace Lifecycle.State

variable {w : Work}

theorem ofWork_eq_unmanaged_iff :
    ofWork w = .unmanaged ↔ w.hasFinalizer = false ∧ w.isDeleting = false := by
  unfold ofWork
  cases w.hasFinalizer <;> cases w.isDeleting <;> simp

theorem ofWork_eq_tracked_iff :
    ofWork w = .tracked ↔ w.hasFinalizer = true ∧ w.isDeleting = false := by
  unfold ofWork
  cases w.hasFinalizer <;> cases w.isDeleting <;> simp

theorem ofWork_eq_terminating_iff :
    ofWork w = .terminating ↔ w.hasFinalizer = true ∧ w.isDeleting = true := by
  unfold ofWork
  cases w.hasFinalizer <;> cases w.isDeleting <;> simp

theorem ofWork_eq_gone_iff :
    ofWork w = .gone ↔ w.hasFinalizer = false ∧ w.isDeleting = true := by
  unfold ofWork
  cases w.hasFinalizer <;> cases w.isDeleting <;> simp

end Lifecycle.State

namespace Work

variable {w : Work}

/-- The Work under the cleanup finalizer, as the hub stores it when that is attached. -/
def tracked (w : Work) : Work :=
  { w with
    metadata :=
      bumped
        { w.metadata with
          finalizers := some (w.metadata.finalizers.getD [] ++ [cleanupFinalizer]) } }

/-- The finalizers but the cleanup finalizer. -/
def otherFinalizers (w : Work) : Option (List String) :=
  w.metadata.finalizers.map (List.filter (· ≠ cleanupFinalizer))

/-- The Work without the cleanup finalizer, as the hub stores it when that is removed. -/
def untracked (w : Work) : Work :=
  { w with metadata := bumped { w.metadata with finalizers := w.otherFinalizers } }

theorem state_tracked (hstate : State.ofWork w = .unmanaged) :
    State.ofWork w.tracked = .tracked := by
  have hfinalizer : w.tracked.hasFinalizer = true := by
    simp [tracked, hasFinalizer, ObjectMeta.hasFinalizer, bumped]
  exact State.ofWork_eq_tracked_iff.2 ⟨hfinalizer, (State.ofWork_eq_unmanaged_iff.1 hstate).2⟩

theorem state_untracked (hstate : State.ofWork w = .terminating) :
    State.ofWork w.untracked = .gone := by
  have hfinalizer : w.untracked.hasFinalizer = false := by
    cases hf : w.metadata.finalizers <;>
      simp [untracked, otherFinalizers, hasFinalizer, ObjectMeta.hasFinalizer, bumped, hf]
  exact State.ofWork_eq_gone_iff.2 ⟨hfinalizer, (State.ofWork_eq_terminating_iff.1 hstate).2⟩

/-- The finalizer is attached once, behind the others. -/
theorem finalizers_tracked (hfree : w.hasFinalizer = false) :
    (w.tracked.metadata.finalizers.getD []).count cleanupFinalizer = 1 ∧
      (w.tracked.metadata.finalizers.getD []).filter (· ≠ cleanupFinalizer) =
        w.metadata.finalizers.getD [] := by
  have hnew : cleanupFinalizer ∉ w.metadata.finalizers.getD [] := by
    intro hmem
    have hthere : w.hasFinalizer = true := List.contains_iff_mem.2 hmem
    rw [hfree] at hthere
    cases hthere
  show (w.metadata.finalizers.getD [] ++ [cleanupFinalizer]).count cleanupFinalizer = 1 ∧
    (w.metadata.finalizers.getD [] ++ [cleanupFinalizer]).filter (· ≠ cleanupFinalizer) = _
  constructor
  · rw [List.count_append, List.count_eq_zero_of_not_mem hnew, List.count_singleton_self]
  · rw [List.filter_append, List.filter_eq_self.2, List.filter_eq_nil_iff.2, List.append_nil]
    · intro f hf
      rw [List.mem_singleton.1 hf]
      exact of_eq_true (by simp)
    · intro f hf
      exact decide_eq_true fun e => hnew (e ▸ hf)

end Work

namespace InMemory.World

variable {w : World} {key : WorkName} {work : Work} {fates : List Fate}

/-! ### What the calls of the lifecycle do when they are repeated -/

/-- The world after the record of a Work has been created. -/
def recorded (w : World) (work : Work) : World := (w.answer (.createAppliedWork (.forWork work))).2

def attached (w : World) (work : Work) : World :=
  (w.answer (.addFinalizer work cleanupFinalizer)).2

/-- The world after the record of a Work has been deleted. -/
def unrecorded (w : World) (work : Work) : World := (w.answer (.deleteAppliedWork work.name)).2

def detached (w : World) (work : Work) : World :=
  (w.answer (.removeFinalizer work cleanupFinalizer)).2

theorem recorded_of_applied (hthere : (w.member.applied? work.name).isSome) :
    w.answer (.createAppliedWork (.forWork work)) =
      (.error (.refused 409 "AlreadyExists" s!"appliedworks \"{work.name}\" already exists"), w) := by
  have hcreate : w.member.createApplied (.forWork work) =
      .error (.refused 409 "AlreadyExists" s!"appliedworks \"{work.name}\" already exists") :=
    if_pos hthere
  refine answer_of_perform_error ?_
  rw [perform, hcreate]
  rfl

theorem recorded_of_not_applied (hnone : w.member.applied? work.name = none) :
    w.answer (.createAppliedWork (.forWork work)) =
      (.ok (w.member.stored (.forWork work)),
        { w with
          member :=
            { w.member.putApplied work.name (w.member.stored (.forWork work)) with
              lastUid := w.member.lastUid + 1 } }) := by
  have hfree : ¬(w.member.applied? work.name).isSome := by
    rw [hnone]
    exact Bool.false_ne_true
  have hcreate : w.member.createApplied (.forWork work) = .ok (w.member.stored (.forWork work),
      { w.member.putApplied work.name (w.member.stored (.forWork work)) with
        lastUid := w.member.lastUid + 1 }) := if_neg hfree
  refine answer_of_perform ?_
  rw [perform, hcreate]
  rfl

/-- Creating a record leaves one behind, and takes place once. -/
theorem recorded_idem (w : World) (work : Work) :
    (w.recorded work).hub = w.hub ∧ ((w.recorded work).member.applied? work.name).isSome ∧
      (w.recorded work).recorded work = w.recorded work := by
  have hrepeat : ∀ v : World, (v.member.applied? work.name).isSome → v.recorded work = v := by
    intro v hv
    rw [recorded, recorded_of_applied hv]
  cases hrecord : w.member.applied? work.name with
  | some applied =>
      have hthere : (w.member.applied? work.name).isSome := by rw [hrecord]; rfl
      rw [hrepeat w hthere]
      exact ⟨rfl, hthere, hrepeat w hthere⟩
  | none =>
      have hcreated : ((w.recorded work).member.applied? work.name).isSome := by
        rw [recorded, recorded_of_not_applied hrecord]
        show ((w.member.putApplied work.name _).applied? work.name).isSome
        rw [Member.applied?_putApplied, if_pos rfl]
        rfl
      refine ⟨?_, hcreated, hrepeat _ hcreated⟩
      rw [recorded, recorded_of_not_applied hrecord]

/-- Deleting a record takes place once. -/
theorem unrecorded_idem (w : World) (work : Work) :
    (w.unrecorded work).hub = w.hub ∧
      (w.unrecorded work).unrecorded work = w.unrecorded work := by
  refine ⟨rfl, ?_⟩
  have hnone : (w.member.deleteApplied work.name).applied? work.name = none := by
    rw [Member.applied?_deleteApplied, if_pos rfl]
  show { w with member := (w.member.deleteApplied work.name).deleteApplied work.name } = _
  rw [Member.deleteApplied, hnone]
  rfl

theorem answer_addFinalizer (hcurrent : w.hub.work? key = some work) (hkey : .ofWork work = key)
    (hfree : work.hasFinalizer = false) :
    w.answer (.addFinalizer work cleanupFinalizer) =
      (.ok (), { w with hub := w.hub.put key work.tracked }) := by
  have hwrite : w.hub.addFinalizer work cleanupFinalizer = .ok (w.hub.put key work.tracked) := by
    have hnew : (work.metadata.finalizers.getD []).contains cleanupFinalizer = false := hfree
    refine (Hub.write_eq_ok_iff w.hub).2 ⟨work, by rw [hkey, hcurrent], rfl, ?_⟩
    dsimp only
    rw [hnew, hkey]
    rfl
  have hperform : w.perform (.addFinalizer work cleanupFinalizer) =
      .ok ((), { w with hub := w.hub.put key work.tracked }) := by
    rw [perform, hwrite]
    rfl
  exact answer_of_perform hperform

theorem attached_eq (hcurrent : w.hub.work? key = some work) (hkey : .ofWork work = key)
    (hfree : work.hasFinalizer = false) :
    w.attached work = { w with hub := w.hub.put key work.tracked } := by
  rw [attached, answer_addFinalizer hcurrent hkey hfree]

theorem detached_eq (hcurrent : w.hub.work? key = some work) (hkey : .ofWork work = key)
    (hdeleting : work.isDeleting = true) :
    w.detached work =
      { w with
        hub :=
          if (work.otherFinalizers.getD []).isEmpty then
            { w.hub with works := w.hub.works.erase key }
          else w.hub.put key work.untracked } := by
  have hwrite : w.hub.removeFinalizer work cleanupFinalizer = .ok
      (if (work.otherFinalizers.getD []).isEmpty then { w.hub with works := w.hub.works.erase key }
      else w.hub.put key work.untracked) := by
    refine (Hub.write_eq_ok_iff w.hub).2 ⟨work, by rw [hkey, hcurrent], rfl, ?_⟩
    dsimp only
    rw [hdeleting, Bool.true_and, hkey, ← Work.otherFinalizers]
    by_cases hlast : (work.otherFinalizers.getD []).isEmpty = true
    · rw [if_pos hlast, if_pos hlast]
    · rw [if_neg hlast, if_neg hlast]
      rfl
  have hperform : ∀ hub, w.hub.removeFinalizer work cleanupFinalizer = .ok hub →
      w.perform (.removeFinalizer work cleanupFinalizer) = .ok ((), { w with hub }) := by
    intro hub h
    rw [perform, h]
    rfl
  rw [detached, answer_of_perform (hperform _ hwrite)]

/-! ### One undisturbed reconcile -/

/-- The world after one undisturbed lifecycle reconcile of the current copy of a Work, which takes
place only if the Work exists. -/
def settled (w : World) (key : WorkName) : World :=
  match w.hub.work? key with
  | none => w
  | some work => (w.run (reconcile work).run).2

theorem settled_eq (hcurrent : w.hub.work? key = some work) :
    w.settled key = match State.ofWork work with
      | .unmanaged => (w.recorded work).attached work
      | .terminating => (w.unrecorded work).detached work
      | .tracked | .gone => w := by
  unfold settled
  rw [hcurrent]
  dsimp only
  rw [lifecycle_run]
  cases State.ofWork work with
  | tracked | gone => rfl
  | terminating => rfl
  | unmanaged =>
      show ((w.recorded work).run
        (created work (w.answer (.createAppliedWork (.forWork work))).1)).2 = _
      cases hrecord : w.member.applied? work.name with
      | none =>
          rw [recorded_of_not_applied hrecord]
          rfl
      | some applied =>
          rw [recorded_of_applied (by rw [hrecord]; rfl)]
          rfl

/-- Once the finalizer is attached, nothing is left to do. -/
theorem settled_attached (hcurrent : w.hub.work? key = some work) (hkey : .ofWork work = key)
    (hstate : State.ofWork work = .unmanaged) :
    (w.attached work).settled key = w.attached work := by
  have hfree : work.hasFinalizer = false := (State.ofWork_eq_unmanaged_iff.1 hstate).1
  have hstored : (w.attached work).hub.work? key = some work.tracked := by
    rw [attached_eq hcurrent hkey hfree, Hub.work?_put, if_pos rfl]
  rw [settled_eq hstored, Work.state_tracked hstate]

/-- Once the finalizer is removed, nothing is left to do. -/
theorem settled_detached (hcurrent : w.hub.work? key = some work) (hkey : .ofWork work = key)
    (hstate : State.ofWork work = .terminating) :
    (w.detached work).settled key = w.detached work := by
  have hdeleting : work.isDeleting = true := (State.ofWork_eq_terminating_iff.1 hstate).2
  rw [detached_eq hcurrent hkey hdeleting]
  split
  · unfold settled
    rw [Hub.work?_erase, if_pos rfl]
  · have hstored : (w.hub.put key work.untracked).work? key = some work.untracked := by
      rw [Hub.work?_put, if_pos rfl]
    rw [settled_eq hstored, Work.state_untracked hstate]

/-! ### Attempts -/

/-- Whether every fate is possible where a run meets it. -/
def AllPossible {α : Type} (possible : World → Fate → ClientCall → Prop) :
    World → List Fate → Program clientCalls α → Prop
  | _, _, .done _ => True
  | _, [], .call _ _ => True
  | w, fate :: rest, .call c next =>
    possible w fate c ∧ AllPossible possible (w.meet fate c).2 rest (next (w.meet fate c).1)

/-- What comes of attempts to reconcile the life of a Work, each on the copy that is then current. -/
inductive Attempts (possible : World → Fate → ClientCall → Prop) (key : WorkName) (start : World) :
    World → Prop where
  | none : Attempts possible key start start
  | another {w : World} {work : Work} (fates : List Fate) (hbefore : Attempts possible key start w)
      (hcurrent : w.hub.work? key = some work)
      (hpossible : AllPossible possible w fates (reconcile work).run) :
      Attempts possible key start (w.attempt fates (reconcile work).run).2.1

/-- The last call of a reconcile takes effect, or it does not. -/
theorem attempt_last (w : World) (fates : List Fate) {c : ClientCall}
    {f : Except Failure c.Value → Except Failure Action} :
    (w.attempt fates (.call c fun reply => .done (f reply))).2.1 = w ∨
      (w.attempt fates (.call c fun reply => .done (f reply))).2.1 = (w.answer c).2 := by
  cases fates with
  | nil => exact Or.inl rfl
  | cons fate rest => exact meet_world w fate c

/-- An attempt to take up a Work creates the record, and attaches the finalizer only after that. -/
theorem attempt_creating (hpossible : AllPossible Scene.Truthful w fates (creating work)) :
    (w.attempt fates (creating work)).2.1 = w ∨
      (w.attempt fates (creating work)).2.1 = w.recorded work ∨
      (w.attempt fates (creating work)).2.1 = (w.recorded work).attached work := by
  cases fates with
  | nil => exact Or.inl rfl
  | cons fate rest =>
      have hgo : ∀ v : World, (v.attempt rest (attaching work)).2.1 = v ∨
          (v.attempt rest (attaching work)).2.1 = v.attached work := fun v => attempt_last v rest
      have hcreated : ∀ (v : World) (reply : Except Failure AppliedWork),
          (v.attempt rest (created work reply)).2.1 = v ∨
            (v.attempt rest (created work reply)).2.1 = v.attached work := by
        intro v reply
        cases reply with
        | ok => exact hgo v
        | error failure =>
            rw [created]
            split
            · exact hgo v
            · exact Or.inl rfl
      show (World.attempt (w.meet fate (.createAppliedWork (.forWork work))).2 rest
        (created work (w.meet fate (.createAppliedWork (.forWork work))).1)).2.1 = _ ∨ _
      cases fate with
      | answered | lost => exact Or.inr (hcreated (w.recorded work) _)
      | refused failure =>
          by_cases hexists : failure.isAlreadyExists = true
          · have hthere : (w.member.applied? work.name).isSome := hpossible.1 hexists
            have hrecorded : w.recorded work = w := by rw [recorded, recorded_of_applied hthere]
            rw [hrecorded]
            exact Or.inr (hcreated w _)
          · refine Or.inl ?_
            show (w.attempt rest (created work (.error failure))).2.1 = w
            rw [created, if_neg hexists]
            rfl

/-- An attempt to let a Work go deletes the record, and removes the finalizer only after that. -/
theorem attempt_dropping (w : World) (work : Work) (fates : List Fate) :
    (w.attempt fates (dropping work)).2.1 = w ∨
      (w.attempt fates (dropping work)).2.1 = w.unrecorded work ∨
      (w.attempt fates (dropping work)).2.1 = (w.unrecorded work).detached work := by
  cases fates with
  | nil => exact Or.inl rfl
  | cons fate rest =>
      cases fate with
      | refused => exact Or.inl rfl
      | lost => exact Or.inr (Or.inl rfl)
      | answered =>
          exact Or.inr (attempt_last (w.unrecorded work) rest)

/-- What an attempt leaves settles where the clusters would have settled before it. -/
theorem settled_attempt (hcurrent : w.hub.work? key = some work) (hkey : .ofWork work = key)
    (hpossible : AllPossible Scene.Truthful w fates (reconcile work).run) :
    (w.attempt fates (reconcile work).run).2.1.settled key = w.settled key := by
  rw [lifecycle_run] at hpossible ⊢
  have hsettled := settled_eq hcurrent
  cases hstate : State.ofWork work with
  | tracked | gone => rfl
  | unmanaged =>
      rw [hstate] at hpossible hsettled
      obtain ⟨hhub, -, hrepeat⟩ := recorded_idem w work
      have hthere : (w.recorded work).hub.work? key = some work := hhub ▸ hcurrent
      rcases attempt_creating hpossible with h | h | h <;> dsimp only <;> rw [h]
      · rw [settled_eq hthere, hstate, hsettled]
        dsimp only
        rw [hrepeat]
      · rw [settled_attached hthere hkey hstate, hsettled]
  | terminating =>
      rw [hstate] at hsettled
      obtain ⟨hhub, hrepeat⟩ := unrecorded_idem w work
      have hthere : (w.unrecorded work).hub.work? key = some work := hhub ▸ hcurrent
      rcases attempt_dropping w work fates with h | h | h <;> dsimp only <;> rw [h]
      · rw [settled_eq hthere, hstate, hsettled]
        dsimp only
        rw [hrepeat]
      · rw [settled_detached hthere hkey hstate, hsettled]

theorem named_attempts {start : World} (hnamed : start.hub.Named key)
    (hattempts : Attempts Scene.Truthful key start w) : w.hub.Named key := by
  induction hattempts with
  | none => exact hnamed
  | @another v work fates _ _ _ ih =>
      have hreaches : Reaches (fun _ => True) v (reconcile work).run
          fun _ v' => v'.hub.Named key := by
        refine Reaches.of_onlyCalls (fun v fate c _ _ hv => ?_) (Program.onlyCalls_any _) ih
        exact hv.of_names fun _ hl' => names_meet fate c hl'
      exact hreaches fates fun _ _ => trivial

/-! ### Where attempts lead -/

/-- A Work is taken up: the finalizer is attached to it, once and behind its others, a new record
stands for it, and that is all that changes. -/
structure TakesUp (key : WorkName) (work : Work) (w w' : World) : Prop where
  changed : w' = { w with
    hub := w.hub.put key work.tracked
    member := { w.member.putApplied work.name (w.member.stored (.forWork work)) with
      lastUid := w.member.lastUid + 1 } }
  once : (work.tracked.metadata.finalizers.getD []).count cleanupFinalizer = 1
  others : (work.tracked.metadata.finalizers.getD []).filter (· ≠ cleanupFinalizer) =
    work.metadata.finalizers.getD []

/-- A Work is let go: it has no record, what was its record owns nothing, and the Work is without the
finalizer, or gone with its last one. -/
structure LetsGo (key : WorkName) (work : Work) (w w' : World) : Prop where
  unrecorded : w'.member.applied? work.name = none
  disowned : ∀ uid, w.member.recordUid work.name = some uid → ∀ place o,
    ¬w'.member.Holds uid place o
  stored : w'.hub.work? key =
    if (work.otherFinalizers.getD []).isEmpty then none else some work.untracked

theorem takesUp_settled (hcurrent : w.hub.work? key = some work) (hkey : .ofWork work = key)
    (hstate : State.ofWork work = .unmanaged) (hnone : w.member.applied? work.name = none) :
    TakesUp key work w (w.settled key) := by
  have hfree : work.hasFinalizer = false := (State.ofWork_eq_unmanaged_iff.1 hstate).1
  obtain ⟨honce, hothers⟩ := Work.finalizers_tracked hfree
  refine ⟨?_, honce, hothers⟩
  have hthere : (w.recorded work).hub.work? key = some work := (recorded_idem w work).1 ▸ hcurrent
  rw [settled_eq hcurrent, hstate]
  dsimp only
  rw [attached_eq hthere hkey hfree, recorded, recorded_of_not_applied hnone]

theorem letsGo_settled (hcurrent : w.hub.work? key = some work) (hkey : .ofWork work = key)
    (hstate : State.ofWork work = .terminating) : LetsGo key work w (w.settled key) := by
  have hdeleting : work.isDeleting = true := (State.ofWork_eq_terminating_iff.1 hstate).2
  have hsettled := settled_eq hcurrent
  rw [hstate] at hsettled
  dsimp only at hsettled
  rw [detached_eq (w := w.unrecorded work) hcurrent hkey hdeleting] at hsettled
  rw [hsettled]
  refine ⟨?_, fun uid huid place _ => Member.not_holds_deleteApplied huid place, ?_⟩
  · show (w.member.deleteApplied work.name).applied? work.name = none
    rw [Member.applied?_deleteApplied, if_pos rfl]
  · dsimp only
    split
    · rw [Hub.work?_erase, if_pos rfl]
    · rw [Hub.work?_put, if_pos rfl]

/-- Whatever becomes of attempts to reconcile the life of a Work, one undisturbed reconcile after
them leads where it would have led before them: a Work that nothing is known of is taken up, one that
is being deleted is let go. -/
theorem settled_after_attempts {start : World} (hnamed : start.hub.Named key)
    (hattempts : Attempts Scene.Truthful key start w) :
    w.settled key = start.settled key ∧ ∀ work, start.hub.work? key = some work →
      (State.ofWork work = .unmanaged → start.member.applied? work.name = none →
        TakesUp key work start (w.settled key)) ∧
      (State.ofWork work = .terminating → LetsGo key work start (w.settled key)) := by
  have hsettled : w.settled key = start.settled key := by
    induction hattempts with
    | none => rfl
    | another fates hbefore hcurrent hpossible ih =>
        have hkey := (named_attempts hnamed hbefore).ofWork hcurrent
        rw [settled_attempt hcurrent hkey hpossible, ih]
  refine ⟨hsettled, fun work hcurrent => ?_⟩
  rw [hsettled]
  have hkey := hnamed.ofWork hcurrent
  exact ⟨takesUp_settled hcurrent hkey, letsGo_settled hcurrent hkey⟩

/-- Where the Work that has just arrived is reconciled. -/
def arrivedAt : World := { hub := ({} : Hub).insert Scene.arrival }

/-- The record is created although its creation is reported as failed; the next attempt is cut off
before the finalizer is attached. -/
theorem arrival_taken_up_after_attempts :
    arrivedAt.hub.Named ⟨"cluster1", "demo"⟩ ∧ ∃ w,
      Attempts Scene.Truthful ⟨"cluster1", "demo"⟩ arrivedAt w ∧
      w.member.applied? "demo" ≠ none ∧
      TakesUp ⟨"cluster1", "demo"⟩ Scene.arrived arrivedAt (w.settled ⟨"cluster1", "demo"⟩) := by
  have hnamed : arrivedAt.hub.Named ⟨"cluster1", "demo"⟩ := by
    rintro l ⟨⟩
    rfl
  have hlost : Attempts Scene.Truthful ⟨"cluster1", "demo"⟩ arrivedAt
      (arrivedAt.attempt [.lost (.timeout "create" 30)] (reconcile Scene.arrived).run).2.1 :=
    .another _ .none rfl ⟨trivial, trivial⟩
  have hcut := Attempts.another [.answered] hlost (show _ = some Scene.arrived from rfl)
    ⟨trivial, trivial⟩
  refine ⟨hnamed, _, hcut, nofun, ?_⟩
  exact ((settled_after_attempts hnamed hcut).2 Scene.arrived rfl).1 rfl rfl

/-- After a refusal that says that a record exists where there is none, no reconcile creates it. -/
theorem unsettled_after_untruthful_refusal :
    ¬∀ key start w, start.hub.Named key → Attempts (fun _ _ _ => True) key start w →
      w.settled key = start.settled key := by
  intro hsettled
  have hnamed : arrivedAt.hub.Named ⟨"cluster1", "demo"⟩ := by
    rintro l ⟨⟩
    rfl
  have hattempts : Attempts (fun _ _ _ => True) ⟨"cluster1", "demo"⟩ arrivedAt
      (arrivedAt.attempt [.refused (.refused 409 "AlreadyExists" "it exists"), .answered]
        (reconcile Scene.arrived).run).2.1 :=
    .another _ .none rfl ⟨trivial, trivial, trivial⟩
  have hrecord := congrArg (fun w => (w.member.applied? "demo").isSome)
    (hsettled _ _ _ hnamed hattempts)
  cases hrecord

end InMemory.World

end MemberAgent
