import MemberAgent.Proofs.Lifecycle.Safety
import MemberAgent.Proofs.Tracking.Upkeep

/-! Records without a Work. A record is created before the finalizer is attached that would have it
deleted, so a Work that has a record and no finalizer yet must not be deleted: it would go at once, and
nothing would delete its record any more. Nothing else leaves a record behind. -/

namespace MemberAgent.InMemory

/-- Reconciles side by side over the Works of all namespaces. At most one lifecycle reconcile of a
Work is under way, and any number of others. -/
structure Stage where
  world : World
  lifecycle : WorkName → Option Running := fun _ => none
  others : List Running := []

namespace Stage

def onHub (s : Stage) (hub : Hub) : Stage := { s with world := { s.world with hub } }

/-- Any call may meet any fate, and a lifecycle reconcile may be abandoned at any time. `mayDelete`
says when the deletion of a Work may be requested. -/
inductive Step (mayDelete : Stage → WorkName → Prop) : Stage → Stage → Prop where
  | insert {s : Stage} (w : Work) (hfree : w.hasFinalizer = false) :
      Step mayDelete s (s.onHub (s.world.hub.insert w))
  | edit {s : Stage} (key : WorkName) (manifests : List Json) {hub : Hub}
      (hedit : s.world.hub.updateManifests key manifests = some hub) :
      Step mayDelete s (s.onHub hub)
  | requestDeletion {s : Stage} (key : WorkName) (now : Timestamp) (hmay : mayDelete s key) :
      Step mayDelete s (s.onHub (s.world.hub.requestDeletion key now))
  | startLifecycle {s : Stage} (key : WorkName) {w : Work}
      (hcurrent : s.world.hub.work? key = some w) (hidle : s.lifecycle key = none) :
      Step mayDelete s
        { s with lifecycle := Function.update s.lifecycle key (some (Lifecycle.reconcile w).run) }
  | callLifecycle {s : Stage} (key : WorkName) (fate : Fate) {c : ClientCall}
      {next : Except Failure c.Value → Running} (hat : s.lifecycle key = some (.call c next)) :
      Step mayDelete s
        { s with
          world := (s.world.meet fate c).2
          lifecycle := Function.update s.lifecycle key (some (next (s.world.meet fate c).1)) }
  | endLifecycle {s : Stage} (key : WorkName) :
      Step mayDelete s { s with lifecycle := Function.update s.lifecycle key none }
  | startOther {s : Stage} {p : Running} (hother : Scene.Other p) :
      Step mayDelete s { s with others := p :: s.others }
  | callOther {s : Stage} (before after : List Running) (fate : Fate) {c : ClientCall}
      {next : Except Failure c.Value → Running} (hat : s.others = before ++ .call c next :: after) :
      Step mayDelete s
        { s with
          world := (s.world.meet fate c).2
          others := before ++ next (s.world.meet fate c).1 :: after }

/-- What comes of empty clusters. -/
def Reachable (mayDelete : Stage → WorkName → Prop) (kinds : List ResourceMapping) (s : Stage) :
    Prop :=
  Relation.ReflTransGen (Step mayDelete) { world := { kinds } } s

/-- A name has a record, but no Work in any namespace. -/
def Orphaned (s : Stage) (name : String) : Prop :=
  (s.world.member.applied? name).isSome ∧
    ∀ «namespace», s.world.hub.work? ⟨«namespace», name⟩ = none

/-- A Work that goes at once when its deletion is requested has no record, and no lifecycle reconcile
of it is under way, which might be about to create one. -/
def Prudent (s : Stage) (key : WorkName) : Prop :=
  ∀ work, s.world.hub.work? key = some work → (work.metadata.finalizers.getD []).isEmpty →
    s.world.member.applied? key.name = none ∧ s.lifecycle key = none

end Stage

/-! ### What is left of a lifecycle reconcile -/

/-- The stations of a reconcile of a Work. -/
inductive Course (key : WorkName) : Running → Prop where
  | creating (w : Work) (hkey : .ofWork w = key) : Course key (creating w)
  | attaching (w : Work) (hkey : .ofWork w = key) : Course key (attaching w)
  | dropping (w : Work) (hkey : .ofWork w = key) : Course key (dropping w)
  | detaching (w : Work) (hkey : .ofWork w = key) : Course key (detaching w)
  | ended (result : Except Failure Action) : Course key (.done result)

/-- Whether a record is created next. -/
def AboutToCreate : Running → Prop
  | .call (.createAppliedWork _) _ => True
  | _ => False

/-- Whether a finalizer is removed next. -/
def AboutToDetach : Running → Prop
  | .call (.removeFinalizer _ _) _ => True
  | _ => False

/-- What a call of a reconcile `p` does to the standing of its own name, where `p'` is left of it. -/
inductive Course.Moves (v v' : Standing) (p p' : Running) : Prop where
  | creates (h : AboutToCreate p) (hlife : v'.life = v.life) (hp' : ¬AboutToDetach p')
  | keeps (hlife : v.life.isSome → v'.life.isSome) (hrecorded : v'.recorded = v.recorded)
      (hp' : ¬AboutToDetach p')
  | drops (hrecorded : v'.recorded = false)
  | detaches (h : AboutToDetach p) (hrecorded : v'.recorded = v.recorded)

namespace Course

variable {key : WorkName} {w w' : World} {p p' : Running}

theorem start {work : Work} (hkey : .ofWork work = key) :
    Course key (Lifecycle.reconcile work).run ∧
      ¬AboutToDetach (Lifecycle.reconcile work).run := by
  rw [lifecycle_run]
  cases Lifecycle.State.ofWork work with
  | unmanaged => exact ⟨.creating work hkey, id⟩
  | terminating => exact ⟨.dropping work hkey, id⟩
  | tracked | gone => exact ⟨.ended _, id⟩

theorem created {work : Work} (hkey : .ofWork work = key) (reply : Except Failure AppliedWork) :
    Course key (InMemory.created work reply) ∧ ¬AboutToCreate (InMemory.created work reply) ∧
      ¬AboutToDetach (InMemory.created work reply) := by
  cases reply with
  | ok => exact ⟨.attaching work hkey, id, id⟩
  | error failure =>
      rw [InMemory.created]
      split
      · exact ⟨.attaching work hkey, id, id⟩
      · exact ⟨.ended _, id, id⟩

variable {c : ClientCall} {next : Except Failure c.Value → Running}

/-- A reconcile changes no other Work and no record of another name. -/
theorem call_elsewhere (hp : Course key (.call c next)) (w : World) (fate : Fate)
    («namespace» name : String) :
    (name ≠ key.name → (w.meet fate c).2.standing «namespace» name = w.standing «namespace» name) ∧
      (⟨«namespace», name⟩ ≠ key → ((w.meet fate c).2.standing «namespace» name).life =
        (w.standing «namespace» name).life) := by
  rcases World.meet_world w fate c with h | h <;> rw [h]
  · exact ⟨fun _ => rfl, fun _ => rfl⟩
  generalize hq : Program.call (I := clientCalls) c next = q at hp
  cases hp with
  | creating work hkey =>
      cases hq
      have hname : (AppliedWork.forWork work).name = key.name := congrArg WorkName.name hkey
      rw [World.standing_answer_createAppliedWork, hname]
      refine ⟨fun hother => if_neg hother.symm, fun _ => ?_⟩
      split <;> rfl
  | attaching work hkey =>
      cases hq
      rcases World.standing_answer_addFinalizer w «namespace» name work with h | ⟨e, -⟩
      · rw [h]
        exact ⟨fun _ => rfl, fun _ => rfl⟩
      · have hsame : key = ⟨«namespace», name⟩ := hkey.symm.trans e
        exact ⟨fun hother => absurd (hsame ▸ rfl) hother, fun hother => absurd hsame.symm hother⟩
  | dropping work hkey =>
      cases hq
      have hname : work.name = key.name := congrArg WorkName.name hkey
      rw [World.standing_answer_deleteAppliedWork, hname]
      refine ⟨fun hother => if_neg hother.symm, fun _ => ?_⟩
      split <;> rfl
  | detaching work hkey =>
      cases hq
      rcases World.standing_answer_removeFinalizer w «namespace» name work with h | ⟨e, -⟩
      · rw [h]
        exact ⟨fun _ => rfl, fun _ => rfl⟩
      · have hsame : key = ⟨«namespace», name⟩ := hkey.symm.trans e
        exact ⟨fun hother => absurd (hsame ▸ rfl) hother, fun hother => absurd hsame.symm hother⟩
  | ended => cases hq

theorem call (hp : Course key (.call c next)) (w : World) (fate : Fate) :
    Course key (next (w.meet fate c).1) ∧ ¬AboutToCreate (next (w.meet fate c).1) ∧
      Moves (w.standing key.namespace key.name)
        ((w.meet fate c).2.standing key.namespace key.name) (.call c next)
        (next (w.meet fate c).1) := by
  generalize hq : Program.call (I := clientCalls) c next = q at hp
  cases hp with
  | creating work hkey =>
      cases hq
      obtain ⟨hcourse, hcreate, hdetach⟩ :=
        created hkey (w.meet fate (.createAppliedWork (.forWork work))).1
      refine ⟨hcourse, hcreate, .creates trivial ?_ hdetach⟩
      rcases World.meet_world w fate (.createAppliedWork (.forWork work)) with h | h <;> rw [h]
      rw [World.standing_answer_createAppliedWork]
      split <;> rfl
  | attaching work hkey =>
      cases hq
      refine ⟨.ended _, id, ?_⟩
      rcases World.meet_world w fate (.addFinalizer work cleanupFinalizer) with h | h <;> rw [h]
      · exact .keeps id rfl id
      rcases World.standing_answer_addFinalizer w key.namespace key.name work with
        h | ⟨-, l, -, h⟩ <;> rw [h]
      · exact .keeps id rfl id
      · exact .keeps (fun _ => rfl) rfl id
  | dropping work hkey =>
      cases hq
      have hgone : ((w.answer (.deleteAppliedWork work.name)).2.standing key.namespace
          key.name).recorded = false := by
        have hname : work.name = key.name := congrArg WorkName.name hkey
        rw [World.standing_answer_deleteAppliedWork, if_pos hname]
      cases fate with
      | answered => exact ⟨.detaching work hkey, id, .drops hgone⟩
      | lost => exact ⟨.ended _, id, .drops hgone⟩
      | refused => exact ⟨.ended _, id, .keeps id rfl id⟩
  | detaching work hkey =>
      cases hq
      refine ⟨.ended _, id, .detaches trivial ?_⟩
      rcases World.meet_world w fate (.removeFinalizer work cleanupFinalizer) with h | h <;> rw [h]
      rcases World.standing_answer_removeFinalizer w key.namespace key.name work with
        h | ⟨-, l, -, h | h⟩ <;> rw [h]
  | ended => cases hq

end Course

namespace Hub

variable {h : Hub} {key : WorkName}

theorem life?_eq_none_iff : h.life? key = none ↔ h.work? key = none := Option.map_eq_none_iff

/-- Only a Work without finalizers goes when its deletion is requested. -/
theorem isSome_life?_requestDeletion (deleted : WorkName) (now : Timestamp)
    (hthere : (h.life? key).isSome) :
    ((h.requestDeletion deleted now).life? key).isSome ∨ deleted = key ∧
      ∃ work, h.work? key = some work ∧ (work.metadata.finalizers.getD []).isEmpty := by
  unfold requestDeletion
  cases hs : h.work? deleted with
  | none => exact Or.inl hthere
  | some stored =>
      dsimp only
      by_cases e : deleted = key
      · subst e
        split
        · next hempty => exact Or.inr ⟨rfl, stored, hs, hempty⟩
        · refine Or.inl ?_
          rw [life?_put, if_pos rfl]
          rfl
      · refine Or.inl ?_
        split
        · rw [life?_erase, if_neg e]
          exact hthere
        · rw [life?_put, if_neg e]
          exact hthere

end Hub

namespace Stage

variable {mayDelete : Stage → WorkName → Prop} {s s' : Stage} {kinds : List ResourceMapping}

/-! ### What holds of every stage -/

/-- Works are stored under their own names, lifecycle reconciles are where they can be, and all the
others are quiet. -/
structure Sound (s : Stage) : Prop where
  named : ∀ key, s.world.hub.Named key
  course : ∀ key p, s.lifecycle key = some p → Course key p
  quiet : ∀ p ∈ s.others, p.OnlyCalls (I := clientCalls) QuietCall

theorem Sound.step (hs : s.Sound) (hstep : Step mayDelete s s') : s'.Sound := by
  cases hstep with
  | insert w =>
      refine ⟨fun key l hl => ?_, hs.course, hs.quiet⟩
      have hl : (s.world.hub.insert w).life? key = some l := hl
      rw [Hub.life?_insert] at hl
      split at hl
      · next e =>
          cases hl
          exact e
      · exact hs.named key l hl
  | edit key manifests hedit =>
      have hlife := Hub.life?_updateManifests hedit
      exact ⟨fun other => (hs.named other).of_names fun l' hl' => ⟨l', hlife ▸ hl', rfl⟩,
        hs.course, hs.quiet⟩
  | requestDeletion key now =>
      refine ⟨fun other => (hs.named other).of_names fun l' hl' => ?_, hs.course, hs.quiet⟩
      exact Hub.names_requestDeletion s.world.hub key now hl'
  | startLifecycle key hcurrent =>
      refine ⟨hs.named, forall_update (fun other p _ hp => hs.course other p hp) ?_, hs.quiet⟩
      rintro p ⟨⟩
      exact (Course.start ((hs.named key).ofWork hcurrent)).1
  | callLifecycle key fate hat =>
      refine ⟨fun other => (hs.named other).of_names fun l' hl' => World.names_meet fate _ hl',
        forall_update (fun other p _ hp => hs.course other p hp) ?_, hs.quiet⟩
      rintro p ⟨⟩
      exact ((hs.course key _ hat).call s.world fate).1
  | endLifecycle key =>
      exact ⟨hs.named, forall_update (fun other p _ hp => hs.course other p hp) nofun, hs.quiet⟩
  | startOther hother =>
      refine ⟨hs.named, hs.course, fun p hp => ?_⟩
      rcases List.mem_cons.1 hp with rfl | hp
      · exact hother.onlyCalls
      · exact hs.quiet p hp
  | callOther before after fate hat =>
      exact ⟨fun key => (hs.named key).of_names fun l' hl' => World.names_meet fate _ hl',
        hs.course, (quiet_call (hat ▸ hs.quiet) _).2⟩

theorem Reachable.sound (hreach : Reachable mayDelete kinds s) : s.Sound := by
  induction hreach with
  | refl => exact ⟨nofun, nofun, nofun⟩
  | tail _ hstep ih => exact ih.step hstep

/-! ### With prudent deletions -/

/-- A reconcile that is about to create a record has its Work, and every record has a Work of which
no reconcile is about to remove a finalizer. -/
structure Attended (s : Stage) : Prop where
  present : ∀ key p, s.lifecycle key = some p → AboutToCreate p → (s.world.hub.life? key).isSome
  kept : ∀ name, (s.world.member.applied? name).isSome → ∃ «namespace»,
    (s.world.hub.life? ⟨«namespace», name⟩).isSome ∧
      ∀ p, s.lifecycle ⟨«namespace», name⟩ = some p → ¬AboutToDetach p

namespace Attended

theorem onHub (ha : s.Attended) {hub : Hub}
    (hkept : ∀ key : WorkName, (s.world.hub.life? key).isSome → (hub.life? key).isSome ∨
      s.world.member.applied? key.name = none ∧ s.lifecycle key = none) :
    (s.onHub hub).Attended := by
  constructor
  · intro key p hp hcreate
    rcases hkept key (ha.present key p hp hcreate) with h | ⟨-, hidle⟩
    · exact h
    · cases hp.symm.trans hidle
  · intro name hrecord
    obtain ⟨«namespace», hthere, hdetach⟩ := ha.kept name hrecord
    rcases hkept _ hthere with h | ⟨hnone, -⟩
    · exact ⟨«namespace», h, hdetach⟩
    · have hgone : (s.world.member.applied? name).isSome = false := Option.isSome_eq_false_iff.2
        (Option.isNone_iff_eq_none.2 hnone)
      cases hgone.symm.trans hrecord

theorem update (ha : s.Attended) {key : WorkName} {o : Option Running}
    (ho : ∀ p, o = some p → (AboutToCreate p → (s.world.hub.life? key).isSome) ∧ ¬AboutToDetach p) :
    Attended { s with lifecycle := Function.update s.lifecycle key o } := by
  refine ⟨forall_update (fun other p _ hp => ha.present other p hp) fun p hp => (ho p hp).1,
    fun name hrecord => ?_⟩
  obtain ⟨«namespace», hthere, hdetach⟩ := ha.kept name hrecord
  refine ⟨«namespace», hthere, ?_⟩
  by_cases e : (⟨«namespace», name⟩ : WorkName) = key
  · dsimp only
    rw [e, Function.update_self]
    exact fun p hp => (ho p hp).2
  · dsimp only
    rw [Function.update_of_ne e]
    exact hdetach

/-- A record that a reconcile does not touch keeps its Work. -/
theorem kept_elsewhere (ha : s.Attended) {key : WorkName} {fate : Fate} {c : ClientCall}
    {next : Except Failure c.Value → Running} (hcourse : Course key (.call c next)) {name : String}
    (hrecord : (s.world.member.applied? name).isSome)
    (hown : ∀ «namespace», ⟨«namespace», name⟩ = key →
      (s.world.hub.life? key).isSome → (∀ p, s.lifecycle key = some p → ¬AboutToDetach p) →
      ((s.world.meet fate c).2.hub.life? key).isSome ∧
        ¬AboutToDetach (next (s.world.meet fate c).1)) :
    ∃ «namespace», ((s.world.meet fate c).2.hub.life? ⟨«namespace», name⟩).isSome ∧
      ∀ p, Function.update s.lifecycle key (some (next (s.world.meet fate c).1))
        ⟨«namespace», name⟩ = some p → ¬AboutToDetach p := by
  obtain ⟨«namespace», hthere, hdetach⟩ := ha.kept name hrecord
  refine ⟨«namespace», ?_⟩
  by_cases e : (⟨«namespace», name⟩ : WorkName) = key
  · rw [e] at hthere hdetach ⊢
    obtain ⟨hlife, hnext⟩ := hown «namespace» e hthere hdetach
    rw [Function.update_self]
    refine ⟨hlife, ?_⟩
    rintro p ⟨⟩
    exact hnext
  · rw [Function.update_of_ne e]
    have hlife : (s.world.meet fate c).2.hub.life? ⟨«namespace», name⟩ =
        s.world.hub.life? ⟨«namespace», name⟩ :=
      (hcourse.call_elsewhere s.world fate «namespace» name).2 e
    rw [hlife]
    exact ⟨hthere, hdetach⟩

theorem callLifecycle (ha : s.Attended) {key : WorkName} {fate : Fate} {c : ClientCall}
    {next : Except Failure c.Value → Running} (hat : s.lifecycle key = some (.call c next))
    (hcourse : Course key (.call c next)) {s' : Stage}
    (hs' : s' = { s with
      world := (s.world.meet fate c).2
      lifecycle := Function.update s.lifecycle key (some (next (s.world.meet fate c).1)) }) :
    s'.Attended := by
  subst hs'
  obtain ⟨-, hcreate, hmoves⟩ := hcourse.call s.world fate
  constructor
  · refine forall_update (fun other p hother hp hp' => ?_) ?_
    · have hlife : (s.world.meet fate c).2.hub.life? other = s.world.hub.life? other :=
        (hcourse.call_elsewhere s.world fate other.namespace other.name).2 (Ne.symm hother)
      rw [hlife]
      exact ha.present other p hp hp'
    · rintro p ⟨⟩ hp'
      exact absurd hp' hcreate
  · intro name hrecord
    have hrecord : ((s.world.meet fate c).2.member.applied? name).isSome := hrecord
    by_cases e : name = key.name
    · subst e
      cases hmoves with
      | creates h hlife hp' =>
          have hthere : (s.world.hub.life? key).isSome := ha.present key _ hat h
          refine ⟨key.namespace, (congrArg Option.isSome hlife).trans hthere, ?_⟩
          intro p hp
          have hp : Function.update s.lifecycle key (some (next (s.world.meet fate c).1)) key =
            some p := hp
          rw [Function.update_self] at hp
          cases hp
          exact hp'
      | keeps hlife hrecorded hp' =>
          exact ha.kept_elsewhere hcourse (hrecorded.symm.trans hrecord) fun _ _ hthere _ =>
            ⟨hlife hthere, hp'⟩
      | drops hrecorded =>
          have hgone : ((s.world.meet fate c).2.member.applied? key.name).isSome = false := hrecorded
          rw [hgone] at hrecord
          cases hrecord
      | detaches h hrecorded =>
          exact ha.kept_elsewhere hcourse (hrecorded.symm.trans hrecord) fun _ _ _ hdetach =>
            absurd h (hdetach _ hat)
    · have hsame := (hcourse.call_elsewhere s.world fate key.namespace name).1 e
      have hbefore : (s.world.member.applied? name).isSome :=
        (congrArg Standing.recorded hsame).symm.trans hrecord
      exact ha.kept_elsewhere hcourse hbefore fun _ e' => absurd (congrArg WorkName.name e') e

theorem step (hs : s.Sound) (ha : s.Attended) (hstep : Step Prudent s s') : s'.Attended := by
  cases hstep with
  | insert w =>
      refine ha.onHub fun key hthere => Or.inl ?_
      rw [Hub.life?_insert]
      split
      · rfl
      · exact hthere
  | edit key manifests hedit =>
      refine ha.onHub fun other hthere => Or.inl ?_
      rw [Hub.life?_updateManifests hedit]
      exact hthere
  | requestDeletion key now hmay =>
      refine ha.onHub fun other hthere => ?_
      rcases Hub.isSome_life?_requestDeletion key now hthere with h | ⟨rfl, work, hwork, hempty⟩
      · exact Or.inl h
      · exact Or.inr (hmay work hwork hempty)
  | startLifecycle key hcurrent hidle =>
      next w =>
      have hthere : (s.world.hub.life? key).isSome :=
        Option.isSome_iff_exists.2 ⟨w.life, Option.map_eq_some_iff.2 ⟨w, hcurrent, rfl⟩⟩
      refine ha.update ?_
      rintro p ⟨⟩
      exact ⟨fun _ => hthere, (Course.start ((hs.named key).ofWork hcurrent)).2⟩
  | callLifecycle key fate hat => exact ha.callLifecycle hat (hs.course key _ hat) rfl
  | endLifecycle key => exact ha.update nofun
  | startOther => exact ⟨ha.present, ha.kept⟩
  | callOther before after fate hat =>
      have hcall := (quiet_call (hat ▸ hs.quiet) (s.world.meet fate _).1).1
      have hsame := fun «namespace» name =>
        World.standing_meet_of_quiet (w := s.world) hcall fate «namespace» name
      have hlife : ∀ key : WorkName, (s.world.meet fate _).2.hub.life? key = s.world.hub.life? key :=
        fun key => congrArg Standing.life (hsame key.namespace key.name)
      have hrecords : ∀ name, ((s.world.meet fate _).2.member.applied? name).isSome =
          (s.world.member.applied? name).isSome :=
        fun name => congrArg Standing.recorded (hsame "" name)
      refine ⟨fun key p hp hcreate => ?_, fun name hrecord => ?_⟩
      · rw [show Stage.world _ = _ from rfl, hlife]
        exact ha.present key p hp hcreate
      · obtain ⟨«namespace», hthere, hdetach⟩ := ha.kept name ((hrecords name).symm.trans hrecord)
        exact ⟨«namespace», (hlife _).symm ▸ hthere, hdetach⟩

end Attended

theorem Reachable.attended (hreach : Reachable Prudent kinds s) : s.Attended := by
  induction hreach with
  | refl => exact ⟨nofun, nofun⟩
  | tail hreach hstep ih => exact ih.step (Reachable.sound hreach) hstep

/-! ### Orphans come, and stay -/

/-- Where the only Work of a name has no finalizers, its deletion leaves its record behind. -/
theorem orphaned_requestDeletion {key : WorkName} {work : Work} (now : Timestamp)
    (hwork : s.world.hub.work? key = some work)
    (hbare : (work.metadata.finalizers.getD []).isEmpty)
    (honly : ∀ «namespace», «namespace» ≠ key.namespace →
      s.world.hub.work? ⟨«namespace», key.name⟩ = none)
    (hrecord : (s.world.member.applied? key.name).isSome) :
    (s.onHub (s.world.hub.requestDeletion key now)).Orphaned key.name := by
  refine ⟨hrecord, fun «namespace» => ?_⟩
  have hgone : s.world.hub.requestDeletion key now =
      { s.world.hub with works := s.world.hub.works.erase key } := by
    rw [Hub.requestDeletion, hwork]
    exact if_pos hbare
  show (s.world.hub.requestDeletion key now).work? _ = none
  rw [hgone, Hub.work?_erase]
  split
  · rfl
  · next hother => exact honly _ fun e => hother (e ▸ rfl)

/-- Whether a step brings no Work of a name. -/
def BringsNo (name : String) (s s' : Stage) : Prop :=
  Step (fun _ _ => True) s s' ∧ ∀ «namespace», s'.world.hub.work? ⟨«namespace», name⟩ = none

/-- The record of a name that has no Work, and of which no lifecycle reconcile is under way, is left
alone. -/
theorem orphaned_step {name : String} (hs : s.Sound) (horphaned : s.Orphaned name)
    (hidle : ∀ «namespace», s.lifecycle ⟨«namespace», name⟩ = none) (hstep : BringsNo name s s') :
    s'.Orphaned name ∧ ∀ «namespace», s'.lifecycle ⟨«namespace», name⟩ = none := by
  obtain ⟨hrecord, hnone⟩ := horphaned
  obtain ⟨hstep, hnone'⟩ := hstep
  have hother : ∀ {key : WorkName} {o : Option Running}, key.name ≠ name → ∀ «namespace»,
      Function.update s.lifecycle key o ⟨«namespace», name⟩ = none := by
    intro key o hkey «namespace»
    have hne : (⟨«namespace», name⟩ : WorkName) ≠ key := by
      rintro rfl
      exact hkey rfl
    rw [Function.update_of_ne hne]
    exact hidle _
  have hbusy : ∀ {key : WorkName} {p : Running}, s.lifecycle key = some p → key.name ≠ name := by
    rintro key p hp rfl
    cases hp.symm.trans (hidle key.namespace)
  cases hstep with
  | insert | edit | requestDeletion => exact ⟨⟨hrecord, hnone'⟩, hidle⟩
  | startLifecycle key hcurrent =>
      refine ⟨⟨hrecord, hnone'⟩, hother ?_⟩
      rintro rfl
      cases hcurrent.symm.trans (hnone key.namespace)
  | callLifecycle key fate hat =>
      have hsame := ((hs.course key _ hat).call_elsewhere s.world fate "" name).1 (hbusy hat).symm
      refine ⟨⟨?_, hnone'⟩, hother (hbusy hat)⟩
      exact (congrArg Standing.recorded hsame).trans hrecord
  | endLifecycle key =>
      refine ⟨⟨hrecord, hnone'⟩, fun «namespace» => ?_⟩
      dsimp only
      by_cases e : (⟨«namespace», name⟩ : WorkName) = key
      · rw [e, Function.update_self]
      · rw [Function.update_of_ne e]
        exact hidle _
  | startOther => exact ⟨⟨hrecord, hnone'⟩, hidle⟩
  | callOther before after fate hat =>
      have hcall := (quiet_call (hat ▸ hs.quiet) (s.world.meet fate _).1).1
      have hsame := World.standing_meet_of_quiet hcall fate (w := s.world) "" name
      exact ⟨⟨(congrArg Standing.recorded hsame).trans hrecord, hnone'⟩, hidle⟩

theorem orphaned_steps {name : String} (hs : s.Sound) (horphaned : s.Orphaned name)
    (hidle : ∀ «namespace», s.lifecycle ⟨«namespace», name⟩ = none)
    (hsteps : Relation.ReflTransGen (BringsNo name) s s') : s'.Orphaned name := by
  have hkept : s'.Sound ∧ s'.Orphaned name ∧
      ∀ «namespace», s'.lifecycle ⟨«namespace», name⟩ = none := by
    induction hsteps with
    | refl => exact ⟨hs, horphaned, hidle⟩
    | tail _ hstep ih => exact ⟨ih.1.step hstep.1, orphaned_step ih.1 ih.2.1 ih.2.2 hstep⟩
  exact hkept.2.1

/-- Where every deletion is prudent, no record is ever without a Work. And once a record is there, no
lifecycle reconcile is under way and the only Work of the name has no finalizers, requesting its
deletion leaves the record without a Work, for as long as no Work of the name is brought. -/
theorem orphaned_only_by_imprudent_deletion (kinds : List ResourceMapping) (s : Stage) :
    (Reachable Prudent kinds s → ∀ name, ¬s.Orphaned name) ∧
      ∀ key work now s', Reachable (fun _ _ => True) kinds s →
        s.world.hub.work? key = some work → (work.metadata.finalizers.getD []).isEmpty →
        (∀ «namespace», «namespace» ≠ key.namespace →
          s.world.hub.work? ⟨«namespace», key.name⟩ = none) →
        (∀ «namespace», s.lifecycle ⟨«namespace», key.name⟩ = none) →
        (s.world.member.applied? key.name).isSome →
        Relation.ReflTransGen (BringsNo key.name)
          (s.onHub (s.world.hub.requestDeletion key now)) s' → s'.Orphaned key.name := by
  constructor
  · rintro hreach name ⟨hrecord, hnone⟩
    obtain ⟨«namespace», hthere, -⟩ := (Reachable.attended hreach).kept name hrecord
    rw [Hub.life?_eq_none_iff.2 (hnone «namespace»)] at hthere
    cases hthere
  · intro key work now s' hreach hwork hbare honly hidle hrecord hsteps
    have hstep : Step (fun _ _ => True) s (s.onHub (s.world.hub.requestDeletion key now)) :=
      .requestDeletion key now trivial
    have hs : (s.onHub (s.world.hub.requestDeletion key now)).Sound :=
      (Reachable.sound hreach).step hstep
    have horphaned := orphaned_requestDeletion now hwork hbare honly hrecord
    exact orphaned_steps hs horphaned hidle hsteps

/-! ### A reconcile with nothing else under way -/

/-- One lifecycle reconcile in a world. -/
def alone (world : World) (key : WorkName) (p : Running) : Stage :=
  { world, lifecycle := Function.update (fun _ => none) key (some p) }

theorem step_alone_end (world : World) (key : WorkName) (p : Running) :
    Step mayDelete (alone world key p) { world } := by
  have hstep : Step mayDelete (alone world key p)
      { alone world key p with
        lifecycle := Function.update (alone world key p).lifecycle key none } := .endLifecycle key
  rwa [alone, Function.update_idem, Function.update_eq_self] at hstep

theorem step_alone_call (world : World) (key : WorkName) (fate : Fate) {c : ClientCall}
    {next : Except Failure c.Value → Running} : Step mayDelete (alone world key (.call c next))
      (alone (world.meet fate c).2 key (next (world.meet fate c).1)) := by
  have hat : (alone world key (.call c next)).lifecycle key = some (.call c next) := by
    simp only [alone, Function.update_self]
  have hstep : Step mayDelete (alone world key (.call c next)) _ := .callLifecycle key fate hat
  rwa [alone, Function.update_idem] at hstep

/-- What a lifecycle reconcile does by itself is done in steps. -/
theorem steps_alone (key : WorkName) (p : Running) (fates : List Fate) (world : World) :
    Relation.ReflTransGen (Step mayDelete) (alone world key p)
      { world := (world.attempt fates p).2.1 } := by
  induction p generalizing world fates with
  | done => exact .single (step_alone_end world key _)
  | call c next ih =>
      cases fates with
      | nil => exact .single (step_alone_end world key _)
      | cons fate rest => exact .head (step_alone_call world key fate) (ih _ rest _)

/-- The first reconcile of the Work that arrives, under any fates. -/
theorem reachable_firstAttempt (fates : List Fate) :
    Reachable mayDelete [] { world := Scene.firstAttempt fates } := by
  have harrived : Reachable mayDelete [] { world := { hub := ({} : Hub).insert Scene.arrival } } :=
    .tail .refl (.insert Scene.arrival rfl)
  have hstarted := harrived.tail (.startLifecycle ⟨"cluster1", "demo"⟩ rfl rfl)
  exact hstarted.trans (steps_alone _ _ fates _)

/-- The Work that arrives, with its record and without the finalizer. -/
def recordedOnly : Stage :=
  { world := Scene.firstAttempt [.answered, .refused (.timeout "attach" 30)] }

theorem recordedOnly_elsewhere («namespace» : String) (hother : «namespace» ≠ "cluster1") :
    recordedOnly.world.hub.work? ⟨«namespace», "demo"⟩ = none := by
  show (({} : Hub).insert Scene.arrival).work? _ = none
  rw [Hub.insert, Hub.work?_put, if_neg]
  · rfl
  · exact fun e => hother (congrArg WorkName.namespace e).symm

/-- The record of the Work that arrives has its Work if the finalizer is attached, and no Work if that
fails and the Work is deleted. -/
theorem arrival_orphaned_by_imprudent_deletion :
    (Reachable Prudent [] { world := Scene.firstAttempt [.answered, .answered] } ∧
      ¬Orphaned { world := Scene.firstAttempt [.answered, .answered] } "demo") ∧
    Orphaned (recordedOnly.onHub
      (recordedOnly.world.hub.requestDeletion ⟨"cluster1", "demo"⟩ Demo.epoch)) "demo" := by
  have hkept : Reachable Prudent [] { world := Scene.firstAttempt [.answered, .answered] } :=
    reachable_firstAttempt _
  refine ⟨⟨hkept, (orphaned_only_by_imprudent_deletion [] _).1 hkept "demo"⟩, ?_⟩
  exact (orphaned_only_by_imprudent_deletion [] recordedOnly).2 ⟨"cluster1", "demo"⟩ Scene.arrived
    Demo.epoch _ (reachable_firstAttempt _) rfl rfl recordedOnly_elsewhere (fun _ => rfl) rfl .refl

/-- Without prudence, a record is left without a Work when nothing is under way. -/
theorem orphaned_when_deleted_before_finalizer :
    ¬∀ kinds s, Reachable (fun _ _ => True) kinds s → (∀ key, s.lifecycle key = none) →
      ∀ name, ¬s.Orphaned name := by
  intro hnever
  have hreach : Reachable (fun _ _ => True) [] (recordedOnly.onHub
      (recordedOnly.world.hub.requestDeletion ⟨"cluster1", "demo"⟩ Demo.epoch)) :=
    .tail (reachable_firstAttempt _) (.requestDeletion _ _ trivial)
  have horphaned := orphaned_requestDeletion Demo.epoch (show
    recordedOnly.world.hub.work? ⟨"cluster1", "demo"⟩ = some Scene.arrived from rfl) rfl
    recordedOnly_elsewhere rfl
  exact hnever _ _ hreach (fun _ => rfl) "demo" horphaned

end Stage

end MemberAgent.InMemory
