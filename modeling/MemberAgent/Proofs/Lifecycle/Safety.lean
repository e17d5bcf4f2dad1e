import MemberAgent.Proofs.Lifecycle.Phase

/-! The cleanup finalizer and the record of a Work. However reconciles interleave and whichever of
their calls fail, a Work that has the finalizer has a record until it is deleted, and it loses the
finalizer only when the record is gone. -/

namespace MemberAgent.InMemory

theorem Scene.Other.onlyCalls {p : Running} (hp : Scene.Other p) :
    p.OnlyCalls (I := clientCalls) QuietCall := by
  have hsync : ∀ c, Tracking.SyncCall c → QuietCall c := by
    intro c hc
    cases c <;> first | exact hc | trivial
  cases hp with
  | apply settings clock w =>
      refine (Apply.reconcile_onlyCalls settings clock w).mono fun c hc => ?_
      cases c <;> first | exact hc | trivial
  | tracking settings w => exact (Tracking.reconcile_onlyCalls settings w).mono hsync
  | monitor settings applied => exact (Monitor.reconcile_onlyCalls settings applied).mono hsync

/-- What holds of all reconciles under way holds when one of them is replaced by one of which it
holds. -/
theorem forall_update {ι : Type} [DecidableEq ι] {running : ι → Option Running}
    {P : ι → Running → Prop} {i : ι} {o : Option Running}
    (hothers : ∀ j p, i ≠ j → running j = some p → P j p) (hself : ∀ p, o = some p → P i p) :
    ∀ j p, Function.update running i o j = some p → P j p := by
  intro j p hp
  by_cases e : i = j
  · subst e
    rw [Function.update_self] at hp
    exact hself p hp
  · rw [Function.update_of_ne (Ne.symm e)] at hp
    exact hothers j p e hp

/-- When one of several quiet programs makes a call, the call is quiet, and so are all of them after
it. -/
theorem quiet_call {before after : List Running} {c : ClientCall}
    {next : Except Failure c.Value → Running}
    (h : ∀ p ∈ before ++ .call c next :: after, p.OnlyCalls (I := clientCalls) QuietCall)
    (reply : Except Failure c.Value) : QuietCall c ∧
      ∀ p ∈ before ++ next reply :: after, p.OnlyCalls (I := clientCalls) QuietCall := by
  have hcall : Program.OnlyCalls (I := clientCalls) QuietCall (.call c next) :=
    h _ (List.mem_append_right _ List.mem_cons_self)
  refine ⟨hcall.1, fun p hp => ?_⟩
  rcases List.mem_append.1 hp with hp | hp
  · exact h p (List.mem_append_left _ hp)
  rcases List.mem_cons.1 hp with rfl | hp
  · exact hcall.2 _
  · exact h p (List.mem_append_right _ (List.mem_cons_of_mem _ hp))

namespace Scene

/-- What holds between steps: every lifecycle reconcile is in a phase that the standing of its name
bears out, and all the others are quiet. -/
structure Sound («namespace» : String) (s : Scene) : Prop where
  placed : s.world.hub.Placed «namespace»
  covered : ∀ name, (s.world.standing «namespace» name).Covered
  phase : ∀ name p, s.lifecycle name = some p →
    Phase ⟨«namespace», name⟩ (s.world.standing «namespace» name) p
  quiet : ∀ p ∈ s.others, p.OnlyCalls (I := clientCalls) QuietCall

/-- Every name goes from one standing to a guarded one. -/
def Guarded («namespace» : String) (s s' : Scene) : Prop :=
  ∀ name, Standing.Guarded (s.world.standing «namespace» name) (s'.world.standing «namespace» name)

namespace Sound

variable {«namespace» : String} {s s' : Scene}

theorem start (kinds : List ResourceMapping) :
    Sound «namespace» { world := { kinds } } where
  placed := by rintro key l ⟨⟩
  covered := by rintro name l ⟨⟩
  phase := by rintro name p ⟨⟩
  quiet := by rintro p ⟨⟩

theorem onHub (hs : s.Sound «namespace») {hub : Hub} (hplaced : hub.Placed «namespace»)
    (hdrift : ∀ key recorded,
      Standing.Drift ⟨s.world.hub.life? key, recorded⟩ ⟨hub.life? key, recorded⟩) :
    (s.onHub hub).Sound «namespace» ∧ Guarded «namespace» s (s.onHub hub) := by
  have hguarded : Guarded «namespace» s (s.onHub hub) := by
    intro name
    exact (hdrift ⟨«namespace», name⟩ _).guarded (hs.covered name)
  refine ⟨⟨hplaced, fun name => (hguarded name).covered, fun name p hp => ?_, hs.quiet⟩, hguarded⟩
  exact (hs.phase name p hp).drift (hdrift ⟨«namespace», name⟩ _)

/-- A step that leaves the world alone is guarded. -/
theorem guarded_self (hs : s.Sound «namespace») : Guarded «namespace» s s :=
  fun name => .of_life_eq rfl (hs.covered name)

theorem callLifecycle (hs : s.Sound «namespace») {name : String} {fate : Fate} {c : ClientCall}
    {next : Except Failure c.Value → Running} (hat : s.lifecycle name = some (.call c next))
    (hpossible : Truthful s.world fate c) {s' : Scene}
    (hs' : s' = { s with
      world := (s.world.meet fate c).2
      lifecycle := Function.update s.lifecycle name (some (next (s.world.meet fate c).1)) }) :
    s'.Sound «namespace» ∧ Guarded «namespace» s s' := by
  subst hs'
  have hphase := hs.phase name _ hat
  have hguarded : ∀ other, Standing.Guarded (s.world.standing «namespace» other)
      ((s.world.meet fate c).2.standing «namespace» other) := by
    intro other
    by_cases e : name = other
    · subst e
      exact hphase.call_guarded (hs.covered name) fate
    · rw [hphase.call_other fate e]
      exact hs.guarded_self other
  refine ⟨⟨World.placed_meet hs.placed fate c, fun other => (hguarded other).covered,
    forall_update (fun other p hother hp => ?_) (fun p hp => ?_), hs.quiet⟩, hguarded⟩
  · rw [hphase.call_other fate hother]
    exact hs.phase other p hp
  · cases hp
    exact hphase.call_next hpossible

theorem callOther (hs : s.Sound «namespace») {before after : List Running} {fate : Fate}
    {c : ClientCall} {next : Except Failure c.Value → Running}
    (hat : s.others = before ++ .call c next :: after) {s' : Scene}
    (hs' : s' = { s with
      world := (s.world.meet fate c).2
      others := before ++ next (s.world.meet fate c).1 :: after }) :
    s'.Sound «namespace» ∧ Guarded «namespace» s s' := by
  subst hs'
  obtain ⟨hcall, hquiet⟩ := quiet_call (hat ▸ hs.quiet) (s.world.meet fate c).1
  have hsame : ∀ name, (s.world.meet fate c).2.standing «namespace» name =
      s.world.standing «namespace» name := World.standing_meet_of_quiet hcall fate «namespace»
  refine ⟨⟨World.placed_meet hs.placed fate c, fun name => ?_, fun name p hp => ?_, hquiet⟩,
    fun name => ?_⟩
  · rw [hsame]
    exact hs.covered name
  · rw [hsame]
    exact hs.phase name p hp
  · rw [hsame]
    exact hs.guarded_self name

theorem step (hs : s.Sound «namespace») (hstep : Step Truthful «namespace» s s') :
    s'.Sound «namespace» ∧ Guarded «namespace» s s' := by
  cases hstep with
  | insert w hnamespace habsent hfree =>
      exact hs.onHub (hs.placed.insert hnamespace) fun key _ => Hub.drift_insert habsent hfree key
  | edit key manifests hedit =>
      have hlife := Hub.life?_updateManifests hedit
      refine hs.onHub (hs.placed.of_names fun key l' hl' => ⟨l', hlife ▸ hl', rfl⟩) fun key _ => ?_
      rw [hlife]
      exact .same _
  | requestDeletion key now =>
      exact hs.onHub (hs.placed.requestDeletion key now) fun other _ =>
        Hub.drift_requestDeletion s.world.hub key now other
  | startLifecycle name hcurrent hidle =>
      next w =>
      have hlife : s.world.hub.life? ⟨«namespace», name⟩ = some w.life := by
        rw [Hub.life?, hcurrent, Option.map_some]
      have hkey : WorkName.ofWork w = ⟨«namespace», name⟩ := (hs.placed _ _ hlife).1
      refine ⟨⟨hs.placed, hs.covered, ?_, hs.quiet⟩, hs.guarded_self⟩
      refine forall_update (fun other p _ hp => hs.phase other p hp) fun p hp => ?_
      cases hp
      exact Phase.start hkey hlife
  | callLifecycle name fate hat hpossible => exact hs.callLifecycle hat hpossible rfl
  | endLifecycle name =>
      refine ⟨⟨hs.placed, hs.covered, ?_, hs.quiet⟩, hs.guarded_self⟩
      exact forall_update (fun other p _ hp => hs.phase other p hp) fun p hp => by cases hp
  | startOther hother =>
      refine ⟨⟨hs.placed, hs.covered, hs.phase, ?_⟩, hs.guarded_self⟩
      intro p hp
      rcases List.mem_cons.1 hp with rfl | hp
      · exact hother.onlyCalls
      · exact hs.quiet p hp
  | callOther before after fate hat hpossible => exact hs.callOther hat rfl

theorem of_reachable {kinds : List ResourceMapping}
    (hreach : Reachable Truthful «namespace» kinds s) : s.Sound «namespace» := by
  induction hreach with
  | refl => exact start kinds
  | tail _ hstep ih => exact (ih.step hstep).1

end Sound

theorem carries_iff {s : Scene} {key : WorkName} :
    s.Carries key ↔ (s.world.standing key.namespace key.name).Carries := by
  constructor
  · rintro ⟨w, hw, hf⟩
    exact ⟨w.life, Option.map_eq_some_iff.2 ⟨w, hw, rfl⟩, hf⟩
  · rintro ⟨l, hl, hf⟩
    obtain ⟨w, hw, rfl⟩ := Option.map_eq_some_iff.1 hl
    exact ⟨w, hw, hf⟩

/-! ### A reconcile with nothing else under way -/

/-- One reconcile of a name in a world. -/
def alone (world : World) (name : String) (p : Running) : Scene :=
  { world, lifecycle := Function.update (fun _ => none) name (some p) }

variable {possible : World → Fate → ClientCall → Prop} {«namespace» name : String} {world : World}

theorem step_alone_end (p : Running) : Step possible «namespace» (alone world name p) { world } := by
  have hstep : Step possible «namespace» (alone world name p) { alone world name p with
      lifecycle := Function.update (alone world name p).lifecycle name none } := .endLifecycle name
  rwa [alone, Function.update_idem, Function.update_eq_self] at hstep

theorem step_alone_call {c : ClientCall} {next : Except Failure c.Value → Running} {fate : Fate}
    (hpossible : possible world fate c) :
    Step possible «namespace» (alone world name (.call c next))
      (alone (world.meet fate c).2 name (next (world.meet fate c).1)) := by
  have hat : (alone world name (.call c next)).lifecycle name = some (.call c next) := by
    simp only [alone, Function.update_self]
  have hstep : Step possible «namespace» (alone world name (.call c next)) _ :=
    .callLifecycle name fate hat hpossible
  rwa [alone, Function.update_idem] at hstep

/-- What a lifecycle reconcile does by itself is done in steps. -/
theorem steps_alone (p : Running) {fates : List Fate}
    (hpossible : ∀ w, ∀ fate ∈ fates, ∀ c, possible w fate c) (world : World) :
    Relation.ReflTransGen (Step possible «namespace») (alone world name p)
      { world := (world.attempt fates p).2.1 } := by
  induction p generalizing world fates with
  | done => exact .single (step_alone_end _)
  | call c next ih =>
      cases fates with
      | nil => exact .single (step_alone_end _)
      | cons fate rest =>
          refine .head (step_alone_call (hpossible world fate List.mem_cons_self c)) ?_
          exact ih _ (fun w f hf => hpossible w f (List.mem_cons_of_mem _ hf)) _

/-- The first reconcile of a Work that has just arrived. -/
theorem reachable_first_attempt (name : String) {w : Work} (hnamespace : w.namespace = «namespace»)
    (hfree : w.hasFinalizer = false) {stored : Work}
    (hstored : (({} : Hub).insert w).work? ⟨«namespace», name⟩ = some stored) {fates : List Fate}
    (hpossible : ∀ w, ∀ fate ∈ fates, ∀ c, possible w fate c) :
    Reachable possible «namespace» []
      { world := (World.attempt { hub := ({} : Hub).insert w } fates
          (Lifecycle.reconcile stored).run).2.1 } := by
  have harrived : Reachable possible «namespace» [] { world := { hub := ({} : Hub).insert w } } :=
    .tail .refl (.insert w hnamespace rfl hfree)
  exact (harrived.tail (.startLifecycle name hstored rfl)).trans (steps_alone _ hpossible _)

/-- A Work as it is brought to the hub, and as the hub stores it. -/
def arrival : Work := { metadata := { name := some "demo", «namespace» := some "cluster1" } }

def arrived : Work :=
  { metadata := {
      name := some "demo"
      «namespace» := some "cluster1"
      uid := some "work-demo"
      resourceVersion := some "1"
      generation := some 1 } }

def firstAttempt (fates : List Fate) : World :=
  (World.attempt { hub := ({} : Hub).insert arrival } fates (Lifecycle.reconcile arrived).run).2.1

/-! ### Any reconciles side by side -/

/-- Whatever is reached by truthful refusals has a record for every Work that has the finalizer and
is not being deleted; and from there, no step takes a finalizer away while the record is there. -/
theorem finalizer_guarded_by_record {«namespace» : String} {kinds : List ResourceMapping} {s : Scene}
    (hreach : Reachable Truthful «namespace» kinds s) :
    s.Recorded ∧ ∀ s', Step Truthful «namespace» s s' → s.LetsGoAfterRecord s' := by
  have hs := Sound.of_reachable hreach
  have hplaced : ∀ {key w}, s.world.hub.work? key = some w →
      WorkName.ofWork w = key ∧ key.namespace = «namespace» := by
    intro key w hw
    exact hs.placed _ _ (Option.map_eq_some_iff.2 ⟨_, hw, rfl⟩)
  constructor
  · intro key w hw hf hd
    obtain ⟨rfl, rfl⟩ := hplaced hw
    exact hs.covered w.name w.life (Option.map_eq_some_iff.2 ⟨w, hw, rfl⟩) hf hd
  · intro s' hstep key hcarries hlost
    obtain ⟨w, hw, -⟩ := id hcarries
    obtain ⟨-, rfl⟩ := hplaced hw
    have hreleased := ((hs.step hstep).2 key.name).released (carries_iff.1 hcarries)
      fun h => hlost (carries_iff.2 h)
    exact Option.not_isSome_iff_eq_none.1 (Bool.eq_false_iff.1 hreleased)

theorem arrival_guarded_by_record :
    Reachable Truthful "cluster1" [] { world := firstAttempt [.answered, .answered] } ∧
      Carries { world := firstAttempt [.answered, .answered] } ⟨"cluster1", "demo"⟩ ∧
      Recorded { world := firstAttempt [.answered, .answered] } ∧
      ∀ s', Step Truthful "cluster1" { world := firstAttempt [.answered, .answered] } s' →
        LetsGoAfterRecord { world := firstAttempt [.answered, .answered] } s' := by
  have htruthful : ∀ w, ∀ fate ∈ [Fate.answered, Fate.answered], ∀ c, Truthful w fate c := by
    intro w fate hfate c
    rw [show fate = .answered by simpa using hfate]
    trivial
  have hreach : Reachable Truthful "cluster1" [] { world := firstAttempt [.answered, .answered] } :=
    reachable_first_attempt "demo" (w := arrival) rfl rfl rfl htruthful
  exact ⟨hreach, ⟨_, rfl, rfl⟩, finalizer_guarded_by_record hreach⟩

/-- A refusal that says that a record exists where there is none gets the finalizer attached without
a record. -/
theorem unguarded_after_untruthful_refusal :
    ¬∀ «namespace» kinds s, Reachable (fun _ _ _ => True) «namespace» kinds s →
      s.Recorded ∧ ∀ s', Step (fun _ _ _ => True) «namespace» s s' → s.LetsGoAfterRecord s' := by
  intro hguarded
  have hreach : Reachable (fun _ _ _ => True) "cluster1" []
      { world := firstAttempt [.refused (.refused 409 "AlreadyExists" "it exists"), .answered] } :=
    reachable_first_attempt "demo" (w := arrival) rfl rfl rfl fun _ _ _ _ => trivial
  have hrecorded := (hguarded _ _ _ hreach).1 ⟨"cluster1", "demo"⟩ _ rfl rfl rfl
  cases hrecorded

end Scene

end MemberAgent.InMemory
