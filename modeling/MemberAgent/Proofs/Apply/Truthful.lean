import MemberAgent.Proofs.Apply.Reported
import MemberAgent.Proofs.InMemory.Fate
import MemberAgent.Proofs.InMemory.Lookups
import MemberAgent.Proofs.Program.Calls
import MemberAgent.Proofs.Tracking.Upkeep
import Mathlib.Data.List.Forall2
import Mathlib.Logic.Relation

/-! A status that is stamped with the generation of its Work tells the truth about the manifests of
that Work. A reconcile reports on every manifest of the copy that it was started with, under the
generation of that copy, and writes it down later, when the Work may have moved on; but manifests
never change without the generation. -/

namespace MemberAgent

open InMemory Reconcile

namespace Apply

variable {previous : WorkStatus} {generation : Option Int} {clock : Nat → Timestamp} {ordinal : Nat}
  {outcomes : List Outcome} {w : Work} {status : WorkStatus}

/-! ### What a report says -/

/-- What the conditions of a manifest tell of its outcome at a generation. -/
structure Tells (generation : Option Int) (o : Outcome) (m : ManifestCondition) : Prop where
  identifier : m.identifier = o.identifier
  condition : ∃ c, findCondition appliedCondition m.conditions = some c ∧
    c.observedGeneration = generation
  applied : isConditionTrue appliedCondition m.conditions = o.isApplied

theorem manifestConditions_tell (previous : WorkStatus) (generation : Option Int)
    (clock : Nat → Timestamp) (ordinal : Nat) (outcomes : List Outcome) :
    List.Forall₂ (Tells generation) outcomes
      (manifestConditions previous generation clock ordinal outcomes) := by
  induction outcomes generalizing ordinal with
  | nil => exact .nil
  | cons o rest ih =>
      have htype : (o.result.condition (clock ordinal) generation).type = appliedCondition :=
        type_condition _ _
      obtain ⟨c, hfound, -, hgeneration⟩ := findCondition_setCondition
        (o.result.condition (clock ordinal) generation) (conditionsOf ordinal previous)
      refine .cons ⟨rfl, ⟨c, htype ▸ hfound, ?_⟩, ?_⟩ (ih (ordinal + 1))
      · rw [hgeneration, Result.condition]
        split <;> rfl
      · rw [← htype, isConditionTrue_setCondition, status_condition]
        rfl

section

variable {l : List ManifestCondition}

theorem identifiers_of_tell (h : List.Forall₂ (Tells generation) outcomes l) :
    l.map ManifestCondition.identifier = outcomes.map Outcome.identifier := by
  induction h with
  | nil => rfl
  | cons htells _ ih => rw [List.map_cons, List.map_cons, htells.identifier, ih]

theorem conditions_of_tell (h : List.Forall₂ (Tells generation) outcomes l) :
    ∀ m ∈ l, ∃ c, findCondition appliedCondition m.conditions = some c ∧
      c.observedGeneration = generation := by
  induction h with
  | nil => exact nofun
  | cons htells _ ih => exact List.forall_mem_cons.2 ⟨htells.condition, ih⟩

theorem applied_of_tell (h : List.Forall₂ (Tells generation) outcomes l) :
    (∀ m ∈ l, isConditionTrue appliedCondition m.conditions = true) ↔
      ∀ o ∈ outcomes, o.isApplied = true := by
  induction h with
  | nil => exact iff_of_true nofun nofun
  | cons htells _ ih => rw [List.forall_mem_cons, List.forall_mem_cons, htells.applied, ih]

end

/-- What a reconcile of a copy of a Work may report: a status with an outcome for each of its
manifests, under its generation. -/
def Reports (w : Work) (status : WorkStatus) : Prop :=
  ∃ previous clock outcomes,
    outcomes.map (fun o => o.identifier.ordinal) = List.range w.manifests.length ∧
      status = report previous w.metadata.generation clock outcomes

/-- Whether a status tells the truth about these manifests at a generation: each has its entry, with
a condition of that generation, and the Work counts as applied if and only if all of them do. -/
structure Truthful (manifests : List Json) (generation : Option Int) (status : WorkStatus) :
    Prop where
  ordinals : status.manifestConditions.map (fun m => m.identifier.ordinal) =
    List.range manifests.length
  conditions : ∀ m ∈ status.manifestConditions, ∃ c,
    findCondition appliedCondition m.conditions = some c ∧ c.observedGeneration = generation
  complete : isConditionTrue appliedCondition status.conditions = true ↔
    ∀ m ∈ status.manifestConditions, isConditionTrue appliedCondition m.conditions = true

theorem type_aggregate (now : Timestamp) :
    (aggregate outcomes generation now).type = appliedCondition := by
  unfold aggregate
  split <;> rfl

/-- The whole is reported as applied if every manifest went through. -/
theorem isTrue_aggregate_iff (now : Timestamp) :
    (aggregate outcomes generation now).status = .isTrue ↔ ∀ o ∈ outcomes, o.isApplied = true := by
  have hfailed : failed outcomes = 0 ↔ ∀ o ∈ outcomes, o.isApplied = true := by
    rw [failed, List.countP_eq_zero]
    refine forall₂_congr fun o _ => ?_
    rw [Outcome.isApplied]
    cases o.result.failure? <;> simp
  rw [← hfailed, aggregate]
  split
  · next h => exact iff_of_true rfl h
  · next h => exact iff_of_false (fun he => by cases he) h

namespace Reports

theorem truthful (h : Reports w status) : Truthful w.manifests w.metadata.generation status := by
  obtain ⟨previous, clock, outcomes, hordinals, rfl⟩ := h
  have htell := manifestConditions_tell previous w.metadata.generation clock 0 outcomes
  refine ⟨?_, conditions_of_tell htell, ?_⟩
  · have hidentifiers := identifiers_of_tell htell
    have hmap := congrArg (List.map ResourceIdentifier.ordinal) hidentifiers
    rw [List.map_map, List.map_map] at hmap
    exact hmap.trans hordinals
  · have haggregate : isConditionTrue appliedCondition
        (report previous w.metadata.generation clock outcomes).conditions = decide _ :=
      type_aggregate (clock outcomes.length) ▸ isConditionTrue_setCondition
        (aggregate outcomes w.metadata.generation (clock outcomes.length)) previous.conditions
    rw [haggregate, decide_eq_true_iff, isTrue_aggregate_iff]
    exact (applied_of_tell htell).symm

/-- The whole is stamped with the generation of the copy. -/
theorem stamped (h : Reports w status) {c : Condition}
    (hc : findCondition appliedCondition status.conditions = some c) :
    c.observedGeneration = w.metadata.generation := by
  obtain ⟨previous, clock, outcomes, -, rfl⟩ := h
  obtain ⟨found, hfound, -, hgeneration⟩ := findCondition_setCondition
    (aggregate outcomes w.metadata.generation (clock outcomes.length)) previous.conditions
  rw [type_aggregate] at hfound
  cases hfound.symm.trans hc
  rw [hgeneration, aggregate]
  split <;> rfl

end Reports

/-! ### What a reconcile reports -/

theorem resolve_ordinal (ordinal : Nat) (d : Json) : (Manifest.resolve ordinal d).Yields
    (I := clientCalls) fun result => match result with
      | .error u => u.identifier.ordinal = ordinal
      | .ok r => r.identifier.ordinal = ordinal := by
  unfold Manifest.resolve
  split
  · rfl
  · rintro (failure | _ | mapping)
    · rfl
    · rfl
    · show (Manifest.place _ _ mapping).identifier.ordinal = ordinal
      unfold Manifest.place
      split <;> rfl

theorem document_ordinal (owner : OwnerReference) (ordinal : Nat) (d : Json) :
    (document owner ordinal d).Yields (I := clientCalls) fun o => o.identifier.ordinal = ordinal := by
  refine (resolve_ordinal ordinal d).bind ?_
  rintro (u | r) hordinal
  · exact hordinal
  · refine (Program.yields_any _).bind ?_
    rintro (failure | action) -
    · exact hordinal
    · exact hordinal

theorem documents_ordinals (owner : OwnerReference) (ordinal : Nat) (l : List Json) :
    (documents owner ordinal l).Yields (I := clientCalls) fun outcomes =>
      outcomes.map (fun o => o.identifier.ordinal) = List.range' ordinal l.length := by
  induction l generalizing ordinal with
  | nil => exact rfl
  | cons d rest ih =>
      refine (document_ordinal owner ordinal d).bind fun o ho => ?_
      refine (ih (ordinal + 1)).bind fun outcomes houtcomes => ?_
      show (o :: outcomes).map _ = _
      rw [List.map_cons, ho, houtcomes, List.length_cons, List.range'_succ]

/-- Nothing is written to the hub but reports on the copy. -/
def ReportCall (w : Work) : ClientCall → Prop
  | .patchWorkStatus v status => v = w ∧ Reports w status
  | .addFinalizer .. | .removeFinalizer .. => False
  | _ => True

theorem reconcile_reports (settings : Settings) (clock : Nat → Timestamp) (w : Work) :
    OnlyCalls (ReportCall w) (reconcile settings clock w) := by
  have hmanifest : ∀ c, ManifestCall c → ReportCall w c := by
    intro c hc
    cases c <;> first | exact hc.elim | trivial
  unfold reconcile owningRecord
  split
  · exact OnlyCalls.pure _
  split
  · exact OnlyCalls.pure _
  refine OnlyCalls.bind (OnlyCalls.bind (OnlyCalls.request trivial) ?_) fun applied => ?_
  · rintro (_ | applied)
    · exact OnlyCalls.throw _
    · exact OnlyCalls.pure _
  split
  · exact OnlyCalls.pure _
  split
  · exact OnlyCalls.throw _
  next owner _ =>
  have hwork : (work clock w owner).Yields (I := clientCalls) fun result => Reports w result.2 := by
    refine (documents_ordinals owner 0 w.manifests).bind fun outcomes houtcomes => ?_
    rw [← List.range_eq_range'] at houtcomes
    exact ⟨_, _, outcomes, houtcomes, rfl⟩
  have hcalls : (work clock w owner).OnlyCalls (I := clientCalls) (ReportCall w) :=
    Program.OnlyCalls.bind ((documents_onlyCalls owner 0 w.manifests).mono hmanifest) fun _ => trivial
  refine OnlyCalls.bind_lift hcalls hwork ?_
  rintro ⟨outcomes, status⟩ hreports
  dsimp only
  split
  · refine OnlyCalls.bind (OnlyCalls.request ⟨rfl, hreports⟩) fun _ => ?_
    split <;> exact OnlyCalls.pure _
  · split <;> exact OnlyCalls.pure _

end Apply

/-! ### A hub and its history -/

namespace InMemory

/-- A hub, every copy of a Work that it has ever stored, and what is left of the reconciles that are
applying one of them. -/
structure Chronicle where
  hub : Hub := {}
  seen : Work → Prop := fun _ => False
  running : List (Program clientCalls (Except Failure Action)) := []

namespace Chronicle

/-- The hub goes on, and what it stores now has been seen. -/
def onHub (s : Chronicle) (hub : Hub) : Chronicle :=
  { s with hub, seen := fun v => s.seen v ∨ ∃ key, hub.work? key = some v }

/-- A status is written to the hub, and may fail before or after it is; every other call of a
reconcile may have any reply. Finalizers are attached and removed by anyone, and no name is used
twice. -/
inductive Step : Chronicle → Chronicle → Prop where
  | insert {s : Chronicle} (w : Work) (hnew : w.status = none)
      (hfresh : ∀ v, s.seen v → WorkName.ofWork v ≠ .ofWork w) : Step s (s.onHub (s.hub.insert w))
  | edit {s : Chronicle} (key : WorkName) (manifests : List Json) {hub : Hub}
      (hedit : s.hub.updateManifests key manifests = some hub) : Step s (s.onHub hub)
  | attach {s : Chronicle} (observed : Work) (finalizer : String) {hub : Hub}
      (hadd : s.hub.addFinalizer observed finalizer = .ok hub) : Step s (s.onHub hub)
  | detach {s : Chronicle} (observed : Work) (finalizer : String) {hub : Hub}
      (hremove : s.hub.removeFinalizer observed finalizer = .ok hub) : Step s (s.onHub hub)
  | requestDeletion {s : Chronicle} (key : WorkName) (now : Timestamp) :
      Step s (s.onHub (s.hub.requestDeletion key now))
  | start {s : Chronicle} (settings : Settings) (clock : Nat → Timestamp) {w : Work}
      (hseen : s.seen w) :
      Step s { s with running := (Apply.reconcile settings clock w).run :: s.running }
  | report {s : Chronicle} (before after : List (Program clientCalls (Except Failure Action)))
      (fate : Fate) {w : Work} {status : WorkStatus}
      {next : Except Failure Unit → Program clientCalls (Except Failure Action)}
      (hat : s.running = before ++ .call (.patchWorkStatus w status) next :: after) :
      Step s
        { s.onHub (World.meet { hub := s.hub } fate (.patchWorkStatus w status)).2.hub with
          running := before ++
            next (World.meet { hub := s.hub } fate (.patchWorkStatus w status)).1 :: after }
  | reply {s : Chronicle} (before after : List (Program clientCalls (Except Failure Action)))
      {c : ClientCall} (reply : Except Failure c.Value)
      {next : Except Failure c.Value → Program clientCalls (Except Failure Action)}
      (hat : s.running = before ++ .call c next :: after)
      (hother : ∀ w status, c ≠ .patchWorkStatus w status) :
      Step s { s with running := before ++ next reply :: after }

/-- What comes of an empty hub. -/
def Reachable (s : Chronicle) : Prop := Relation.ReflTransGen Step {} s

/-- A copy of a Work is older than another, or it has the same manifests. -/
def UpTo (v w : Work) : Prop :=
  ∃ g g' : Int, v.metadata.generation = some g ∧ w.metadata.generation = some g' ∧
    (g < g' ∨ g = g' ∧ v.manifests = w.manifests)

theorem UpTo.manifests_eq {v w : Work} (h : UpTo v w)
    (hgeneration : v.metadata.generation = w.metadata.generation) : v.manifests = w.manifests := by
  obtain ⟨g, g', hg, hg', hold | ⟨-, hsame⟩⟩ := h
  · have he : g = g' := by rw [hg, hg'] at hgeneration; exact Option.some.inj hgeneration
    omega
  · exact hsame

/-- What a reconcile that is under way writes to the hub are reports on a copy that has been seen. -/
def MayCall (seen : Work → Prop) : ClientCall → Prop
  | .patchWorkStatus w status => seen w ∧ Apply.Reports w status
  | _ => True

/-- Works are stored under their own names, no copy of a Work is newer than the stored one, every
status is a report on some copy, and so is every status that may still be written. -/
structure Sound (s : Chronicle) : Prop where
  seen : ∀ key w, s.hub.work? key = some w → s.seen w ∧ WorkName.ofWork w = key
  upTo : ∀ key w v, s.hub.work? key = some w → s.seen v → WorkName.ofWork v = key → UpTo v w
  reported : ∀ key w status, s.hub.work? key = some w → w.status = some status →
    ∃ v, s.seen v ∧ WorkName.ofWork v = key ∧ Apply.Reports v status
  running : ∀ p ∈ s.running, p.OnlyCalls (I := clientCalls) (MayCall s.seen)

variable {s s' : Chronicle} {key : WorkName} {w w' : Work}

namespace Sound

theorem mayCall_mono {seen seen' : Work → Prop} (hseen : ∀ v, seen v → seen' v) (c : ClientCall)
    (hc : MayCall seen c) : MayCall seen' c := by
  cases c <;> first | exact ⟨hseen _ hc.1, hc.2⟩ | trivial

/-- How a stored Work may go on: its manifests change with its generation only, and its status
becomes a report. -/
structure Follows (s : Chronicle) (key : WorkName) (w w' : Work) : Prop where
  name : WorkName.ofWork w' = .ofWork w
  generation : w'.metadata.generation = w.metadata.generation ∧ w'.manifests = w.manifests ∨
    w'.metadata.generation = w.metadata.generation.map (· + 1)
  reported : w'.status = w.status ∨ ∃ v status, w'.status = some status ∧ s.seen v ∧
    WorkName.ofWork v = key ∧ Apply.Reports v status

theorem UpTo.follows {v : Work} (h : UpTo v w) (hw : Follows s key w w') : UpTo v w' := by
  obtain ⟨g, g', hg, hg', hage⟩ := h
  rcases hw.generation with ⟨hsame, hmanifests⟩ | hnext
  · exact ⟨g, g', hg, hsame.trans hg', hmanifests ▸ hage⟩
  · refine ⟨g, g' + 1, hg, ?_, Or.inl ?_⟩
    · rw [hnext, hg', Option.map_some]
    · omega

/-- The hub goes on, where what it stores is sound by what has been seen before. -/
theorem onHub (hs : s.Sound) {hub : Hub}
    (hnamed : ∀ key w, hub.work? key = some w → WorkName.ofWork w = key)
    (hupTo : ∀ key w v, hub.work? key = some w → s.seen v → WorkName.ofWork v = key → UpTo v w)
    (hself : ∀ key w, hub.work? key = some w → UpTo w w)
    (hreported : ∀ key w status, hub.work? key = some w → w.status = some status →
      ∃ v, s.seen v ∧ WorkName.ofWork v = key ∧ Apply.Reports v status) :
    (s.onHub hub).Sound := by
  refine ⟨fun key w hw => ⟨Or.inr ⟨key, hw⟩, hnamed key w hw⟩, fun key w v hw hv hkey => ?_,
    fun key w status hw hstatus => ?_, fun p hp => ?_⟩
  · rcases hv with hv | ⟨other, hv⟩
    · exact hupTo key w v hw hv hkey
    · have hother : other = key := (hnamed other v hv).symm.trans hkey
      cases hw.symm.trans (hother ▸ hv)
      exact hself key w hw
  · obtain ⟨v, hv, hkey, hreports⟩ := hreported key w status hw hstatus
    exact ⟨v, Or.inl hv, hkey, hreports⟩
  · exact (hs.running p hp).mono (mayCall_mono fun v => Or.inl)

theorem upTo_self (hs : s.Sound) (hw : s.hub.work? key = some w) : UpTo w w :=
  hs.upTo key w w hw (hs.seen key w hw).1 (hs.seen key w hw).2

/-- What a hub stores after a Work is put there is that Work, or what it stored before. -/
theorem stored_put {h : Hub} {other : WorkName} {v : Work} (hv : (h.put key w).work? other = some v) :
    other = key ∧ v = w ∨ h.work? other = some v := by
  rw [Hub.work?_put] at hv
  split at hv
  · next e => exact Or.inl ⟨e.symm, (Option.some.inj hv).symm⟩
  · exact Or.inr hv

theorem put (hs : s.Sound) (hw : s.hub.work? key = some w) (hfollows : Follows s key w w') :
    (s.onHub (s.hub.put key w')).Sound := by
  refine hs.onHub (fun other v hv => ?_) (fun other v u hv hu hname => ?_) (fun other v hv => ?_)
    (fun other v status hv hstatus => ?_) <;> rcases stored_put hv with ⟨rfl, rfl⟩ | hv
  · exact hfollows.name.trans (hs.seen other w hw).2
  · exact (hs.seen other v hv).2
  · exact UpTo.follows (hs.upTo other w u hw hu hname) hfollows
  · exact hs.upTo other v u hv hu hname
  · obtain ⟨-, g, -, hg, -⟩ := UpTo.follows (hs.upTo_self hw) hfollows
    exact ⟨g, g, hg, hg, Or.inr ⟨rfl, rfl⟩⟩
  · exact hs.upTo_self hv
  · rcases hfollows.reported with hsame | ⟨u, status', hu, hreports⟩
    · exact hs.reported other w status hw (hsame.symm.trans hstatus)
    · cases hstatus.symm.trans hu
      exact ⟨u, hreports⟩
  · exact hs.reported other v status hv hstatus

theorem erase (hs : s.Sound) (key : WorkName) :
    (s.onHub { s.hub with works := s.hub.works.erase key }).Sound := by
  have hstored : ∀ other v, Hub.work? { s.hub with works := s.hub.works.erase key } other = some v →
      s.hub.work? other = some v := by
    intro other v hv
    rw [Hub.work?_erase] at hv
    split at hv
    · cases hv
    · exact hv
  exact hs.onHub (fun other v hv => (hs.seen other v (hstored other v hv)).2)
    (fun other v u hv => hs.upTo other v u (hstored other v hv))
    (fun other v hv => hs.upTo_self (hstored other v hv))
    fun other v status hv => hs.reported other v status (hstored other v hv)

/-- A new Work, of which no copy has been seen. -/
theorem insert (hs : s.Sound) (hnew : w.status = none)
    (hfresh : ∀ v, s.seen v → WorkName.ofWork v ≠ .ofWork w) :
    (s.onHub (s.hub.insert w)).Sound := by
  obtain ⟨filled, hinsert, hname, hstatus, g, hg⟩ : ∃ filled : Work,
      s.hub.insert w = s.hub.put (.ofWork w) filled ∧ WorkName.ofWork filled = .ofWork w ∧
        filled.status = none ∧ ∃ g, filled.metadata.generation = some g :=
    ⟨_, rfl, rfl, hnew, _, rfl⟩
  rw [hinsert]
  refine hs.onHub (fun other v hv => ?_) (fun other v u hv hu hkey => ?_) (fun other v hv => ?_)
    (fun other v status hv hstatus' => ?_) <;> rcases stored_put hv with ⟨rfl, rfl⟩ | hv
  · exact hname
  · exact (hs.seen other v hv).2
  · exact absurd hkey (hfresh u hu)
  · exact hs.upTo other v u hv hu hkey
  · exact ⟨g, g, hg, hg, Or.inr ⟨rfl, rfl⟩⟩
  · exact hs.upTo_self hv
  · cases hstatus.symm.trans hstatus'
  · exact hs.reported other v status hv hstatus'

/-- A write that lets a Work go on, or takes it away. -/
theorem write (hs : s.Sound) {observed : Work} {change : Work → Option Work} {hub : Hub}
    (hchange : ∀ stored w', change stored = some w' →
      s.hub.work? (.ofWork observed) = some stored → Follows s (.ofWork observed) stored w')
    (he : s.hub.write observed change = .ok hub) : (s.onHub hub).Sound := by
  obtain ⟨stored, hstored, -, rfl⟩ := (Hub.write_eq_ok_iff s.hub).1 he
  cases hc : change stored with
  | none => exact hs.erase _
  | some w' => exact hs.put hstored (hchange stored w' hc hstored)

/-- Reconciles that are under way keep reporting on copies that have been seen. -/
theorem resume (hs : s.Sound) {before after : List (Program clientCalls (Except Failure Action))}
    {c : ClientCall} {next : Except Failure c.Value → Program clientCalls (Except Failure Action)}
    (hat : s.running = before ++ .call c next :: after) (reply : Except Failure c.Value) :
    MayCall s.seen c ∧
      Sound { s with running := before ++ next reply :: after } := by
  have hcall : Program.OnlyCalls (I := clientCalls) (MayCall s.seen) (.call c next) :=
    hs.running _ (by rw [hat]; exact List.mem_append_right _ List.mem_cons_self)
  refine ⟨hcall.1, hs.seen, hs.upTo, hs.reported, fun p hp => ?_⟩
  rcases List.mem_append.1 hp with hp | hp
  · exact hs.running p (by rw [hat]; exact List.mem_append_left _ hp)
  rcases List.mem_cons.1 hp with rfl | hp
  · exact hcall.2 _
  · exact hs.running p (by rw [hat]; exact List.mem_append_right _ (List.mem_cons_of_mem _ hp))

/-- A status that a reconcile reports is a report on a copy that has been seen. -/
theorem meet (hs : s.Sound) {status : WorkStatus} (hseen : s.seen w)
    (hreports : Apply.Reports w status) (fate : Fate) :
    (s.onHub (World.meet { hub := s.hub } fate (.patchWorkStatus w status)).2.hub).Sound := by
  have hkept : (s.onHub s.hub).Sound :=
    hs.onHub (fun key v hv => (hs.seen key v hv).2) hs.upTo (fun _ _ => hs.upTo_self) hs.reported
  rcases World.meet_world { hub := s.hub } fate (.patchWorkStatus w status) with h | h <;> rw [h]
  · exact hkept
  rcases World.answer_cases { hub := s.hub } (.patchWorkStatus w status) with
    ⟨failure, -, h⟩ | ⟨value, w', hperform, h⟩ <;> rw [h]
  · exact hkept
  obtain ⟨hub, hpatch, rfl⟩ := World.onHub_eq_ok hperform
  refine hs.write (fun stored changed hchange hstored => ?_) hpatch
  cases hchange
  exact ⟨rfl, Or.inl ⟨rfl, rfl⟩, Or.inr ⟨w, status, rfl, hseen, rfl, hreports⟩⟩

theorem step (hs : s.Sound) (hstep : Step s s') : s'.Sound := by
  cases hstep with
  | insert w hnew hfresh => exact hs.insert hnew hfresh
  | edit key manifests hedit =>
      obtain ⟨w, hw, rfl⟩ := Option.map_eq_some_iff.1 hedit
      exact hs.put hw ⟨rfl, Or.inr rfl, Or.inl rfl⟩
  | attach observed finalizer hadd =>
      refine hs.write (fun stored changed hchange _ => ?_) hadd
      dsimp only at hchange
      split at hchange <;> cases hchange <;> exact ⟨rfl, Or.inl ⟨rfl, rfl⟩, Or.inl rfl⟩
  | detach observed finalizer hremove =>
      refine hs.write (fun stored changed hchange _ => ?_) hremove
      dsimp only at hchange
      split at hchange <;> cases hchange
      exact ⟨rfl, Or.inl ⟨rfl, rfl⟩, Or.inl rfl⟩
  | requestDeletion key now =>
      rw [Hub.requestDeletion]
      cases hw : s.hub.work? key with
      | none =>
          exact hs.onHub (fun key v hv => (hs.seen key v hv).2) hs.upTo (fun _ _ => hs.upTo_self)
            hs.reported
      | some w =>
          dsimp only
          split
          · exact hs.erase key
          · exact hs.put hw ⟨rfl, Or.inl ⟨rfl, rfl⟩, Or.inl rfl⟩
  | start settings clock hseen =>
      refine ⟨hs.seen, hs.upTo, hs.reported, fun p hp => ?_⟩
      rcases List.mem_cons.1 hp with rfl | hp
      · refine (Apply.reconcile_reports settings clock _).mono fun c hc => ?_
        cases c <;> first | trivial | exact ⟨hc.1 ▸ hseen, hc.1 ▸ hc.2⟩
      · exact hs.running p hp
  | report before after fate hat =>
      obtain ⟨⟨hseen, hreports⟩, -⟩ := hs.resume hat (.error (.timeout "" 0))
      have hmet := hs.meet hseen hreports fate
      exact (hmet.resume (s := s.onHub _) hat _).2
  | reply before after reply hat => exact (hs.resume hat reply).2

theorem of_reachable (hreach : Reachable s) : s.Sound := by
  induction hreach with
  | refl =>
      refine ⟨?_, ?_, ?_, ?_⟩
      · rintro key w ⟨⟩
      · rintro key w v ⟨⟩
      · rintro key w status ⟨⟩
      · rintro p ⟨⟩
  | tail _ hstep ih => exact ih.step hstep

end Sound

/-- However edits, deletions and reconciles of any copies interleave: if the status of a stored Work
is stamped with its generation, it tells the truth about its manifests. -/
theorem status_truthful_for_generation (hreach : Reachable s) (hw : s.hub.work? key = some w)
    {c : Condition} (hc : findCondition appliedCondition w.currentStatus.conditions = some c)
    (hstamp : c.observedGeneration = w.metadata.generation) :
    Apply.Truthful w.manifests w.metadata.generation w.currentStatus := by
  have hs := Sound.of_reachable hreach
  cases hstatus : w.status with
  | none =>
      rw [Work.currentStatus, hstatus] at hc
      cases hc
  | some status =>
      obtain ⟨v, hv, hkey, hreports⟩ := hs.reported key w status hw hstatus
      rw [Work.currentStatus, hstatus, Option.getD_some] at hc ⊢
      have hgeneration : v.metadata.generation = w.metadata.generation :=
        (hreports.stamped hc).symm.trans hstamp
      rw [← (hs.upTo key w v hw hv hkey).manifests_eq hgeneration, ← hgeneration]
      exact hreports.truthful

/-! ### A reconcile with nothing else under way -/

/-- What an undisturbed reconcile does to the hub is done in steps. -/
theorem reachable_run {p : Program clientCalls (Except Failure Action)} {world : World}
    (hp : p.OnlyCalls (I := clientCalls) Apply.WorkCall) (hreach : Reachable s)
    (hhub : s.hub = world.hub) (hat : s.running = [p]) :
    ∃ s', Reachable s' ∧ s'.hub = (world.run p).2.hub := by
  induction p generalizing s world with
  | done => exact ⟨s, hreach, hhub⟩
  | call c next ih =>
      have hother : (∀ w status, c ≠ .patchWorkStatus w status) →
          (world.answer c).2.hub = world.hub →
          ∃ s', Reachable s' ∧ s'.hub = (world.run (.call c next)).2.hub := by
        intro hc hkept
        exact ih _ (hp.2 _) (hreach.tail (.reply [] [] (world.answer c).1 hat hc))
          (hhub.trans hkept.symm) rfl
      cases c with
      | patchWorkStatus w status =>
          obtain ⟨hreply, hhub'⟩ : (World.answer { hub := s.hub } (.patchWorkStatus w status)).1 =
              (world.answer (.patchWorkStatus w status)).1 ∧
              (World.answer { hub := s.hub } (.patchWorkStatus w status)).2.hub =
                (world.answer (.patchWorkStatus w status)).2.hub := by
            simp only [World.answer, World.perform, World.onHub, hhub]
            cases world.hub.patchStatus w status <;> exact ⟨rfl, rfl⟩
          refine ih _ (hp.2 _) (hreach.tail (.report [] [] .answered hat)) hhub' ?_
          exact congrArg (fun reply => [next reply]) hreply
      | findMapping | getObject | getAppliedWork => exact hother (by rintro _ _ ⟨⟩) rfl
      | createObject | replaceObject =>
          refine hother (by rintro _ _ ⟨⟩) ?_
          rcases World.answer_cases world _ with ⟨failure, -, h⟩ | ⟨value, v, hperform, h⟩ <;> rw [h]
          obtain ⟨member, -, rfl⟩ := World.onMember_eq_ok hperform
          rfl
      | patchOwners =>
          refine hother (by rintro _ _ ⟨⟩) ?_
          rcases World.answer_cases world _ with ⟨failure, -, h⟩ | ⟨value, v, hperform, h⟩ <;> rw [h]
          obtain ⟨member, -, rfl⟩ := World.onMember_map_eq_ok hperform
          rfl
      | _ => exact hp.1.elim

/-- Where a Work has just been brought that has its finalizer and its record. -/
def brought : World := { Demo.start with hub := ({} : Hub).insert Demo.work }

/-- The only manifest of the Work is applied, and its status is stamped with the first generation. -/
theorem first_report_truthful :
    ∃ s, Reachable s ∧ s.hub.work? Demo.name = some (Demo.current (Demo.apply brought).2) ∧
      (∃ c, findCondition appliedCondition
          (Demo.current (Demo.apply brought).2).currentStatus.conditions = some c ∧
        c.observedGeneration = (Demo.current (Demo.apply brought).2).metadata.generation) ∧
      Apply.Truthful [Demo.configMap "m1"] (some 1)
        (Demo.current (Demo.apply brought).2).currentStatus := by
  have hbrought : Reachable (onHub {} brought.hub) :=
    .single (.insert Demo.work rfl fun _ h => h.elim)
  have hstarted : Reachable { onHub {} brought.hub with
      running := [(Apply.reconcile {} (fun _ => Demo.epoch) (Demo.current brought)).run] } :=
    hbrought.tail (.start {} _ (Or.inr ⟨Demo.name, rfl⟩))
  have hcalls : Program.OnlyCalls (I := clientCalls) Apply.WorkCall
      (Apply.reconcile {} (fun _ => Demo.epoch) (Demo.current brought)).run :=
    Apply.reconcile_onlyCalls {} _ _
  obtain ⟨s, hreach, hhub⟩ := reachable_run hcalls hstarted (show _ = brought.hub from rfl) rfl
  have hwork : s.hub.work? Demo.name = some (Demo.current (Demo.apply brought).2) := by
    rw [hhub]
    rfl
  obtain ⟨c, hc⟩ := Option.isSome_iff_exists.1 (show (findCondition appliedCondition
    (Demo.current (Demo.apply brought).2).currentStatus.conditions).isSome = true from rfl)
  have hstamp : c.observedGeneration =
      (Demo.current (Demo.apply brought).2).metadata.generation := by
    have hmap : (findCondition appliedCondition
        (Demo.current (Demo.apply brought).2).currentStatus.conditions).map
          Condition.observedGeneration = some (some 1) := rfl
    rw [hc] at hmap
    exact Option.some.inj hmap
  exact ⟨s, hreach, hwork, ⟨c, hc, hstamp⟩, status_truthful_for_generation hreach hwork hc hstamp⟩

end Chronicle

end InMemory

end MemberAgent
