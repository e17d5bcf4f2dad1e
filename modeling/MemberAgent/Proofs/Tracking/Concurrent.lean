import MemberAgent.Proofs.Tracking.Beside

/-! Two syncs of one record side by side, one that follows a change of the Work and one of the
monitor. If either goes through, they leave together what one undisturbed sync leaves; if neither does,
the record has not been written. -/

namespace MemberAgent

open InMemory Tracking Reconcile

/-- Where the monitor looks for the Work of a record. -/
def Monitor.workNamespace (settings : Settings) (applied : AppliedWork) : String :=
  if applied.spec.workNamespace.isEmpty then settings.workNamespace else applied.spec.workNamespace

theorem Monitor.workNamespace_eq {settings : Settings} {applied applied' : AppliedWork}
    (h : applied'.spec = applied.spec) :
    workNamespace settings applied' = workNamespace settings applied := by
  rw [workNamespace, h]
  rfl

namespace InMemory.World

variable {α β : Type} {w w' start : World} {name : String} {work : Work}

/-! ### Records -/

/-- When a call of a program may have changed a record, the program succeeds. -/
def SucceedsOnceWritten : Program clientCalls (Except Failure α) → Prop
  | .done _ => True
  | .call c next =>
    (KeepsRecords c ∨
        ∀ value, (next (.ok value)).Yields (I := clientCalls) fun result => result.isOk) ∧
      ∀ reply, SucceedsOnceWritten (next reply)

namespace SucceedsOnceWritten

theorem bind {x : Reconcile α} {f : α → Reconcile β} (hx : OnlyCalls KeepsRecords x)
    (hf : ∀ a, SucceedsOnceWritten (f a).run) : SucceedsOnceWritten (x >>= f).run := by
  show SucceedsOnceWritten (x.run >>= _)
  unfold OnlyCalls at hx
  generalize x.run = p at hx
  induction p with
  | done result =>
      cases result with
      | error failure => trivial
      | ok a => exact hf a
  | call c next ih => exact ⟨Or.inl hx.1, fun reply => ih reply (hx.2 reply)⟩

/-- What comes after the success of a program and makes no calls does not fail. -/
theorem map {x : Reconcile α} (hx : SucceedsOnceWritten x.run) (b : β) :
    SucceedsOnceWritten (x >>= fun _ => pure b).run := by
  show SucceedsOnceWritten (x.run >>= _)
  generalize x.run = p at hx
  induction p with
  | done result => cases result <;> trivial
  | call c next ih =>
      refine ⟨hx.1.imp_right fun hyields value => ?_, fun reply => ih reply (hx.2 reply)⟩
      refine Program.Yields.bind (hyields value) fun result hok => ?_
      cases result with
      | error failure => cases hok
      | ok a => rfl

theorem align (work : Work) (applied : AppliedWork) :
    SucceedsOnceWritten (align work applied).run := by
  refine bind ((releaseAll_onlyCalls _ _).mono releaseCall_keepsRecords) fun _ => ?_
  refine bind (refreshUids_keepsRecords _) fun resources => ?_
  split
  · exact ⟨Or.inr fun _ => rfl, fun _ => trivial⟩
  · trivial

theorem sync («namespace» name : String) (given : Option Work) (record : Option AppliedWork) :
    SucceedsOnceWritten (sync «namespace» name given record).run := by
  rw [sync_eq]
  refine bind ((readPair_onlyCalls _ _ _ _).mono readCall_keepsRecords) fun pair => ?_
  cases pair with
  | none => trivial
  | some pair => exact align _ _

theorem tracking (settings : Settings) (work : Work) :
    SucceedsOnceWritten (Tracking.reconcile settings work).run :=
  map (sync _ _ _ _) _

theorem monitor (settings : Settings) (given : AppliedWork) :
    SucceedsOnceWritten (Monitor.reconcile settings given).run := by
  refine bind (OnlyCalls.request trivial) fun current => ?_
  cases current with
  | none => trivial
  | some current => exact map (sync _ _ _ _) _

end SucceedsOnceWritten

/-- Where both programs fail, no call has changed a record. -/
theorem Interleaved.records_kept {p : Program clientCalls (Except Failure α)}
    {q : Program clientCalls (Except Failure β)} {log : List Exchange} {a : Except Failure α}
    {b : Except Failure β} (h : Interleaved w p q log a b w') (hp : SucceedsOnceWritten p)
    (hq : SucceedsOnceWritten q) (ha : ¬a.isOk) (hb : ¬b.isOk) : w'.member.applied = w.member.applied := by
  have hcall : ∀ (v : World) (c : ClientCall),
      KeepsRecords c ∨ (∀ value, (v.answer c).1 ≠ .ok value) →
      (v.answer c).2.member.applied = v.member.applied := by
    intro v c hc
    rcases answer_cases v c with ⟨failure, -, hanswer⟩ | ⟨value, v', hperform, hanswer⟩ <;>
      rw [hanswer] at hc ⊢
    exact applied_perform (hc.resolve_right fun hnot => hnot value rfl) hperform
  induction h with
  | done => rfl
  | @left v _ c next _ _ _ _ h ih =>
      refine (ih (hp.2 _) hq ha hb).trans (hcall v c (hp.1.imp_right fun hyields value hreply => ?_))
      rw [hreply] at h
      exact ha (h.left_yields (hyields value))
  | @right v _ _ c next _ _ _ h ih =>
      refine (ih hp (hq.2 _) ha hb).trans (hcall v c (hq.1.imp_right fun hyields value hreply => ?_))
      rw [hreply] at h
      exact hb (h.right_yields (hyields value))

/-! ### Deletions that are set to fail -/

/-- Whether objects whose deletion is set to fail are still there. -/
def KeepsUndeletable (w w' : World) : Prop :=
  w'.member.failingDeletes = w.member.failingDeletes ∧
    ∀ key, w.member.failingDeletes.contains key → (w.member.object? key).isSome →
      (w'.member.object? key).isSome

instance : IsPreorder World KeepsUndeletable where
  refl _ := ⟨rfl, fun _ _ hthere => hthere⟩
  trans _ _ _ h h' := by
    refine ⟨h'.1.trans h.1, fun key hfailing hthere => h'.2 key ?_ (h.2 key hfailing hthere)⟩
    rw [h.1]
    exact hfailing

theorem keepsUndeletable_answer {c : ClientCall} (hc : SyncCall c) :
    KeepsUndeletable w (w.answer c).2 := by
  have hrefl : KeepsUndeletable w w := refl_of KeepsUndeletable w
  rcases answer_cases w c with ⟨failure, -, hanswer⟩ | ⟨value, w', hperform, hanswer⟩ <;> rw [hanswer]
  · exact hrefl
  cases c with
  | getWork | getAppliedWork | getTracked => cases hperform; exact hrefl
  | patchOwners mapping live owners =>
      obtain ⟨member, hpatch, rfl⟩ := onMember_map_eq_ok hperform
      obtain ⟨o, hwrite⟩ := Member.patchOwners_eq_ok_iff.1 hpatch
      obtain ⟨stored, -, -, -, rfl⟩ := Member.write_eq_ok_iff.1 hwrite
      refine ⟨rfl, fun key _ hthere => ?_⟩
      show ((w.member.put _ _).object? key).isSome
      rw [Member.object?_put]
      split
      · rfl
      · exact hthere
  | deleteTracked r =>
      obtain ⟨member, hdelete, rfl⟩ := onMember_eq_ok hperform
      have hhealthy : ¬w.member.failingDeletes.contains (ObjectKey.ofTracked r) := by
        intro hfailing
        rw [Member.deleteTracked, if_pos hfailing] at hdelete
        cases hdelete
      rcases Member.deleteTracked_eq_ok hdelete with rfl | rfl
      · exact hrefl
      · refine ⟨rfl, fun key hfailing hthere => ?_⟩
        show ((w.member.removeObject _).object? key).isSome
        rw [Member.object?_removeObject, if_neg]
        · exact hthere
        · rintro rfl
          exact hhealthy hfailing
  | updateResources =>
      obtain ⟨member, hupdate, rfl⟩ := onMember_map_eq_ok hperform
      obtain ⟨stored, -, -, rfl⟩ := Member.updateResources_eq_ok_iff.1 hupdate
      exact ⟨rfl, fun _ _ hthere => hthere⟩
  | _ => exact hc.elim

/-- What has been synced has met no deletion that is set to fail. -/
theorem unblocked_of_synced {pair : Except Failure (Option (Work × AppliedWork))}
    (hkeeps : KeepsUndeletable start (start.synced pair)) : start.Unblocked pair := by
  rcases pair with failure | _ | ⟨work, applied⟩
  · trivial
  · trivial
  rintro r hr ⟨hfailing, hthere, hdeleted⟩
  have hstill := hkeeps.2 _ hfailing hthere
  have hgone : (start.member.released (applied.metadata.uid.getD "") r).object? (.ofTracked r) =
      none := by
    rw [Member.object?_released, if_pos rfl]
    exact hdeleted
  rw [synced, aligned, Member.aligned, Member.object?_committed,
    ← Member.releasedAll_absorbs hr] at hstill
  rcases Member.object?_releasedAll_cases (.ofTracked r) with h | h <;> rw [h, hgone] at hstill <;>
    cases hstill

/-! ### Reading the pair -/

/-- The pair of a Work and the record as it stands. -/
def pairWith (w : World) (name : String) (work : Work) :
    Except Failure (Option (Work × AppliedWork)) :=
  consistentPair name (some work) (w.member.applied? name)

/-- Where there is no record, there is nothing to sync. -/
theorem synced_of_gone (h : PartlySynced (start.pairWith name work) start w)
    (hgone : w.member.applied? name = none) : w = start.synced (start.pairWith name work) := by
  have hspec := h.spec name
  rw [hgone] at hspec
  rcases hpair : start.pairWith name work with failure | _ | ⟨found, applied⟩ <;> rw [hpair] at h
  · exact h
  · exact h
  · obtain ⟨-, hthere⟩ := consistentPair_eq_some hpair
    rw [hthere] at hspec
    cases hspec

/-- Beside other syncs of the record, one that reads the pair when they have come some way leaves what
an undisturbed one leaves from the start. -/
theorem succeeds_alignPair (hplaced : start.member.Placed)
    (hpartly : PartlySynced (start.pairWith name work) start w) :
    Succeeds (PartlySynced (start.pairWith name work)) w
      (ExceptT.mk (.done (w.pairWith name work)) >>= alignPair)
      fun _ w' => w' = start.synced (start.pairWith name work) := by
  have hdata : SameData "" name (some work) (start.member.applied? name) start w (some work) none :=
    ⟨rfl, Or.inr ⟨rfl, rfl⟩⟩
  rcases pairOf_later hpartly hdata with hpair | ⟨hdone, hnothing⟩
  · have hsame : w.pairWith name work = start.pairWith name work := hpair
    rw [hsame]
    generalize start.pairWith name work = pair at hpartly
    rcases pair with failure | _ | ⟨work, applied⟩
    · exact Succeeds.fail failure
    · exact Succeeds.pure fun w' hw' => Eq.trans hw' hpartly
    · have hend : w.aligned work applied = start.aligned work applied := PartlySynced.synced_eq hpartly
      show Succeeds (PartlyAligned work applied) w (align work applied) fun _ w' =>
        w' = start.aligned work applied
      rw [← hend]
      exact succeeds_align (PartlySynced.placed hpartly hplaced)
  · -- the others are done, and the record as they have written it leaves nothing to do
    have hfixed : ∀ w', PartlySynced (start.pairWith name work) w w' → w' = w := by
      intro w' h
      rw [hdone] at h ⊢
      exact h.of_synced
    have hkept : Reaches (fun fate => fate = .answered) w
        (ExceptT.mk (.done (w.pairWith name work)) >>= alignPair : Reconcile Unit).run
        fun _ w' => w' = w := by
      have hnothing : ∀ w', PartlySynced (w.pairWith name work) w w' → w' = w := hnothing
      generalize w.pairWith name work = pair at hnothing
      rcases pair with failure | _ | ⟨work, applied⟩
      · exact Reaches.done rfl
      · exact Reaches.done rfl
      · have hends : Ends (fun fate => fate = .answered) w (align work applied) _ _ :=
          align_ends (PartlySynced.placed hpartly hplaced)
        exact Reaches.mono hends fun _ w' h => hnothing w' h.1
    exact (Beside.of_fixed hfixed hkept).mono fun _ w' h _ _ => h.trans hdone

/-! ### Whole syncs -/

/-- Whether the hub holds the Work where the monitor looks for the one of the record. -/
def RecordOf (settings : Settings) (work : Work) (w : World) : Prop :=
  ∀ applied, w.member.applied? work.name = some applied →
    w.hub.work? ⟨Monitor.workNamespace settings applied, work.name⟩ = some work

variable {settings : Settings} {given : AppliedWork}

theorem RecordOf.later {pair : Except Failure (Option (Work × AppliedWork))}
    (h : RecordOf settings work w) (hlater : PartlySynced pair w w') : RecordOf settings work w' := by
  intro applied hthere
  have hspec := hlater.spec work.name
  rw [hthere] at hspec
  obtain ⟨applied₀, hthere₀, hsame⟩ := Option.map_eq_some_iff.1 hspec.symm
  rw [hlater.hub, Monitor.workNamespace_eq hsame.symm]
  exact h applied₀ hthere₀

theorem sync_of_work («namespace» : String) (work : Work) :
    sync «namespace» name (some work) none = request (.getAppliedWork name) >>= fun record =>
      ExceptT.mk (.done (consistentPair name (some work) record)) >>= alignPair := by
  rw [sync_eq]
  exact bind_assoc (request (.getAppliedWork name))
    (fun record => ExceptT.mk (.done (consistentPair name (some work) record))) alignPair

theorem sync_of_record («namespace» : String) (record : AppliedWork) :
    sync «namespace» name none (some record) = request (.getWork «namespace» name) >>= fun work =>
      ExceptT.mk (.done (consistentPair name work (some record))) >>= alignPair := by
  rw [sync_eq]
  exact bind_assoc (request (.getWork «namespace» name))
    (fun work => ExceptT.mk (.done (consistentPair name work (some record)))) alignPair

/-- What has been synced stays so until the reconcile of the sync returns. -/
theorem succeeds_then_pure {pair : Except Failure (Option (Work × AppliedWork))} {x : Reconcile α}
    (hx : Succeeds (PartlySynced pair) w x fun _ w' => w' = start.synced pair) (b : β) :
    Succeeds (PartlySynced pair) w (x >>= fun _ => pure b) fun _ w' => w' = start.synced pair := by
  refine Succeeds.andThen hx fun _ w₁ _ hdone => Succeeds.pure fun w₂ h => ?_
  rw [hdone] at h
  exact h.of_synced

theorem answer_getAppliedWork (w : World) (name : String) :
    w.answer (.getAppliedWork name) = (.ok (w.member.applied? name), w) := rfl

theorem answer_getWork (w : World) («namespace» name : String) :
    w.answer (.getWork «namespace» name) = (.ok (w.hub.work? ⟨«namespace», name⟩), w) := rfl

theorem succeeds_tracking (settings : Settings) (work : Work) (hplaced : start.member.Placed) :
    Succeeds (PartlySynced (start.pairWith work.name work)) start (Tracking.reconcile settings work)
      fun _ w' => w' = start.synced (start.pairWith work.name work) := by
  refine succeeds_then_pure ?_ _
  rw [sync_of_work]
  refine Succeeds.request_read (fun v => answer_getAppliedWork v work.name) fun v hv => ?_
  exact succeeds_alignPair hplaced hv

theorem succeeds_monitor (hplaced : start.member.Placed) (hrecord : RecordOf settings work start)
    (hname : given.name = work.name) :
    Succeeds (PartlySynced (start.pairWith work.name work)) start (Monitor.reconcile settings given)
      fun _ w' => w' = start.synced (start.pairWith work.name work) := by
  unfold Monitor.reconcile
  rw [hname]
  refine Succeeds.request_read (fun v => answer_getAppliedWork v work.name) fun v hv => ?_
  have halign := succeeds_alignPair hplaced hv
  unfold pairWith at halign
  cases hread : v.member.applied? work.name with
  | none =>
      have hdone := synced_of_gone hv hread
      refine Succeeds.pure fun v' hv' => ?_
      rw [hdone] at hv'
      exact hv'.of_synced
  | some current =>
      rw [hread] at halign
      refine succeeds_then_pure ?_ _
      rw [sync_of_record]
      refine Succeeds.request_read (fun v => answer_getWork v _ work.name) fun v' hv' => ?_
      have hwork := hrecord.later hv current hread
      unfold Monitor.workNamespace at hwork
      rw [PartlySynced.hub hv', hwork]
      exact Beside.later halign hv'

/-! ### Undisturbed runs -/

theorem run_then_pure (w : World) (x : Reconcile α) (b : β) :
    (w.run (x >>= fun _ => pure b).run).2 = (w.run x.run).2 := by
  rcases hrun : w.run x.run with ⟨failure | a, w'⟩
  · rw [run_andThen_error hrun]
  · rw [run_andThen hrun]
    rfl

theorem run_tracking (settings : Settings) (work : Work) (hplaced : w.member.Placed)
    (hfree : w.Unblocked (w.pairWith work.name work)) :
    (w.run (Tracking.reconcile settings work).run).2 = w.synced (w.pairWith work.name work) := by
  have hsync : (w.run (sync (work.metadata.namespace.getD settings.workNamespace) work.name (some work)
      none).run).2 = w.synced (w.pairWith work.name work) := run_sync hplaced hfree
  rw [← hsync]
  exact run_then_pure w _ _

theorem run_monitor (hplaced : w.member.Placed) (hfree : w.Unblocked (w.pairWith work.name work))
    (hrecord : RecordOf settings work w) (hname : given.name = work.name) :
    (w.run (Monitor.reconcile settings given).run).2 = w.synced (w.pairWith work.name work) := by
  unfold Monitor.reconcile
  rw [hname, run_request_andThen (answer_getAppliedWork w work.name)]
  cases hread : w.member.applied? work.name with
  | none => exact synced_of_gone partlySynced_self hread
  | some current =>
      have hpair : w.pairOf (Monitor.workNamespace settings current) work.name none (some current) =
          w.pairWith work.name work := by
        rw [pairOf, pairWith, hrecord current hread, hread]
        rfl
      have hsync : (w.run (sync (Monitor.workNamespace settings current) work.name none
          (some current)).run).2 = w.synced (w.pairWith work.name work) := by
        rw [← hpair] at hfree ⊢
        exact run_sync hplaced hfree
      rw [← hsync]
      exact run_then_pure w _ _

/-- Where objects stand under their own names: one sync of a record that follows a change of its Work
and one of the monitor, with their calls in any order, leave exactly what either of them alone leaves
undisturbed if one of them succeeds; and if both fail, no record has changed. -/
theorem concurrent_syncs_as_one {log : List Exchange} {followed monitored : Except Failure Action}
    (hplaced : start.member.Placed) (hrecord : RecordOf settings work start)
    (hname : given.name = work.name)
    (h : Interleaved start (Tracking.reconcile settings work).run
      (Monitor.reconcile settings given).run log followed monitored w) :
    (followed.isOk ∨ monitored.isOk →
      w = (start.run (Tracking.reconcile settings work).run).2 ∧
        w = (start.run (Monitor.reconcile settings given).run).2) ∧
      (¬followed.isOk → ¬monitored.isOk → w.member.applied = start.member.applied) := by
  refine ⟨fun hok => ?_, ?_⟩
  · obtain ⟨-, hfollowed, hmonitored⟩ :=
      h.ends (succeeds_tracking settings work hplaced) (succeeds_monitor hplaced hrecord hname)
    have hsynced : w = start.synced (start.pairWith work.name work) := by
      rcases hok with hok | hok
      · cases followed with
        | error failure => cases hok
        | ok action => exact hfollowed action rfl
      · cases monitored with
        | error failure => cases hok
        | ok action => exact hmonitored action rfl
    have hfree : start.Unblocked (start.pairWith work.name work) := by
      obtain ⟨hkeeps, -⟩ := h.ends
        (Beside.of_onlyCalls (fun _ _ => keepsUndeletable_answer) (Tracking.reconcile_onlyCalls _ _))
        (Beside.of_onlyCalls (fun _ _ => keepsUndeletable_answer) (Monitor.reconcile_onlyCalls _ _))
      rw [hsynced] at hkeeps
      exact unblocked_of_synced hkeeps
    rw [run_tracking settings work hplaced hfree, run_monitor hplaced hfree hrecord hname]
    exact ⟨hsynced, hsynced⟩
  · exact h.records_kept (SucceedsOnceWritten.tracking settings work)
      (SucceedsOnceWritten.monitor settings given)

/-- The Work of the record that is left over. -/
def leftoverWork : Work where
  metadata := {
    name := some "demo", «namespace» := some "cluster1", finalizers := some [cleanupFinalizer] }

/-- The copy of the record that sets off the monitor. -/
def leftoverCopy : AppliedWork where
  metadata := { name := some "demo" }
  spec := ⟨"demo", "cluster1"⟩

theorem recordOf_leftover : RecordOf {} leftoverWork leftover := by
  intro applied hthere
  have hrecord : leftover.member.applied? "demo" = some _ := rfl
  cases hrecord.symm.trans hthere
  rfl

/-- Both look at each object before either of them touches it. The monitor is the first to withdraw
from the shared one, so the sync that follows the Work is refused there and fails. -/
theorem leftover_synced_by_monitor_only : ∃ log failure action w,
    Interleaved leftover (Tracking.reconcile {} leftoverWork).run
      (Monitor.reconcile {} leftoverCopy).run log (.error failure) (.ok action) w ∧
    w = (leftover.run (Tracking.reconcile {} leftoverWork).run).2 := by
  have hrun : ∃ log failure action w, Interleaved leftover (Tracking.reconcile {} leftoverWork).run
      (Monitor.reconcile {} leftoverCopy).run log (.error failure) (.ok action) w :=
    ⟨_, _, _, _, .left (.right (.right (.left (.right (.left (.right (.left (.right (.right (.left
      (.right (.done _ _ _))))))))))))⟩
  obtain ⟨log, failure, action, w, h⟩ := hrun
  have hone := concurrent_syncs_as_one placed_leftover recordOf_leftover rfl h
  exact ⟨log, failure, action, w, h, (hone.1 (Or.inr rfl)).1⟩

end InMemory.World

end MemberAgent
