import MemberAgent.Proofs.Tracking.Realigned

/-! Syncs that are tried again. However often and wherever attempts end, and whichever of their calls
fail before or after their effect, a sync that goes through at last leaves what one undisturbed sync
would have left; and from there, nothing changes any more. -/

namespace MemberAgent

open InMemory Tracking

namespace InMemory.World

variable {possible : Fate → Prop} {w w' : World} {«namespace» name : String} {work : Option Work}
  {record : Option AppliedWork} {pair : Except Failure (Option (Work × AppliedWork))}

/-- The pair that a sync goes by, which holds copies or reads them. -/
def pairOf (w : World) («namespace» name : String) (work : Option Work)
    (record : Option AppliedWork) : Except Failure (Option (Work × AppliedWork)) :=
  consistentPair name (work.or (w.hub.work? ⟨«namespace», name⟩)) (record.or (w.member.applied? name))

/-- What a sync of a pair leaves when it goes through. -/
def synced (w : World) : Except Failure (Option (Work × AppliedWork)) → World
  | .ok (some (work, applied)) => w.aligned work applied
  | _ => w

/-- What a sync of a pair may leave. -/
def PartlySynced (pair : Except Failure (Option (Work × AppliedWork))) (w w' : World) : Prop :=
  match pair with
  | .ok (some (work, applied)) =>
    ReleasedSome (applied.metadata.uid.getD "")
      (diff work.currentStatus.declared applied.resources).stale w w' ∨ w' = w.aligned work applied
  | _ => w' = w

theorem partlySynced_self : PartlySynced pair w w := by
  rcases pair with failure | _ | ⟨work, applied⟩
  · rfl
  · rfl
  · exact Or.inl releasedSome_nil

theorem partlySynced_synced : PartlySynced pair w (w.synced pair) := by
  rcases pair with failure | _ | ⟨work, applied⟩
  · rfl
  · rfl
  · exact Or.inr rfl

/-- What releases and alignments bring about holds of what a sync may leave. -/
theorem PartlySynced.holds (h : PartlySynced pair w w') (kept : World → Prop)
    (hreleased : ∀ owner l, kept (w.releasedAll owner l))
    (haligned : ∀ work applied, kept (w.aligned work applied)) : kept w' := by
  have hself : kept w := hreleased "" []
  rcases pair with failure | _ | ⟨work, applied⟩
  · cases h; exact hself
  · cases h; exact hself
  · rcases h with ⟨l, -, rfl⟩ | rfl
    · exact hreleased _ l
    · exact haligned work applied

theorem PartlySynced.placed (h : PartlySynced pair w w') (hplaced : w.member.Placed) :
    w'.member.Placed :=
  h.holds (fun v => v.member.Placed) (fun _ _ => hplaced.releasedAll) fun _ _ =>
    hplaced.releasedAll.committed

theorem PartlySynced.failingDeletes (h : PartlySynced pair w w') :
    w'.member.failingDeletes = w.member.failingDeletes := by
  refine h.holds (fun v => v.member.failingDeletes = w.member.failingDeletes)
    (fun _ _ => Member.failingDeletes_releasedAll) fun _ _ => ?_
  exact Member.failingDeletes_committed.trans Member.failingDeletes_releasedAll

theorem PartlySynced.hub (h : PartlySynced pair w w') : w'.hub = w.hub :=
  h.holds (fun v => v.hub = w.hub) (fun _ _ => rfl) fun _ _ => rfl

/-- Syncs neither make nor delete records, and each record stays that of its Work. -/
theorem PartlySynced.spec (h : PartlySynced pair w w') (name : String) :
    (w'.member.applied? name).map AppliedWork.spec =
      (w.member.applied? name).map AppliedWork.spec := by
  refine h.holds (fun v => (v.member.applied? name).map AppliedWork.spec =
      (w.member.applied? name).map AppliedWork.spec)
    (fun _ _ => congrArg _ (Member.applied?_releasedAll name)) fun _ _ => ?_
  exact (Member.spec_committed name).trans (congrArg _ (Member.applied?_releasedAll name))

/-- A copy that is given is taken, and one that is not is read. -/
theorem givenOr_ends {α : Type} {read : Reconcile (Option α)} {there : Option α} (given : Option α)
    (hread : Ends possible w read (fun w' => w' = w) fun found _ => found = there) :
    Ends possible w (givenOr given read) (fun w' => w' = w) fun found _ => found = given.or there := by
  cases given with
  | none => exact hread
  | some a => exact Ends.pure rfl rfl

/-- Reading a pair changes nothing. -/
theorem readPair_ends : Ends possible w (readPair «namespace» name work record) (fun w' => w' = w)
    fun pair _ => w.pairOf «namespace» name work record = .ok pair := by
  have hwork : w.answer (.getWork «namespace» name) =
      (.ok (w.hub.work? ⟨«namespace», name⟩), w) := rfl
  have hrecord : w.answer (.getAppliedWork name) = (.ok (w.member.applied? name), w) := rfl
  refine Ends.andThen (givenOr_ends work (Ends.request_read hwork)) (fun _ h => h) ?_
  rintro _ _ rfl rfl
  refine Ends.andThen (givenOr_ends record (Ends.request_read hrecord)) (fun _ h => h) ?_
  rintro _ _ rfl rfl
  exact Reaches.done ⟨rfl, fun pair he => Option.some.inj he⟩

theorem run_readPair (w : World) («namespace» name : String) (work : Option Work)
    (record : Option AppliedWork) : w.run (readPair «namespace» name work record).run =
      (w.pairOf «namespace» name work record, w) := by
  cases work <;> cases record <;> rfl

/-- An attempt to sync leaves a part of what a sync leaves, and all if it succeeds. -/
theorem sync_ends (hplaced : w.member.Placed) : Ends possible w (sync «namespace» name work record)
    (PartlySynced (w.pairOf «namespace» name work record) w)
    fun _ w' => w' = w.synced (w.pairOf «namespace» name work record) := by
  rw [sync_eq]
  refine Ends.andThen readPair_ends (fun _ h => h ▸ partlySynced_self) ?_
  rintro pair _ rfl hpair
  rw [hpair]
  cases pair with
  | none => exact Ends.pure rfl rfl
  | some pair => exact align_ends hplaced

theorem partlySynced_attempt («namespace» name : String) (work : Option Work)
    (record : Option AppliedWork) (hplaced : w.member.Placed) (fates : List Fate) :
    PartlySynced (w.pairOf «namespace» name work record) w
      (w.attempt fates (sync «namespace» name work record).run).2.1 := by
  have hends : Ends (fun _ => True) w (sync «namespace» name work record) _ _ := sync_ends hplaced
  exact (hends fates fun _ _ => trivial).1

/-- Whether no deletion that a sync of a pair comes to is set to fail. -/
def Unblocked (w : World) : Except Failure (Option (Work × AppliedWork)) → Prop
  | .ok (some (work, applied)) => ∀ r ∈ (diff work.currentStatus.declared applied.resources).stale,
    ¬Blocked (applied.metadata.uid.getD "") w r
  | _ => True

theorem unblocked_of_healthy (hhealthy : w.member.failingDeletes = []) : w.Unblocked pair := by
  rcases pair with failure | _ | ⟨work, applied⟩
  · trivial
  · trivial
  · exact fun r _ => not_blocked_of_healthy hhealthy

/-- An undisturbed sync leaves what a sync that goes through leaves, whether or not it succeeds. -/
theorem run_sync (hplaced : w.member.Placed)
    (hfree : w.Unblocked (w.pairOf «namespace» name work record)) :
    (w.run (sync «namespace» name work record).run).2 =
      w.synced (w.pairOf «namespace» name work record) := by
  have hread := run_readPair w «namespace» name work record
  rw [sync_eq]
  rcases hpair : w.pairOf «namespace» name work record with failure | _ | ⟨theWork, applied⟩ <;>
    rw [hpair] at hread hfree
  · rw [run_andThen_error hread]
    rfl
  · rw [run_andThen hread]
    rfl
  · rw [run_andThen hread]
    exact run_align hplaced hfree

/-! ### Attempts in a row -/

/-- Whether an attempt goes by the same data as others before it: by the Work, and by the copy of the
record that they went by or, when that was the record as it stood in the beginning, by the record as
it stands now. Copies that are not given are read. -/
def SameData («namespace» name : String) (theWork : Option Work) (copy : Option AppliedWork)
    (start now : World) (work : Option Work) (record : Option AppliedWork) : Prop :=
  work.or (now.hub.work? ⟨«namespace», name⟩) = theWork ∧
    (record.or (now.member.applied? name) = copy ∨
      copy = start.member.applied? name ∧
        record.or (now.member.applied? name) = now.member.applied? name)

/-- Attempts to sync, one after another, each under fates of its own. -/
inductive Replay («namespace» name : String) (theWork : Option Work) (copy : Option AppliedWork)
    (start : World) : World → Prop where
  | start : Replay «namespace» name theWork copy start start
  | attempt {w : World} (h : Replay «namespace» name theWork copy start w) {work : Option Work}
      {record : Option AppliedWork}
      (hdata : SameData «namespace» name theWork copy start w work record) (fates : List Fate) :
      Replay «namespace» name theWork copy start
        (w.attempt fates (sync «namespace» name work record).run).2.1

variable {theWork : Option Work} {copy : Option AppliedWork} {start : World}

/-- A pair that is out of transition is made of the Work and the record that were found. -/
theorem consistentPair_eq_some {found : Work} {applied : AppliedWork}
    (h : consistentPair name theWork copy = .ok (some (found, applied))) :
    theWork = some found ∧ copy = some applied := by
  unfold consistentPair at h
  split at h
  · cases h
  · split at h <;> cases h
  · split at h <;> cases h
  · split at h
    · cases h
    · cases h
      exact ⟨rfl, rfl⟩

/-- Only whether the record is going tells one record from another. -/
theorem consistentPair_of_isDeleting_eq {found : Work} {applied a : AppliedWork}
    (h : consistentPair name (some found) (some applied) = .ok (some (found, applied)))
    (hdeleting : a.isDeleting = applied.isDeleting) :
    consistentPair name (some found) (some a) = .ok (some (found, a)) := by
  simp only [consistentPair, hdeleting] at h ⊢
  split at h
  · cases h
  · next hsettled => rw [if_neg hsettled]

/-- After an alignment, the record as it stands now makes the same pair, or one that leaves nothing
to do. -/
theorem pair_of_aligned {found : Work} {applied : AppliedWork}
    (hpair : consistentPair name (some found) (some applied) = .ok (some (found, applied)))
    (hbefore : start.member.applied? name = some applied) :
    let aligned := start.aligned found applied
    let now := consistentPair name (some found) (aligned.member.applied? name)
    now = .ok (some (found, applied)) ∨ ∀ w', PartlySynced now aligned w' → w' = aligned := by
  intro aligned now
  obtain ⟨a, hafter, hagain⟩ : ∃ a, aligned.member.applied? name = some a ∧ _ :=
    Member.aligned_again hbefore
  have hnow : now = consistentPair name (some found) (some a) := by rw [← hafter]
  rcases hagain with rfl | ⟨hdeleting, hstale, hagain⟩
  · exact Or.inl (hnow.trans hpair)
  refine Or.inr fun w' h => ?_
  rw [hnow, consistentPair_of_isDeleting_eq hpair hdeleting] at h
  rcases h with ⟨l, hl, rfl⟩ | rfl
  · rw [hstale] at hl
    have hnil : l = [] := List.eq_nil_iff_forall_not_mem.2 fun r hr => List.not_mem_nil (hl r hr)
    rw [hnil]
    rfl
  · exact congrArg (World.mk _ · _) hagain

/-- A later attempt goes by the pair of the first one, or by one that leaves nothing to do. -/
theorem pairOf_later (hpartly : PartlySynced (consistentPair name theWork copy) start w)
    (hdata : SameData «namespace» name theWork copy start w work record) :
    w.pairOf «namespace» name work record = consistentPair name theWork copy ∨
      w = start.synced (consistentPair name theWork copy) ∧
        ∀ w', PartlySynced (w.pairOf «namespace» name work record) w w' → w' = w := by
  obtain ⟨hwork, hrecord | ⟨rfl, hrecord⟩⟩ := hdata
  · exact Or.inl (by rw [pairOf, hwork, hrecord])
  rw [pairOf, hwork, hrecord]
  rcases hpair : consistentPair name theWork (start.member.applied? name) with
    failure | _ | ⟨found, applied⟩ <;> rw [hpair] at hpartly
  · exact Or.inl (by rw [hpartly, hpair])
  · exact Or.inl (by rw [hpartly, hpair])
  rcases hpartly with ⟨l, -, rfl⟩ | rfl
  · -- a release leaves the record as it is
    have hsame : (start.releasedAll (applied.metadata.uid.getD "") l).member.applied? name =
        start.member.applied? name := Member.applied?_releasedAll name
    exact Or.inl (by rw [hsame, hpair])
  · obtain ⟨rfl, hbefore⟩ := consistentPair_eq_some hpair
    rw [hbefore] at hpair
    rcases pair_of_aligned hpair hbefore with hsame | hnothing
    · exact Or.inl hsame
    · exact Or.inr ⟨rfl, hnothing⟩

/-- What was released before an alignment makes no difference to it. -/
theorem ReleasedSome.aligned_eq {found : Work} {applied : AppliedWork}
    (h : ReleasedSome (applied.metadata.uid.getD "")
      (diff found.currentStatus.declared applied.resources).stale w w') :
    w'.aligned found applied = w.aligned found applied := by
  obtain ⟨l, hl, rfl⟩ := h
  exact congrArg (World.mk _ · _) (Member.aligned_releasedAll hl)

/-- What is synced stays as it is. -/
theorem PartlySynced.of_synced {pair : Except Failure (Option (Work × AppliedWork))}
    (h : PartlySynced pair (w.synced pair) w') : w' = w.synced pair := by
  rcases pair with failure | _ | ⟨found, applied⟩
  · exact h
  · exact h
  rcases h with ⟨l, hl, rfl⟩ | rfl
  · exact congrArg (World.mk _ · _) (Member.releasedAll_aligned hl)
  · exact congrArg (World.mk _ · _) Member.aligned_idem

/-- What is synced in part stays so under further attempts. -/
theorem PartlySynced.trans (hpartly : PartlySynced pair w w') {w'' : World}
    (h : PartlySynced pair w' w'') : PartlySynced pair w w'' := by
  rcases pair with failure | _ | ⟨found, applied⟩
  · exact Eq.trans h hpartly
  · exact Eq.trans h hpartly
  rcases hpartly with hreleased | rfl
  · rcases h with h | rfl
    · exact Or.inl (hreleased.trans h)
    · exact Or.inr hreleased.aligned_eq
  · have hkept : w'' = w.aligned found applied := PartlySynced.of_synced h
    exact Or.inr hkept

/-- What is synced in part is completed to what one sync leaves. -/
theorem PartlySynced.synced_eq (hpartly : PartlySynced pair w w') :
    w'.synced pair = w.synced pair := by
  rcases pair with failure | _ | ⟨found, applied⟩
  · exact hpartly
  · exact hpartly
  rcases hpartly with hreleased | rfl
  · exact hreleased.aligned_eq
  · exact congrArg (World.mk _ · _) Member.aligned_idem

/-- An attempt after others leaves no more than one sync does. -/
theorem PartlySynced.attempt (hplaced : start.member.Placed)
    (hpartly : PartlySynced (consistentPair name theWork copy) start w)
    (hdata : SameData «namespace» name theWork copy start w work record) (fates : List Fate) :
    PartlySynced (consistentPair name theWork copy) start
      (w.attempt fates (sync «namespace» name work record).run).2.1 := by
  have hleft := partlySynced_attempt «namespace» name work record (hpartly.placed hplaced) fates
  rcases pairOf_later hpartly hdata with hpair | ⟨-, hnothing⟩
  · rw [hpair] at hleft
    exact hpartly.trans hleft
  · rw [hnothing _ hleft]
    exact hpartly

theorem Replay.partlySynced (hplaced : start.member.Placed)
    (h : Replay «namespace» name theWork copy start w) :
    PartlySynced (consistentPair name theWork copy) start w := by
  induction h with
  | start => exact partlySynced_self
  | attempt _ hdata fates ih => exact ih.attempt hplaced hdata fates

/-- An undisturbed sync after any attempts leaves what one sync leaves. -/
theorem PartlySynced.run_sync (hplaced : start.member.Placed)
    (hhealthy : start.member.failingDeletes = [])
    (hpartly : PartlySynced (consistentPair name theWork copy) start w)
    (hdata : SameData «namespace» name theWork copy start w work record) :
    (w.run (sync «namespace» name work record).run).2 =
      start.synced (consistentPair name theWork copy) := by
  have hfree : w.Unblocked (w.pairOf «namespace» name work record) :=
    unblocked_of_healthy (hpartly.failingDeletes.trans hhealthy)
  rw [World.run_sync (hpartly.placed hplaced) hfree]
  rcases pairOf_later hpartly hdata with hpair | ⟨hdone, hnothing⟩
  · rw [hpair, hpartly.synced_eq]
  · rw [hnothing _ partlySynced_synced, hdone]

/-- Where objects stand under their own names and no deletions are set to fail: an undisturbed sync
after any attempts, with any failures and ends, leaves exactly what one undisturbed sync would have
left from the start, and no attempt after it changes anything. -/
theorem replayed_sync_confluent (hplaced : start.member.Placed)
    (hhealthy : start.member.failingDeletes = [])
    (hreplay : Replay «namespace» name theWork copy start w)
    (hdata : SameData «namespace» name theWork copy start w work record) {work₀ : Option Work}
    {record₀ : Option AppliedWork}
    (hdata₀ : SameData «namespace» name theWork copy start start work₀ record₀) :
    let final := (w.run (sync «namespace» name work record).run).2
    final = (start.run (sync «namespace» name work₀ record₀).run).2 ∧
      ∀ work' record', SameData «namespace» name theWork copy start final work' record' →
        ∀ fates, (final.attempt fates (sync «namespace» name work' record').run).2.1 = final := by
  intro final
  have hpartly := hreplay.partlySynced hplaced
  have hfinal : final = start.synced (consistentPair name theWork copy) :=
    hpartly.run_sync hplaced hhealthy hdata
  refine ⟨?_, fun work' record' hdata' fates => ?_⟩
  · rw [hfinal, PartlySynced.run_sync hplaced hhealthy partlySynced_self hdata₀]
  · -- the attempt leaves part of what a sync of the final world leaves, which is nothing new
    have hsynced : PartlySynced (consistentPair name theWork copy) start final :=
      hfinal ▸ partlySynced_synced
    have hleft := partlySynced_attempt «namespace» name work' record' (hsynced.placed hplaced) fates
    rcases pairOf_later hsynced hdata' with hpair | ⟨-, hnothing⟩
    · rw [hpair, hfinal] at hleft
      rw [hfinal]
      exact hleft.of_synced
    · exact hnothing _ hleft

theorem placed_leftover : leftover.member.Placed := by
  intro key o ho
  simp only [leftover, Member.object?_putApplied, Member.object?_put] at ho
  split at ho
  · next e => cases ho; exact e ▸ ⟨rfl, rfl⟩
  split at ho
  · next e => cases ho; exact e ▸ ⟨rfl, rfl⟩
  · cases ho

/-- What is left when one deletion goes through although it is reported as failed, and one withdrawal
is refused. -/
def afterFailures : World :=
  let failure := Failure.refused 500 "InternalError" "request timed out"
  (leftover.attempt
    [.answered, .answered, .answered, .lost failure, .answered, .refused failure]
    (sync "cluster1" "demo" none none).run).2.1

theorem leftover_replayed :
    (afterFailures.run (sync "cluster1" "demo" none none).run).1 = .ok () ∧
      (afterFailures.run (sync "cluster1" "demo" none none).run).2 =
        (leftover.run (sync "cluster1" "demo" none none).run).2 := by
  let theWork := leftover.hub.work? ⟨"cluster1", "demo"⟩
  let copy := leftover.member.applied? "demo"
  have hstart : SameData "cluster1" "demo" theWork copy leftover leftover none none :=
    ⟨rfl, Or.inl rfl⟩
  have hlater : SameData "cluster1" "demo" theWork copy leftover afterFailures none none :=
    ⟨rfl, Or.inl rfl⟩
  have hreplay : Replay "cluster1" "demo" theWork copy leftover afterFailures :=
    Replay.start.attempt hstart _
  exact ⟨rfl, (replayed_sync_confluent placed_leftover rfl hreplay hlater hstart).1⟩

end InMemory.World

end MemberAgent
