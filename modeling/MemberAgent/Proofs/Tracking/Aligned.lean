import MemberAgent.Proofs.Tracking.Releasing

/-! What aligning a record does to a member cluster. An attempt that ends early has released some of
the stale entries; one that goes through has released all of them and brought the record up to date,
and so has one that releases of them what others have left. -/

namespace MemberAgent

open InMemory

namespace InMemory.Member

variable {m : Member}

/-- The entries with the uids of their live objects. -/
def refreshed (m : Member) (l : List TrackedResource) : List TrackedResource :=
  l.map fun r => { r with uid := (m.object? (.ofTracked r)).bind fun o => o.metadata.uid }

theorem mem_refreshed {l : List TrackedResource} {r : TrackedResource} (hr : r ∈ l) :
    { r with uid := (m.object? (.ofTracked r)).bind fun o => o.metadata.uid } ∈ m.refreshed l :=
  List.mem_map.2 ⟨r, hr, rfl⟩

/-- The record brought up to date, where it is still the one that was seen. -/
def committed (m : Member) (applied : AppliedWork) (resources : List TrackedResource) : Member :=
  if resources = applied.resources then m
  else match m.updateResources applied resources with
    | .ok m' => m'
    | .error _ => m

/-- What aligning leaves. -/
def aligned (work : Work) (applied : AppliedWork) (m : Member) : Member :=
  let d := Tracking.diff work.currentStatus.declared applied.resources
  let m := m.releasedAll (applied.metadata.uid.getD "") d.stale
  m.committed applied (m.refreshed d.retainedOrNew)

end InMemory.Member

namespace InMemory.World

open Tracking

variable {possible : Fate → Prop} {w : World} {owner : String}

def aligned (work : Work) (applied : AppliedWork) (w : World) : World :=
  { w with member := w.member.aligned work applied }

theorem releasedAll_cons (r : TrackedResource) (l : List TrackedResource) :
    w.releasedAll owner (r :: l) = (w.released owner r).releasedAll owner l := rfl

/-- Whether some entries of a list have been released. -/
def ReleasedSome (owner : String) (stale : List TrackedResource) (w w' : World) : Prop :=
  ∃ l, (∀ r ∈ l, r ∈ stale) ∧ w' = w.releasedAll owner l

theorem releasedSome_nil {stale : List TrackedResource} : ReleasedSome owner stale w w :=
  ⟨[], by rintro r ⟨⟩, rfl⟩

theorem releasedSome_all {stale : List TrackedResource} :
    ReleasedSome owner stale w (w.releasedAll owner stale) := ⟨stale, fun _ hr => hr, rfl⟩

theorem ReleasedSome.trans {stale : List TrackedResource} {w' w'' : World}
    (h : ReleasedSome owner stale w w') (h' : ReleasedSome owner stale w' w'') :
    ReleasedSome owner stale w w'' := by
  obtain ⟨l, hl, rfl⟩ := h
  obtain ⟨l', hl', rfl⟩ := h'
  refine ⟨l ++ l', fun r hr => (List.mem_append.1 hr).elim (hl r) (hl' r), ?_⟩
  simp only [releasedAll, Member.releasedAll, List.foldl_append]

/-- What is released of the rest, when the first entry has been tried. -/
theorem ReleasedSome.cons {r : TrackedResource} {rest : List TrackedResource} {w' w'' : World}
    (hfirst : w' = w ∨ w' = w.released owner r) (h : ReleasedSome owner rest w' w'') :
    ReleasedSome owner (r :: rest) w w'' := by
  obtain ⟨l, hl, rfl⟩ := h
  have htail : ∀ r' ∈ l, r' ∈ r :: rest := by
    intro r' hr'
    exact List.mem_cons_of_mem _ (hl r' hr')
  rcases hfirst with rfl | rfl
  · exact ⟨l, htail, rfl⟩
  · refine ⟨r :: l, fun r' hr' => ?_, rfl⟩
    rcases List.mem_cons.1 hr' with rfl | hr'
    · exact List.mem_cons_self
    · exact htail r' hr'

/-- Attempts to release entries release some of them, and all if none fails. -/
theorem releaseEach_reaches {stale : List TrackedResource} (hplaced : w.member.Placed) :
    Reaches possible w (releaseEach owner stale) fun result w' =>
      ReleasedSome owner stale w w' ∧
        ∀ failures, result = some failures → failures = [] → w' = w.releasedAll owner stale := by
  induction stale generalizing w with
  | nil => exact Reaches.done ⟨releasedSome_nil, fun _ _ _ => rfl⟩
  | cons r rest ih =>
      refine Reaches.bind (release_ends owner r hplaced)
        (fun w' h => ⟨releasedSome_nil.cons h.1, fun _ he => by cases he⟩) fun result w' hfirst => ?_
      have hplaced' : w'.member.Placed := by
        rcases hfirst.1 with rfl | rfl
        · exact hplaced
        · exact hplaced.released
      refine Reaches.bind (ih hplaced')
        (fun w'' h => ⟨h.1.cons hfirst.1, fun _ he => by cases he⟩) fun failures w'' hrest => ?_
      cases result with
      | error failure =>
          refine Reaches.done ⟨hrest.1.cons hfirst.1, fun _ he hnone => ?_⟩
          cases he
          cases hnone
      | ok outcome =>
          refine Reaches.done ⟨hrest.1.cons hfirst.1, fun _ he hnone => ?_⟩
          cases he
          rw [hrest.2 failures rfl hnone, hfirst.2 outcome rfl, releasedAll_cons]

theorem releaseAll_ends {stale : List TrackedResource} (hplaced : w.member.Placed) :
    Ends possible w (releaseAll owner stale) (ReleasedSome owner stale w)
      fun _ w' => w' = w.releasedAll owner stale := by
  refine Ends.andThen (Ends.lift (releaseEach_reaches hplaced)) (fun _ h => h) ?_
  intro failures w' h hall
  cases failures with
  | nil => exact Ends.pure h (hall rfl)
  | cons => exact Ends.throw h

/-- Undisturbed, all entries are released, unless deleting is set to fail. -/
theorem run_releaseEach (owner : String) (stale : List TrackedResource)
    (hplaced : w.member.Placed) (hfree : ∀ r ∈ stale, ¬Blocked owner w r) :
    w.run (releaseEach owner stale) = ([], w.releasedAll owner stale) := by
  induction stale generalizing w with
  | nil => rfl
  | cons r rest ih =>
      obtain ⟨outcome, hrelease⟩ := run_release owner r hplaced (hfree r List.mem_cons_self)
      have hfree' : ∀ r' ∈ rest, ¬Blocked owner (w.released owner r) r' := by
        intro r' hr' hblocked
        exact hfree r' (List.mem_cons_of_mem _ hr') hblocked.of_released
      have hattempt : w.run (MemberAgent.attempt (release owner r)) =
          (.ok outcome, w.released owner r) := hrelease
      rw [releaseEach, run_bind, hattempt]
      dsimp only
      rw [run_bind, ih hplaced.released hfree']
      rfl

theorem run_releaseAll (owner : String) (stale : List TrackedResource)
    (hplaced : w.member.Placed) (hfree : ∀ r ∈ stale, ¬Blocked owner w r) :
    w.run (releaseAll owner stale).run = (.ok (), w.releasedAll owner stale) := by
  have hlift : w.run (ExceptT.lift (releaseEach owner stale) : Reconcile _).run =
      (.ok [], w.releasedAll owner stale) := by
    rw [run_lift, run_releaseEach owner stale hplaced hfree]
  rw [releaseAll, run_andThen hlift]
  rfl

/-- Looking at entries changes nothing, and it finds what there is. -/
theorem refreshUids_ends (l : List TrackedResource) : Ends possible w (refreshUids l)
    (fun w' => w' = w) fun resources _ => resources = w.member.refreshed l := by
  induction l with
  | nil => exact Ends.pure rfl rfl
  | cons r rest ih =>
      refine Ends.andThen (Ends.request_read (answer_getTracked w r)) (fun _ h => h) ?_
      rintro _ _ rfl rfl
      refine Ends.andThen ih (fun _ h => h) ?_
      rintro _ _ rfl rfl
      exact Ends.pure rfl rfl

theorem run_refreshUids (w : World) (l : List TrackedResource) :
    w.run (refreshUids l).run = (.ok (w.member.refreshed l), w) := by
  induction l with
  | nil => rfl
  | cons r rest ih =>
      rw [refreshUids, run_request_andThen (answer_getTracked w r), run_andThen ih]
      rfl

/-- The last step of aligning is the write of the record, where it is needed. -/
def commit (applied : AppliedWork) (resources : List TrackedResource) : Reconcile Unit :=
  if resources ≠ applied.resources then request (.updateResources applied resources) else pure ()

def committed (w : World) (applied : AppliedWork) (resources : List TrackedResource) : World :=
  { w with member := w.member.committed applied resources }

variable {work : Work} {applied : AppliedWork} {resources : List TrackedResource}

/-- Committing either succeeds, or it fails and changes nothing. -/
theorem answer_updateResources_of_ne (hne : resources ≠ applied.resources) :
    w.answer (.updateResources applied resources) = (.ok (), w.committed applied resources) ∨
      ∃ failure, w.answer (.updateResources applied resources) = (.error failure, w) ∧
        w.committed applied resources = w := by
  rw [committed, Member.committed, if_neg hne]
  cases hupdate : w.member.updateResources applied resources with
  | ok m =>
      refine Or.inl (answer_of_perform ?_)
      rw [perform, hupdate]
      rfl
  | error failure =>
      refine Or.inr ⟨failure, answer_of_perform_error ?_, rfl⟩
      rw [perform, hupdate]
      rfl

theorem commit_ends : Ends possible w (commit applied resources)
    (fun w' => w' = w ∨ w' = w.committed applied resources)
    fun _ w' => w' = w.committed applied resources := by
  unfold commit
  split
  · next hne =>
      rcases answer_updateResources_of_ne (w := w) hne with hanswer | ⟨failure, hanswer, -⟩
      · exact (Ends.request_of_answer hanswer).mono (fun _ h => h) fun _ _ _ h => h.2
      · exact (Ends.request_of_error hanswer).mono (fun _ => Or.inl) fun _ _ _ h => h.elim
  · next he =>
      refine Ends.pure (Or.inl rfl) ?_
      rw [committed, Member.committed, if_pos (Decidable.not_not.1 he)]

/-- Undisturbed, the record is committed, or it was another one than was seen. -/
theorem run_commit (w : World) (applied : AppliedWork) (resources : List TrackedResource) :
    (w.run (commit applied resources).run).2 = w.committed applied resources := by
  unfold commit
  split
  · next hne =>
      show (w.answer (.updateResources applied resources)).2 = _
      rcases answer_updateResources_of_ne (w := w) hne with hanswer | ⟨failure, hanswer, hkept⟩
      · rw [hanswer]
      · rw [hanswer, hkept]
  · next he =>
      rw [committed, Member.committed, if_pos (Decidable.not_not.1 he)]
      rfl

/-- An attempt to align releases some of the stale entries, or it aligns; and it aligns if it
succeeds. -/
theorem align_ends (hplaced : w.member.Placed) : Ends possible w (align work applied)
    (fun w' => ReleasedSome (applied.metadata.uid.getD "")
        (diff work.currentStatus.declared applied.resources).stale w w' ∨ w' = w.aligned work applied)
      fun _ w' => w' = w.aligned work applied := by
  refine Ends.andThen (releaseAll_ends hplaced) (fun _ => Or.inl) ?_
  rintro _ _ - rfl
  refine Ends.andThen (refreshUids_ends _) (fun _ h => Or.inl (h ▸ releasedSome_all)) ?_
  rintro _ _ rfl rfl
  refine commit_ends.mono (fun w' h => ?_) fun _ _ _ h => h
  rcases h with rfl | rfl
  · exact Or.inl releasedSome_all
  · exact Or.inr rfl

theorem run_align (hplaced : w.member.Placed)
    (hfree : ∀ r ∈ (diff work.currentStatus.declared applied.resources).stale,
      ¬Blocked (applied.metadata.uid.getD "") w r) :
    (w.run (align work applied).run).2 = w.aligned work applied := by
  rw [align]
  rw [run_andThen (run_releaseAll _ _ hplaced hfree), run_andThen (run_refreshUids _ _)]
  exact run_commit _ _ _

end InMemory.World

end MemberAgent
