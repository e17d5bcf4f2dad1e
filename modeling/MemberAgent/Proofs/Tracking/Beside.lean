import MemberAgent.Proofs.InMemory.Interleaved
import MemberAgent.Proofs.Tracking.Replay

/-! Aligning a record beside others that align the same record. Others may have released some of the
entries, or they may be done; a release that goes through finds its object as it was or as the others
left it, so an alignment that goes through leaves what it leaves alone. -/

namespace MemberAgent

open InMemory Tracking

/-- The entries of a record that a Work does not declare any more. -/
abbrev Tracking.staleOf (work : Work) (applied : AppliedWork) : List TrackedResource :=
  (diff work.currentStatus.declared applied.resources).stale

namespace InMemory.Member

variable {owner : String} {m : Member} {r : TrackedResource} {l : List TrackedResource}

theorem object?_released_cases (owner : String) (m : Member) (r : TrackedResource) (key : ObjectKey) :
    (m.released owner r).object? key = m.object? key ∨
      (m.released owner r).object? key =
        (m.object? key).bind fun live => (afterRelease owner live).1 := by
  rw [object?_released]
  split
  · next e =>
      rw [← e, leftUnder]
      cases m.object? (.ofTracked r) with
      | none => exact Or.inl rfl
      | some live =>
          by_cases hreplaced : IsReplaced r live
          · exact Or.inl (congrArg Prod.fst (if_pos hreplaced))
          · exact Or.inr (congrArg Prod.fst (if_neg hreplaced))
  · exact Or.inl rfl

/-- However many releases there are, an object is as it was or as one of them leaves it. -/
theorem object?_releasedAll_cases (key : ObjectKey) :
    (m.releasedAll owner l).object? key = m.object? key ∨
      (m.releasedAll owner l).object? key =
        (m.object? key).bind fun live => (afterRelease owner live).1 := by
  induction l generalizing m with
  | nil => exact Or.inl rfl
  | cons r rest ih =>
      have hrest := ih (m := m.released owner r)
      rcases object?_released_cases owner m r key with h | h <;> rw [h] at hrest
      · exact hrest
      · -- what one release leaves is left alone by another one
        refine Or.inr (hrest.elim id fun hagain => hagain.trans ?_)
        cases m.object? key with
        | none => rfl
        | some live =>
            rw [Option.bind_some]
            rcases hleft : afterRelease owner live with ⟨_ | left, n⟩
            · rfl
            · show (afterRelease owner left).1 = some left
              rw [afterRelease_left hleft]

theorem releasedAll_eq_self (h : ∀ r ∈ l, m.released owner r = m) : m.releasedAll owner l = m := by
  induction l with
  | nil => rfl
  | cons r rest ih =>
      show (m.released owner r).releasedAll owner rest = m
      rw [h r List.mem_cons_self]
      exact ih fun r' hr' => h r' (List.mem_cons_of_mem _ hr')

end InMemory.Member

namespace InMemory.World

variable {w w' start : World} {r : TrackedResource} {l : List TrackedResource} {work : Work}
  {applied : AppliedWork} {pair : Except Failure (Option (Work × AppliedWork))}

instance : IsPreorder World (PartlySynced pair) where
  refl _ := partlySynced_self
  trans _ _ _ h h' := PartlySynced.trans h h'

/-- What alignments of a record for a Work may leave, each of which is done or not. -/
abbrev PartlyAligned (work : Work) (applied : AppliedWork) : World → World → Prop :=
  PartlySynced (.ok (some (work, applied)))

namespace PartlyAligned

theorem leftSince (h : PartlyAligned work applied w w') (r : TrackedResource) :
    LeftSince (applied.metadata.uid.getD "") r w w' := by
  rcases h with ⟨l, -, rfl⟩ | rfl
  · exact Member.object?_releasedAll_cases _
  · rw [LeftSince, aligned, Member.aligned, Member.object?_committed]
    exact Member.object?_releasedAll_cases _

/-- What is released stays so. -/
theorem released_eq_self (h : PartlyAligned work applied w w')
    (hr : r ∈ staleOf work applied) (hkept : w.released (applied.metadata.uid.getD "") r = w) :
    w'.released (applied.metadata.uid.getD "") r = w' := by
  rcases h with ⟨l, -, rfl⟩ | rfl
  · have hmember : w.member.released (applied.metadata.uid.getD "") r = w.member :=
      congrArg World.member hkept
    refine congrArg (World.mk _ · _) ?_
    show (w.member.releasedAll _ l).released _ r = w.member.releasedAll _ l
    rw [← Member.releasedAll_released, hmember]
  · have hone : ∀ r' ∈ [r], r' ∈ staleOf work applied := by
      intro r' hr'
      rw [List.mem_singleton.1 hr']
      exact hr
    exact congrArg (World.mk _ · _) (Member.releasedAll_aligned hone)

end PartlyAligned

/-- Beside other alignments, a release that goes through has released its entry. -/
theorem succeeds_release (hplaced : w.member.Placed) (hr : r ∈ staleOf work applied) :
    Succeeds (PartlyAligned work applied) w (release (applied.metadata.uid.getD "") r)
      fun _ w' => w'.released (applied.metadata.uid.getD "") r = w' := by
  obtain ⟨goOn, hrelease, hgoOn⟩ := release_eq (applied.metadata.uid.getD "") r
  rw [hrelease]
  refine Succeeds.request_read (fun v => answer_getTracked v r) fun v hv => ?_
  have hplaced' : v.member.Placed := PartlySynced.placed hv hplaced
  have hrest := hgoOn v hplaced'
  generalize goOn (v.member.object? (.ofTracked r)) = rest at hrest
  cases hrest with
  | nothing outcome hkept =>
      exact Succeeds.pure fun v' hv' => PartlyAligned.released_eq_self hv' hr hkept
  | call c f hlater _ =>
      refine Succeeds.request_andThen fun v' hv' => ?_
      have hplaced'' : v'.member.Placed := PartlySynced.placed hv' hplaced'
      rcases hlater v' hplaced'' (PartlyAligned.leftSince hv' r) with ⟨value, h⟩ | ⟨failure, h⟩ <;>
        rw [h]
      · refine ⟨Or.inl ⟨[r], ?_, rfl⟩, fun _ _ => Succeeds.pure fun v'' hv'' => ?_⟩
        · intro r' hr'
          rw [List.mem_singleton.1 hr']
          exact hr
        · refine PartlyAligned.released_eq_self hv'' hr ?_
          exact congrArg (World.mk _ · _) Member.released_idem
      · exact ⟨partlySynced_self, fun _ he => by cases he⟩

theorem beside_releaseEach (hplaced : w.member.Placed) (hl : ∀ r ∈ l, r ∈ staleOf work applied) :
    Beside (PartlyAligned work applied) w (releaseEach (applied.metadata.uid.getD "") l)
      fun failures w' => failures = [] →
        ∀ r ∈ l, w'.released (applied.metadata.uid.getD "") r = w' := by
  induction l generalizing w with
  | nil =>
      rintro w' - - r ⟨⟩
  | cons r rest ih =>
      refine Beside.bind (succeeds_release hplaced (hl r List.mem_cons_self))
        fun result w₁ h₁ hresult => ?_
      have hrest := ih (PartlySynced.placed h₁ hplaced) fun r' hr' =>
        hl r' (List.mem_cons_of_mem _ hr')
      refine Beside.bind hrest fun failures w₂ h₂ hfailures => ?_
      cases result with
      | error failure => rintro w₃ - ⟨⟩
      | ok outcome =>
          intro w₃ h₃ hnone r' hr'
          refine PartlyAligned.released_eq_self h₃ (hl r' hr') ?_
          rcases List.mem_cons.1 hr' with rfl | hr'
          · exact PartlyAligned.released_eq_self h₂ (hl r' hr') (hresult outcome rfl)
          · exact hfailures hnone r' hr'

/-- What is left when all stale entries are released. -/
abbrev staleReleased (work : Work) (applied : AppliedWork) (w : World) : World :=
  w.releasedAll (applied.metadata.uid.getD "") (staleOf work applied)

/-- Whether all stale entries are released, by an alignment that is done or not. -/
def Drained (work : Work) (applied : AppliedWork) (start w : World) : Prop :=
  w = start.staleReleased work applied ∨ w = start.aligned work applied

namespace Drained

theorem of_released (h : PartlyAligned work applied start w)
    (hreleased : ∀ r ∈ staleOf work applied, w.released (applied.metadata.uid.getD "") r = w) :
    Drained work applied start w := by
  rcases h with ⟨l, hl, rfl⟩ | rfl
  · refine Or.inl (congrArg (World.mk _ · _) ?_)
    rw [← Member.releasedAll_absorbs_all hl]
    exact (Member.releasedAll_eq_self fun r hr => congrArg World.member (hreleased r hr)).symm
  · exact Or.inr rfl

theorem partlyAligned (h : Drained work applied start w) : PartlyAligned work applied start w := by
  rcases h with rfl | rfl
  · exact Or.inl releasedSome_all
  · exact Or.inr rfl

theorem later (h : Drained work applied start w) (hlater : PartlyAligned work applied w w') :
    Drained work applied start w' := by
  rcases h with rfl | rfl
  · rcases hlater with ⟨l, hl, rfl⟩ | rfl
    · exact Or.inl (congrArg (World.mk _ · _) (Member.releasedAll_absorbed hl))
    · exact Or.inr releasedSome_all.aligned_eq
  · exact Or.inr (PartlySynced.of_synced hlater)

/-- The objects are those that are left when all stale entries are released. -/
theorem refreshed_eq (h : Drained work applied start w) (l : List TrackedResource) :
    w.member.refreshed l = (start.staleReleased work applied).member.refreshed l := by
  rcases h with rfl | rfl
  · rfl
  · exact Member.refreshed_committed

end Drained

theorem succeeds_releaseAll (hplaced : w.member.Placed) :
    Succeeds (PartlyAligned work applied) w
      (releaseAll (applied.metadata.uid.getD "") (staleOf work applied))
      fun _ w' => Drained work applied w w' := by
  have heach := beside_releaseEach (l := staleOf work applied) hplaced fun _ hr => hr
  refine Succeeds.lift_andThen heach fun failures w' h hall => ?_
  cases failures with
  | nil =>
      refine Succeeds.pure fun w'' h'' => Drained.later ?_ h''
      exact Drained.of_released h (hall rfl)
  | cons => exact Succeeds.fail _

theorem succeeds_refreshUids (hdrained : Drained work applied start w) (l : List TrackedResource) :
    Succeeds (PartlyAligned work applied) w (refreshUids l)
      fun resources _ => resources = (start.staleReleased work applied).member.refreshed l := by
  induction l generalizing w with
  | nil => exact Succeeds.pure fun _ _ => rfl
  | cons r rest ih =>
      refine Succeeds.request_read (fun v => answer_getTracked v r) fun v hv => ?_
      have hdrained' := hdrained.later hv
      refine Succeeds.andThen (ih hdrained') fun resources v' _ hresources => ?_
      refine Succeeds.pure fun _ _ => ?_
      rw [hresources, ← hdrained'.refreshed_eq, ← hdrained'.refreshed_eq]
      rfl

/-- The record is written by one of the alignments, and the other one finds it written. -/
theorem succeeds_commit (hdrained : Drained work applied start w) {resources : List TrackedResource}
    (haligned : (start.staleReleased work applied).committed applied resources =
      start.aligned work applied) :
    Succeeds (PartlyAligned work applied) w (commit applied resources)
      fun _ w' => w' = start.aligned work applied := by
  have hcommitted : ∀ v, Drained work applied start v →
      v.committed applied resources = start.aligned work applied := by
    rintro v (rfl | rfl)
    · exact haligned
    · rw [← haligned]
      exact congrArg (World.mk _ · _) Member.committed_idem
  unfold commit
  split
  · next hne =>
      refine Succeeds.request fun v hv => ?_
      have hdrained' := hdrained.later hv
      rcases answer_updateResources_of_ne (w := v) hne with h | ⟨failure, h, -⟩ <;> rw [h]
      · rw [hcommitted v hdrained']
        have hend : v.aligned work applied = start.aligned work applied :=
          PartlySynced.synced_eq hdrained'.partlyAligned
        exact ⟨Or.inr hend.symm, fun _ _ w' hw' => PartlySynced.of_synced hw'⟩
      · exact ⟨partlySynced_self, fun _ he => by cases he⟩
  · next he =>
      refine Succeeds.pure fun v hv => ?_
      rw [← hcommitted v (hdrained.later hv), committed, Member.committed,
        if_pos (Decidable.not_not.1 he)]

/-- Beside other alignments of the same record, one that goes through leaves what it leaves alone. -/
theorem succeeds_align (hplaced : w.member.Placed) :
    Succeeds (PartlyAligned work applied) w (align work applied)
      fun _ w' => w' = w.aligned work applied := by
  refine Succeeds.andThen (succeeds_releaseAll hplaced) fun _ w₁ _ hdrained => ?_
  refine Succeeds.andThen (succeeds_refreshUids hdrained _) fun resources w₂ h₂ hresources => ?_
  rw [hresources]
  exact succeeds_commit (hdrained.later h₂) rfl

end InMemory.World

end MemberAgent
