import MemberAgent.Proofs.Tracking.Aligned
import MemberAgent.Proofs.Tracking.Difference

/-! Aligning a record again. Releases and the write of the record do not get in each other's way, so
what was released before an alignment makes no difference to it; and after it nothing changes, whether
the copy of the record is the one from before or the one that has been written. -/

namespace MemberAgent

open InMemory Tracking

namespace InMemory.Member

variable {m : Member} {applied : AppliedWork} {resources : List TrackedResource} {owner : String}
  {r : TrackedResource} {l : List TrackedResource} {work : Work}

/-- Committing writes the record that was seen, or it does nothing. -/
theorem committed_cases (m : Member) (applied : AppliedWork) (resources : List TrackedResource) :
    m.committed applied resources = m ∨ ∃ stored, m.applied? applied.name = some stored ∧
      stored.metadata.resourceVersion = applied.metadata.resourceVersion ∧
      m.committed applied resources = m.putApplied applied.name
        { stored with
          status := some { appliedResources := resources }
          metadata := bumped stored.metadata } := by
  unfold committed
  split
  · exact Or.inl rfl
  cases hupdate : m.updateResources applied resources with
  | error failure => exact Or.inl rfl
  | ok m' =>
      obtain ⟨stored, hstored, hversion, rfl⟩ := updateResources_eq_ok_iff.1 hupdate
      exact Or.inr ⟨stored, hstored, hversion, rfl⟩

/-- A record that is committed holds the entries, and is the same record. -/
theorem record_committed (hthere : m.applied? applied.name = some applied)
    (resources : List TrackedResource) :
    ∃ applied', (m.committed applied resources).applied? applied.name = some applied' ∧
      applied'.resources = resources ∧ applied'.name = applied.name ∧
      applied'.metadata.uid = applied.metadata.uid ∧ applied'.isDeleting = applied.isDeleting := by
  by_cases hsame : resources = applied.resources
  · rw [committed, if_pos hsame]
    exact ⟨applied, hthere, hsame.symm, rfl, rfl, rfl⟩
  · have hupdate : m.updateResources applied resources = .ok _ :=
      updateResources_eq_ok_iff.2 ⟨applied, hthere, rfl, rfl⟩
    rw [committed, if_neg hsame, hupdate]
    exact ⟨_, (applied?_putApplied _ _ _ _).trans (if_pos rfl), rfl, rfl, rfl, rfl⟩

@[simp] theorem object?_committed (key : ObjectKey) :
    (m.committed applied resources).object? key = m.object? key := by
  rcases committed_cases m applied resources with h | ⟨stored, -, -, h⟩ <;> rw [h]
  rfl

@[simp] theorem failingDeletes_committed :
    (m.committed applied resources).failingDeletes = m.failingDeletes := by
  rcases committed_cases m applied resources with h | ⟨stored, -, -, h⟩ <;> rw [h]
  rfl

/-- A write of a record leaves it the record of its Work. -/
theorem spec_committed (name : String) :
    ((m.committed applied resources).applied? name).map AppliedWork.spec =
      (m.applied? name).map AppliedWork.spec := by
  rcases committed_cases m applied resources with h | ⟨stored, hstored, -, h⟩ <;> rw [h]
  rw [applied?_putApplied]
  split
  · next e =>
      rw [← e, hstored]
      rfl
  · rfl

theorem Placed.committed (hm : m.Placed) : (m.committed applied resources).Placed := by
  intro key o ho
  rw [object?_committed] at ho
  exact hm key o ho

/-- A record is written once: the second write finds another version. -/
theorem committed_idem : (m.committed applied resources).committed applied resources =
    m.committed applied resources := by
  rcases committed_cases m applied resources with h | ⟨stored, hstored, hversion, h⟩
  · rw [h, h]
  · rcases committed_cases (m.committed applied resources) applied resources with h' |
        ⟨stored', hstored', hversion', -⟩
    · exact h'
    · rw [h, applied?_putApplied, if_pos rfl] at hstored'
      cases hstored'
      rw [← hversion] at hversion'
      exact absurd hversion' (nextVersion_ne _)

theorem released_putApplied (name : String) (a : AppliedWork) :
    (m.putApplied name a).released owner r = (m.released owner r).putApplied name a := by
  have hleft : (m.putApplied name a).leftUnder owner r = m.leftUnder owner r := rfl
  rw [released, hleft, released]
  cases (m.leftUnder owner r).1 <;> rfl

theorem committed_released : (m.released owner r).committed applied resources =
    (m.committed applied resources).released owner r := by
  have happlied : ∀ name, (m.released owner r).applied? name = m.applied? name := by
    intro name
    rw [applied?, applied_released]
    rfl
  unfold committed
  split
  · rfl
  simp only [updateResources, happlied]
  cases m.applied? applied.name with
  | none => rfl
  | some stored =>
      by_cases hversion : stored.metadata.resourceVersion = applied.metadata.resourceVersion
      · simp only [hversion, ne_eq, not_true_eq_false, if_false]
        exact (released_putApplied _ _).symm
      · simp only [ne_eq, hversion, not_false_eq_true, if_true]

theorem releasedAll_committed : (m.committed applied resources).releasedAll owner l =
    (m.releasedAll owner l).committed applied resources := by
  induction l generalizing m with
  | nil => rfl
  | cons r rest ih =>
      show ((m.committed applied resources).released owner r).releasedAll owner rest = _
      rw [← committed_released, ih]
      rfl

@[simp] theorem refreshed_committed :
    (m.committed applied resources).refreshed l = m.refreshed l := by
  simp only [refreshed, object?_committed]

theorem key_refreshed : (m.refreshed l).map TrackedResource.key = l.map TrackedResource.key := by
  rw [refreshed, List.map_map]
  rfl

theorem refreshed_refreshed : m.refreshed (m.refreshed l) = m.refreshed l := by
  rw [refreshed, refreshed, List.map_map]
  rfl

/-- What was released before an alignment makes no difference to it. -/
theorem aligned_releasedAll
    (hl : ∀ r ∈ l, r ∈ (diff work.currentStatus.declared applied.resources).stale) :
    (m.releasedAll (applied.metadata.uid.getD "") l).aligned work applied =
      m.aligned work applied := by
  simp only [aligned, releasedAll_absorbs_all hl]

/-- After an alignment there is nothing left to release. -/
theorem releasedAll_aligned
    (hl : ∀ r ∈ l, r ∈ (diff work.currentStatus.declared applied.resources).stale) :
    (m.aligned work applied).releasedAll (applied.metadata.uid.getD "") l =
      m.aligned work applied := by
  simp only [aligned, releasedAll_committed, releasedAll_absorbed hl]

/-- Aligning again from the same copy of the record changes nothing. -/
theorem aligned_idem : (m.aligned work applied).aligned work applied = m.aligned work applied := by
  have hreleased : (m.aligned work applied).releasedAll (applied.metadata.uid.getD "")
      (diff work.currentStatus.declared applied.resources).stale = m.aligned work applied :=
    releasedAll_aligned fun _ hr => hr
  rw [aligned, hreleased]
  simp only [aligned, refreshed_committed, committed_idem]

/-- A record that holds what it should is left alone. -/
theorem aligned_eq_self
    (hdiff : diff work.currentStatus.declared applied.resources = ⟨applied.resources, []⟩)
    (hkept : m.refreshed applied.resources = applied.resources) : m.aligned work applied = m := by
  rw [aligned, hdiff]
  show m.committed applied (m.refreshed applied.resources) = m
  rw [hkept]
  exact if_pos rfl

/-- Aligning again from the copy that has been written changes nothing, and there is nothing to
release then. -/
theorem aligned_again {name : String} (hbefore : m.applied? name = some applied) :
    ∃ a, (m.aligned work applied).applied? name = some a ∧
      (a = applied ∨ a.isDeleting = applied.isDeleting ∧
        (diff work.currentStatus.declared a.resources).stale = [] ∧
        (m.aligned work applied).aligned work a = m.aligned work applied) := by
  generalize hd : diff work.currentStatus.declared applied.resources = d
  generalize hreleased : m.releasedAll (applied.metadata.uid.getD "") d.stale = released
  have haligned : m.aligned work applied =
      released.committed applied (released.refreshed d.retainedOrNew) := by
    simp only [aligned, hd, hreleased]
  have hthere : released.applied? name = some applied := by
    rw [← hreleased, applied?_releasedAll]
    exact hbefore
  rcases committed_cases released applied (released.refreshed d.retainedOrNew) with
    h | ⟨stored, hstored, -, h⟩
  · exact ⟨applied, by rw [haligned, h, hthere], Or.inl rfl⟩
  by_cases hname : applied.name = name
  · rw [hname, hthere] at hstored
    cases hstored
    generalize hresources : released.refreshed d.retainedOrNew = resources at haligned h
    refine ⟨{ applied with
        status := some { appliedResources := resources }
        metadata := bumped applied.metadata }, ?_, Or.inr ⟨rfl, ?_⟩⟩
    · rw [haligned, h, applied?_putApplied, if_pos hname]
    -- the written record holds an entry for each declared resource, with the uids that are there
    have hdiff : diff work.currentStatus.declared resources = ⟨resources, []⟩ := by
      refine diff_of_key_eq ?_
      rw [← hresources, key_refreshed, ← hd, key_retainedOrNew]
    have hkept : (m.aligned work applied).refreshed resources = resources := by
      rw [haligned, refreshed_committed, ← hresources, refreshed_refreshed]
    exact ⟨congrArg Diff.stale hdiff, aligned_eq_self hdiff hkept⟩
  · refine ⟨applied, ?_, Or.inl rfl⟩
    rw [haligned, h, applied?_putApplied, if_neg hname, hthere]

end InMemory.Member

end MemberAgent
