import MemberAgent.Proofs.Tracking.Tracked

/-! Which owned objects a record accounts for: those that the status of the Work declares, and those
that an entry of the record means. A sync turns what is accounted for into entries, and it forgets
everything else. -/

namespace MemberAgent

open InMemory Tracking

/-- Whether an entry means the object under a key, rather than an earlier one of its name. -/
def TrackedResource.Means (r : TrackedResource) (key : ObjectKey) (o : ApiObject) : Prop :=
  ObjectKey.ofTracked r = key ∧ ¬IsReplaced r o

namespace InMemory.Member

variable {m : Member} {uid : String} {key : ObjectKey} {o : ApiObject} {r : TrackedResource}

/-- An object that is there, with an owner of this uid. -/
def Holds (m : Member) (uid : String) (key : ObjectKey) (o : ApiObject) : Prop :=
  m.object? key = some o ∧ o.IsOwnedBy uid

/-- What is left of an object that is released has another owner. -/
theorem not_isOwnedBy_of_afterRelease {live left : ApiObject}
    (h : (afterRelease uid live).1 = some left) : ¬left.IsOwnedBy uid := by
  rintro ⟨owner, howner, huid⟩
  unfold afterRelease at h
  split at h
  · cases h
  split at h
  · next hall =>
      cases h
      have hkept := List.length_filter_eq_length_iff.1 hall owner howner
      exact of_decide_eq_true hkept huid
  · cases h
    exact of_decide_eq_true (List.mem_filter.1 howner).2 huid

/-- Releasing an entry takes away the object that the entry means, and no other. -/
theorem holds_released_iff :
    (m.released uid r).Holds uid key o ↔ m.Holds uid key o ∧ ¬r.Means key o := by
  unfold Holds TrackedResource.Means
  rw [object?_released]
  by_cases hkey : ObjectKey.ofTracked r = key
  · rw [if_pos hkey, leftUnder, hkey]
    cases hlive : m.object? key with
    | none => simp
    | some live =>
        by_cases hreplaced : IsReplaced r live
        · have hleft : (remainder uid r live).1 = some live := by rw [remainder, if_pos hreplaced]
          dsimp only
          rw [hleft]
          constructor
          · rintro ⟨he, howned⟩
            cases he
            exact ⟨⟨rfl, howned⟩, fun h => h.2 hreplaced⟩
          · intro h
            exact h.1
        · have hleft : remainder uid r live = afterRelease uid live := if_neg hreplaced
          dsimp only
          rw [hleft]
          constructor
          · rintro ⟨he, howned⟩
            exact absurd howned (not_isOwnedBy_of_afterRelease he)
          · rintro ⟨⟨he, -⟩, hmeans⟩
            cases he
            exact absurd ⟨rfl, hreplaced⟩ hmeans
  · rw [if_neg hkey]
    constructor
    · intro h
      exact ⟨h, fun hmeans => hkey hmeans.1⟩
    · intro h
      exact h.1

theorem holds_releasedAll_iff {l : List TrackedResource} :
    (m.releasedAll uid l).Holds uid key o ↔ m.Holds uid key o ∧ ∀ r ∈ l, ¬r.Means key o := by
  induction l generalizing m with
  | nil =>
      constructor
      · intro h
        exact ⟨h, by rintro r ⟨⟩⟩
      · intro h
        exact h.1
  | cons r rest ih =>
      show ((m.released uid r).releasedAll uid rest).Holds uid key o ↔ _
      rw [ih, holds_released_iff, List.forall_mem_cons, and_assoc]

end InMemory.Member

namespace InMemory.World

variable {name : WorkName} {uid : String} {w w' : World} {work work' : Work}
  {applied applied' : AppliedWork}

/-- Every owned object is declared by the status of the Work, or an entry of the record means it. -/
def Covered (uid : String) (w : World) (work : Work) (applied : AppliedWork) : Prop :=
  ∀ key o, w.member.Holds uid key o → work.Declares key ∨ ∃ r ∈ applied.resources, r.Means key o

/-- An entry of the record means every owned object. -/
def AllTracked (uid : String) (w : World) (applied : AppliedWork) : Prop :=
  ∀ key o, w.member.Holds uid key o → ∃ r ∈ applied.resources, r.Means key o

theorem AllTracked.covered (h : AllTracked uid w applied) (work : Work) :
    Covered uid w work applied := by
  intro key o ho
  exact Or.inr (h key o ho)

/-- What applying writes is declared, so only what was owned before needs to be accounted for. -/
theorem LeavesDeclared.covered_iff (h : LeavesDeclared uid work' w w') :
    Covered uid w' work' applied ↔ Covered uid w work' applied := by
  constructor
  · intro hcovered key o ho
    by_cases hdeclares : work'.Declares key
    · exact Or.inl hdeclares
    · exact hcovered key o ⟨(h.elsewhere key hdeclares).trans ho.1, ho.2⟩
  · intro hcovered key o ho
    by_cases hdeclares : work'.Declares key
    · exact Or.inl hdeclares
    · exact hcovered key o ⟨(h.elsewhere key hdeclares).symm.trans ho.1, ho.2⟩

/-- Releasing entries makes no object owned. -/
theorem holds_of_releasedAll {l : List TrackedResource} {key : ObjectKey} {o : ApiObject}
    (h : (w.releasedAll uid l).member.Holds uid key o) : w.member.Holds uid key o :=
  (Member.holds_releasedAll_iff.1 h).1

/-- What is owned after aligning was owned before, and no stale entry means it. -/
theorem holds_of_aligned_iff (huid : applied.metadata.uid = some uid) {key : ObjectKey}
    {o : ApiObject} : (w.aligned work applied).member.Holds uid key o ↔ w.member.Holds uid key o ∧
      ∀ r ∈ (diff work.currentStatus.declared applied.resources).stale, ¬r.Means key o := by
  have howner : applied.metadata.uid.getD "" = uid := by rw [huid]; rfl
  rw [← Member.holds_releasedAll_iff, Member.Holds, Member.Holds, aligned, Member.aligned,
    Member.object?_committed, howner]

namespace Tracked

theorem holds_aligned_iff (h : Tracked name uid w work applied) {key : ObjectKey} {o : ApiObject} :
    (w.aligned work applied).member.Holds uid key o ↔ w.member.Holds uid key o ∧
      ∀ r ∈ (diff work.currentStatus.declared applied.resources).stale, ¬r.Means key o :=
  holds_of_aligned_iff h.recordUid

variable (hresources : applied'.resources = (w.aligned work applied).member.refreshed
  (diff work.currentStatus.declared applied.resources).retainedOrNew)

include hresources

/-- The entries of declared resources mean what is there. -/
theorem means_of_declares {key : ObjectKey} {o : ApiObject} (hdeclares : work.Declares key)
    (ho : (w.aligned work applied).member.object? key = some o) :
    ∃ r ∈ applied'.resources, r.Means key o := by
  obtain ⟨i, hi, rfl⟩ := hdeclares
  obtain ⟨r, hr, hkey⟩ : ∃ r ∈ (diff _ applied.resources).retainedOrNew, r.key = i.key :=
    exists_mem_retainedOrNew hi
  have hplace : ObjectKey.ofTracked r = .ofIdentifier i := ObjectKey.ofTracked_eq_of_key_eq hkey
  have hmem := Member.mem_refreshed (m := (w.aligned work applied).member) hr
  rw [← hresources] at hmem
  refine ⟨_, hmem, hplace, fun hreplaced => hreplaced.2 ?_⟩
  show o.metadata.uid = ((w.aligned work applied).member.object? (.ofTracked r)).bind _
  rw [hplace, ho]
  rfl

/-- The entries are those of declared resources. -/
theorem declares_of_mem {r : TrackedResource} (hr : r ∈ applied'.resources) :
    work.Declares (.ofTracked r) := by
  rw [hresources] at hr
  obtain ⟨r', hr', rfl⟩ := List.mem_map.1 hr
  obtain ⟨i, hi, hkey⟩ := declared_of_mem_retainedOrNew hr'
  exact ⟨i, hi, (ObjectKey.ofTracked_eq_of_key_eq hkey).symm⟩

/-- After aligning, an entry means every owned object, where all were covered. -/
theorem allTracked_aligned (h : Tracked name uid w work applied)
    (hcovered : Covered uid w work applied) : AllTracked uid (w.aligned work applied) applied' := by
  intro key o ho
  obtain ⟨hbefore, hmeant⟩ := h.holds_aligned_iff.1 ho
  rcases hcovered key o hbefore with hdeclares | ⟨r, hr, hmeans⟩
  · exact means_of_declares hresources hdeclares ho.1
  · -- the entry is not stale, since it would have been released
    obtain ⟨i, hi, hkey⟩ : ∃ i ∈ work.currentStatus.declared, i.key = r.key := by
      by_contra hnone
      have hstale := mem_stale h.once hr fun i hi hkey => hnone ⟨i, hi, hkey⟩
      exact hmeant r hstale hmeans
    have hdeclares : work.Declares key :=
      ⟨i, hi, (ObjectKey.ofTracked_eq_of_key_eq hkey.symm).symm.trans hmeans.1⟩
    exact means_of_declares hresources hdeclares ho.1

/-- If aligning leaves an entry for every owned object, all were covered. -/
theorem covered_of_aligned (h : Tracked name uid w work applied)
    (hentries : ∀ key o, (w.aligned work applied).member.Holds uid key o →
      ∃ r ∈ applied'.resources, ObjectKey.ofTracked r = key) : Covered uid w work applied := by
  intro key o ho
  by_cases hstale : ∃ r ∈ (diff work.currentStatus.declared applied.resources).stale, r.Means key o
  · obtain ⟨r, hr, hmeans⟩ := hstale
    exact Or.inr ⟨r, tracked_of_mem_stale hr, hmeans⟩
  · have hkept := h.holds_aligned_iff.2 ⟨ho, fun r hr hmeans => hstale ⟨r, hr, hmeans⟩⟩
    obtain ⟨r, hr, rfl⟩ := hentries key o hkept
    exact Or.inl (declares_of_mem hresources hr)

end Tracked

/-- Whether the record of the Work has an entry at the place of every owned object. -/
def NothingForgotten (name : WorkName) (uid : String) (w : World) : Prop :=
  ∃ applied, w.member.applied? name.name = some applied ∧
    ∀ key o, w.member.Holds uid key o → ∃ r ∈ applied.resources, ObjectKey.ofTracked r = key

/-- Aligning forgets nothing if and only if all is covered. -/
theorem Tracked.nothingForgotten_aligned_iff (h : Tracked name uid w work applied) :
    NothingForgotten name uid (w.aligned work applied) ↔ Covered uid w work applied := by
  obtain ⟨applied', h', hresources⟩ := h.exists_aligned
  constructor
  · rintro ⟨stored, hstored, hentries⟩
    cases h'.recordThere.symm.trans hstored
    exact h.covered_of_aligned hresources hentries
  · intro hcovered
    refine ⟨applied', h'.recordThere, fun key o ho => ?_⟩
    obtain ⟨r, hr, hmeans⟩ := h.allTracked_aligned hresources hcovered key o ho
    exact ⟨r, hr, hmeans.1⟩

end InMemory.World

end MemberAgent
