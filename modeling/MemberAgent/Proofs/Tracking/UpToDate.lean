import MemberAgent.Proofs.Tracking.Upkeep

/-! What a sync that goes through leaves: the record has one entry for each declared resource, with the
uid of what is there, the objects of entries that fell out of the Work have another owner or are gone,
and every other object is as it was. -/

namespace MemberAgent

open InMemory Tracking

/-- A list without repeated keys is left as it is. -/
theorem firstByKey_eq_self {α κ : Type} [DecidableEq κ] {key : α → κ} {l : List α}
    (h : (l.map key).Nodup) : firstByKey key l = l := by
  induction l with
  | nil => rfl
  | cons a rest ih =>
      rw [List.map_cons, List.nodup_cons] at h
      rw [firstByKey, ih h.2, List.filter_eq_self.2 fun b hb => ?_]
      exact decide_eq_true fun hkey => h.1 (hkey ▸ List.mem_map_of_mem hb)

theorem firstByKey_declared (s : WorkStatus) :
    firstByKey ResourceIdentifier.key s.declared = s.declared :=
  firstByKey_eq_self nodup_firstByKey

namespace InMemory

namespace Member

variable {m : Member} {owner : String} {r : TrackedResource} {key : ObjectKey}

/-- The uid of the object at the place of an entry. -/
def uidAt (m : Member) (r : TrackedResource) : Option String :=
  (m.object? (.ofTracked r)).bind fun o => o.metadata.uid

theorem uid_of_mem_refreshed {l : List TrackedResource} (hr : r ∈ m.refreshed l) :
    r.uid = m.uidAt r := by
  obtain ⟨r', -, rfl⟩ := List.mem_map.1 hr
  rfl

/-- An entry means the object at its place if it has no uid, or that of the object. -/
theorem means_iff {o : ApiObject} (ho : m.object? (.ofTracked r) = some o) :
    r.Means (.ofTracked r) o ↔ r.uid = none ∨ r.uid = m.uidAt r := by
  have huid : m.uidAt r = o.metadata.uid := by rw [uidAt, ho]; rfl
  rw [TrackedResource.Means, IsReplaced, huid]
  cases r.uid with
  | none => simp
  | some uid => simp [eq_comm]

/-- A release leaves an object alone that the entry does not mean. -/
theorem object?_released_of_not_means (h : ∀ o, m.object? key = some o → ¬r.Means key o) :
    (m.released owner r).object? key = m.object? key := by
  rw [object?_released]
  split
  · next e =>
      subst e
      rw [leftUnder]
      cases hlive : m.object? (.ofTracked r) with
      | none => rfl
      | some live =>
          have hreplaced : IsReplaced r live := by
            by_contra hmeant
            exact h live hlive ⟨rfl, hmeant⟩
          exact congrArg Prod.fst (if_pos hreplaced)
  · rfl

theorem object?_releasedAll_of_not_means {l : List TrackedResource}
    (h : ∀ r ∈ l, ∀ o, m.object? key = some o → ¬r.Means key o) :
    (m.releasedAll owner l).object? key = m.object? key := by
  induction l generalizing m with
  | nil => rfl
  | cons r rest ih =>
      have hfirst : (m.released owner r).object? key = m.object? key :=
        object?_released_of_not_means (h r List.mem_cons_self)
      show ((m.released owner r).releasedAll owner rest).object? key = _
      rw [ih, hfirst]
      intro r' hr'
      rw [hfirst]
      exact h r' (List.mem_cons_of_mem _ hr')

theorem applied?_committed_of_ne {applied : AppliedWork} {resources : List TrackedResource}
    {name : String} (hname : applied.name ≠ name) :
    (m.committed applied resources).applied? name = m.applied? name := by
  rcases committed_cases m applied resources with h | ⟨stored, -, -, h⟩ <;> rw [h]
  rw [applied?_putApplied, if_neg hname]

end Member

namespace World

variable {w w' : World} {«namespace» name uid : String} {given : Option Work} {work : Work}
  {record : Option AppliedWork} {applied : AppliedWork}

/-- Whether an entry has to go: nothing declares its resource any more, and it has no uid or that of
the object at its place. -/
structure HasToGo (w : World) (work : Work) (r : TrackedResource) : Prop where
  undeclared : ∀ i ∈ work.currentStatus.declared, i.key ≠ r.key
  meant : r.uid = none ∨ r.uid = w.member.uidAt r

/-- What a sync that goes through leaves: `applied'` is the record that stood as `applied` before it. -/
structure UpToDate (name uid : String) (work : Work) (applied applied' : AppliedWork)
    (w w' : World) : Prop where
  there : w'.member.applied? name = some applied'
  recordUid : applied'.metadata.uid = some uid
  keys : applied'.resources.map TrackedResource.key =
    work.currentStatus.declared.map ResourceIdentifier.key
  once : (applied'.resources.map TrackedResource.key).Nodup
  uids : ∀ r ∈ applied'.resources, r.uid = w'.member.uidAt r
  letGo : ∀ r ∈ applied.resources, w.HasToGo work r → ∀ o, ¬w'.member.Holds uid (.ofTracked r) o
  objects : ∀ key, (∀ r ∈ applied.resources, w.HasToGo work r → ObjectKey.ofTracked r ≠ key) →
    w'.member.object? key = w.member.object? key
  records : ∀ other, other ≠ name → w'.member.applied? other = w.member.applied? other
  hub : w'.hub = w.hub

/-- Aligning a record brings it up to date. -/
theorem upToDate_aligned (hrecord : w.member.applied? name = some applied)
    (hname : applied.name = name) (huid : applied.metadata.uid = some uid)
    (honce : (applied.resources.map TrackedResource.key).Nodup) :
    ∃ applied', UpToDate name uid work applied applied' w (w.aligned work applied) := by
  subst hname
  let d := diff work.currentStatus.declared applied.resources
  let released := w.member.releasedAll (applied.metadata.uid.getD "") d.stale
  have haligned : (w.aligned work applied).member =
      released.committed applied (released.refreshed d.retainedOrNew) := rfl
  have hthere : released.applied? applied.name = some applied :=
    (Member.applied?_releasedAll _).trans hrecord
  obtain ⟨applied', happlied', hresources, -, huid', -⟩ :=
    Member.record_committed hthere (released.refreshed d.retainedOrNew)
  have hkeys : applied'.resources.map TrackedResource.key =
      work.currentStatus.declared.map ResourceIdentifier.key := by
    rw [hresources, Member.key_refreshed, key_retainedOrNew]
    exact congrArg _ (firstByKey_declared _)
  refine ⟨applied', happlied', huid'.trans huid, hkeys, hkeys ▸ nodup_firstByKey, fun r hr => ?_,
    fun r hr hgo o ho => ?_, fun key hkey => ?_, fun other hother => ?_, rfl⟩
  · rw [haligned, Member.uidAt, Member.object?_committed]
    rw [hresources] at hr
    exact Member.uid_of_mem_refreshed hr
  · obtain ⟨hbefore, hmeant⟩ := (holds_of_aligned_iff huid).1 ho
    have hstale : r ∈ d.stale := mem_stale honce hr hgo.undeclared
    exact hmeant r hstale ((Member.means_iff hbefore.1).2 hgo.meant)
  · rw [haligned, Member.object?_committed]
    refine Member.object?_releasedAll_of_not_means fun r hr o ho hmeans => ?_
    obtain rfl := hmeans.1
    refine hkey r (tracked_of_mem_stale hr) ⟨key_ne_of_mem_stale hr, ?_⟩ rfl
    exact (Member.means_iff ho).1 hmeans
  · rw [haligned, Member.applied?_committed_of_ne (Ne.symm hother), Member.applied?_releasedAll]

/-- A sync that goes through, of a pair that is out of transition and of the record as it stands,
brings the record up to date. -/
theorem up_to_date_after_sync (hplaced : w.member.Placed)
    (hpair : w.pairOf «namespace» name given record = .ok (some (work, applied)))
    (hrecord : w.member.applied? name = some applied) (hname : applied.name = name)
    (huid : applied.metadata.uid = some uid)
    (honce : (applied.resources.map TrackedResource.key).Nodup)
    (hrun : w.run (sync «namespace» name given record).run = (.ok (), w')) :
    ∃ applied', UpToDate name uid work applied applied' w w' := by
  have hends : Ends (fun _ => True) w (sync «namespace» name given record) _ _ := sync_ends hplaced
  have hsynced := (Reaches.run hends trivial).2
  rw [hrun, hpair] at hsynced
  obtain rfl : w' = w.aligned work applied := hsynced () rfl
  exact upToDate_aligned hrecord hname huid honce

/-- A Work that still declares one of the two resources of the record that is left over. -/
def halfWork : Work where
  metadata := {
    name := some "demo", «namespace» := some "cluster1", finalizers := some [cleanupFinalizer] }
  status := some {
    conditions := []
    manifestConditions := [{
      identifier := {
        ordinal := 0, version := "v1", kind := "ConfigMap", resource := "configmaps"
        «namespace» := "default", name := "own" }
      conditions := [
        ⟨appliedCondition, .isTrue, "AppliedManifestComplete", "", none, Demo.epoch⟩] }] }

def halfLeftover : World :=
  { leftover with hub := leftover.hub.put ⟨"cluster1", "demo"⟩ halfWork }

/-- The record gives up the shared resource and keeps its own. -/
theorem half_leftover_up_to_date : ∃ applied applied' w',
    leftover.member.applied? "demo" = some applied ∧
      halfLeftover.run (sync "cluster1" "demo" none none).run = (.ok (), w') ∧
      UpToDate "demo" "aw-1" halfWork applied applied' halfLeftover w' ∧
      applied'.resources = [leftover.entry "own"] := by
  have hplaced : halfLeftover.member.Placed := placed_leftover
  have hrecord : halfLeftover.member.applied? "demo" = some _ := rfl
  have hpair : halfLeftover.pairOf "cluster1" "demo" none none = .ok (some (halfWork, _)) := rfl
  obtain ⟨applied', h⟩ := up_to_date_after_sync hplaced hpair hrecord rfl rfl (by decide) rfl
  have hthere : (halfLeftover.run (sync "cluster1" "demo" none none).run).2.member.applied? "demo" =
      some _ := rfl
  refine ⟨_, applied', _, hrecord, rfl, h, ?_⟩
  cases hthere.symm.trans h.there
  rfl

end World

end InMemory

end MemberAgent
