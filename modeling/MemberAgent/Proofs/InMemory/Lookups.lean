import MemberAgent.InMemory.World

/-! What the operations of the stores do to their lookups. The keys are equal when they compare as
equal, so a store is known by its lookups. -/

namespace MemberAgent.InMemory

open Std

instance : LawfulEqOrd WorkName where
  eq_of_compare {a b} h := by
    rw [show compare a b = (compare a.namespace b.namespace).then (compare a.name b.name) from rfl,
      Ordering.then_eq_eq] at h
    cases a; cases b
    exact congr (congrArg WorkName.mk (LawfulEqCmp.eq_of_compare h.1)) (LawfulEqCmp.eq_of_compare h.2)

instance : LawfulEqOrd ObjectKey where
  eq_of_compare {a b} h := by
    rw [show compare a b = (compare a.resource b.resource).then
        ((compare a.namespace b.namespace).then (compare a.name b.name)) from rfl,
      Ordering.then_eq_eq, Ordering.then_eq_eq] at h
    cases a; cases b
    exact congr (congr (congrArg ObjectKey.mk (LawfulEqCmp.eq_of_compare h.1))
      (LawfulEqCmp.eq_of_compare h.2.1)) (LawfulEqCmp.eq_of_compare h.2.2)

namespace Hub

variable (h : Hub) (key key' : WorkName) (w : Work)

@[simp] theorem work?_put : (h.put key w).work? key' = if key = key' then some w else h.work? key' :=
  Table.get?_insert h.works key w key'

@[simp] theorem work?_erase :
    Hub.work? { h with works := h.works.erase key } key' = if key = key' then none else h.work? key' :=
  Table.get?_erase h.works key key'

/-- A write takes place on the Work that its author has seen, and on no other. -/
theorem write_eq_ok_iff {h' : Hub} {observed : Work} {change : Work → Option Work} :
    h.write observed change = .ok h' ↔ ∃ stored, h.work? (.ofWork observed) = some stored ∧
      stored.metadata.resourceVersion = observed.metadata.resourceVersion ∧
      h' = match change stored with
        | some w => h.put (.ofWork observed) w
        | none => { h with works := h.works.erase (.ofWork observed) } := by
  simp only [write]
  cases hs : h.work? (.ofWork observed) with
  | none => simp
  | some stored =>
      by_cases hv : stored.metadata.resourceVersion = observed.metadata.resourceVersion
      · cases hc : change stored <;> simp [hv, hc, eq_comm]
      · simp [hv]

end Hub

namespace Member

variable (m : Member) (key key' : ObjectKey) (name name' : String)

@[simp] theorem object?_put (o : ApiObject) :
    (m.put key o).object? key' = if key = key' then some o else m.object? key' :=
  Table.get?_insert m.objects key o key'

@[simp] theorem applied?_putApplied (a : AppliedWork) :
    (m.putApplied name a).applied? name' = if name = name' then some a else m.applied? name' :=
  Table.get?_insert m.applied name a name'

@[simp] theorem object?_putApplied (a : AppliedWork) :
    (m.putApplied name a).object? key = m.object? key := rfl

variable {m} {m' : Member}

/-- A write takes place on the version that its author has seen, and on no other. -/
theorem write_eq_ok_iff {mapping : ResourceMapping} {observed o : ApiObject}
    {change : ApiObject → ApiObject} :
    m.write mapping observed change = .ok (o, m') ↔
      ∃ stored, m.object? (.ofObject mapping observed) = some stored ∧
        stored.metadata.resourceVersion = observed.metadata.resourceVersion ∧ o = change stored ∧
        m' = { m.put (.ofObject mapping observed) (change stored) with writes := m.writes + 1 } := by
  simp only [write]
  cases hs : m.object? (.ofObject mapping observed) with
  | none => simp
  | some stored =>
      by_cases hv : stored.metadata.resourceVersion = observed.metadata.resourceVersion
      · simp [hv, eq_comm]
      · simp [hv]

theorem exists_written {mapping : ResourceMapping} {observed stored : ApiObject}
    (hstored : m.object? (.ofObject mapping observed) = some stored)
    (hversion : stored.metadata.resourceVersion = observed.metadata.resourceVersion)
    (change : ApiObject → ApiObject) :
    ∃ changed m', m.write mapping observed change = .ok (changed, m') :=
  ⟨_, _, write_eq_ok_iff.2 ⟨stored, hstored, hversion, rfl, rfl⟩⟩

theorem patchOwners_eq_ok_iff {mapping : ResourceMapping} {live : ApiObject}
    {owners : List OwnerReference} :
    m.patchOwners mapping live owners = .ok m' ↔ ∃ o, m.write mapping live (fun stored =>
      { stored with
        metadata := bumped { stored.metadata with ownerReferences := some owners } }) = .ok (o, m') := by
  rw [patchOwners]
  rcases m.write mapping live _ with _ | ⟨o, written⟩ <;> simp [Functor.map, Except.map]

theorem createObject_eq_ok {mapping : ResourceMapping} {object created : ApiObject}
    (he : m.createObject mapping object = .ok (created, m')) :
    m.object? (.ofObject mapping object) = none ∧
      created = { object with metadata := { object.metadata with
        uid := some (m.freshUid "obj"), resourceVersion := some "1" } } ∧
      m' = { m.put (.ofObject mapping object) created with
        lastUid := m.lastUid + 1, writes := m.writes + 1 } := by
  unfold createObject at he
  dsimp only at he
  split at he
  · cases he
  · next hfree =>
      cases he
      exact ⟨Option.not_isSome_iff_eq_none.1 hfree, rfl, rfl⟩

/-- Deleting what an entry means takes away nothing else. -/
theorem deleteTracked_eq_ok {r : TrackedResource} {outcome : Deletion}
    (he : m.deleteTracked r = .ok (outcome, m')) :
    m' = m ∨ m' = { m with objects := m.objects.erase (.ofTracked r) } := by
  unfold deleteTracked at he
  dsimp only at he
  split at he
  · cases he
  split at he
  · cases he
    exact Or.inl rfl
  split at he
  · cases he
    exact Or.inl rfl
  · cases he
    exact Or.inr rfl

theorem updateResources_eq_ok_iff {observed : AppliedWork} {resources : List TrackedResource} :
    m.updateResources observed resources = .ok m' ↔
      ∃ stored, m.applied? observed.name = some stored ∧
        stored.metadata.resourceVersion = observed.metadata.resourceVersion ∧
        m' = m.putApplied observed.name
          { stored with
            status := some { appliedResources := resources }
            metadata := bumped stored.metadata } := by
  simp only [updateResources]
  cases hs : m.applied? observed.name with
  | none => simp
  | some stored =>
      by_cases hv : stored.metadata.resourceVersion = observed.metadata.resourceVersion
      · simp [hv, eq_comm]
      · simp [hv]

theorem createApplied_eq_ok {applied created : AppliedWork}
    (he : m.createApplied applied = .ok (created, m')) :
    m.applied? applied.name = none ∧ created = m.stored applied ∧
      m' = { m.putApplied applied.name created with lastUid := m.lastUid + 1 } := by
  unfold createApplied at he
  dsimp only at he
  split at he
  · cases he
  · next hfree =>
      cases he
      exact ⟨Option.not_isSome_iff_eq_none.1 hfree, rfl, rfl⟩

/-- A record is refused only where there is one. -/
theorem createApplied_eq_error {applied : AppliedWork} {failure : Failure}
    (he : m.createApplied applied = .error failure) : (m.applied? applied.name).isSome := by
  unfold createApplied at he
  dsimp only at he
  split at he
  · next hthere => exact hthere
  · cases he

theorem applied?_deleteApplied (m : Member) (name name' : String) :
    (m.deleteApplied name).applied? name' = if name = name' then none else m.applied? name' := by
  unfold deleteApplied
  cases hs : m.applied? name with
  | none =>
      by_cases e : name = name'
      · rw [if_pos e, ← e, hs]
      · rw [if_neg e]
  | some stored =>
      have herase : (m.applied.erase name).get? name' =
          if name = name' then none else m.applied? name' := Table.get?_erase m.applied name name'
      dsimp only
      split
      · exact herase
      · exact herase

theorem object?_removeObject (m : Member) (key key' : ObjectKey) :
    (m.removeObject key).object? key' = if key = key' then none else m.object? key' :=
  Table.get?_erase m.objects key key'

theorem object?_collectGarbage (m : Member) (uid : String) (key : ObjectKey) :
    (m.collectGarbage uid).object? key =
      ((m.object? key).filter fun o => !isOnlyOwner uid o).map (disown uid) := by
  show ((m.objects.filter fun _ o => !isOnlyOwner uid o).mapValues fun _ o => disown uid o).get? key =
    ((m.objects.get? key).filter fun o => !isOnlyOwner uid o).map (disown uid)
  rw [Table.get?_mapValues, Table.get?_filter]

/-- The uid of the record of a name. -/
def recordUid (m : Member) (name : String) : Option String :=
  (m.applied? name).bind fun applied => applied.metadata.uid

/-- Deleting a record takes away what only it owns, and withdraws it elsewhere. -/
theorem object?_deleteApplied (m : Member) (name : String) (key : ObjectKey) :
    (m.deleteApplied name).object? key = match m.recordUid name with
      | none => m.object? key
      | some uid => ((m.object? key).filter fun o => !isOnlyOwner uid o).map (disown uid) := by
  unfold deleteApplied recordUid
  cases m.applied? name with
  | none => rfl
  | some applied =>
      dsimp only [Option.bind_some]
      cases applied.metadata.uid with
      | none => rfl
      | some uid => exact object?_collectGarbage { m with applied := m.applied.erase name } uid key

end Member

namespace World

variable {w w' : World}

theorem onHub_eq_ok {r : Except Failure Hub} {value : Unit} (he : w.onHub r = .ok (value, w')) :
    ∃ hub, r = .ok hub ∧ w' = { w with hub } := by
  cases r with
  | error => cases he
  | ok hub =>
      cases he
      exact ⟨hub, rfl, rfl⟩

theorem onMember_eq_ok {α : Type} {r : Except Failure (α × Member)} {value : α}
    (he : w.onMember r = .ok (value, w')) :
    ∃ member, r = .ok (value, member) ∧ w' = { w with member } := by
  cases r with
  | error => cases he
  | ok result =>
      cases he
      exact ⟨result.2, rfl, rfl⟩

theorem onMember_map_eq_ok {r : Except Failure Member} {value : Unit}
    (he : w.onMember (r.map fun m => ((), m)) = .ok (value, w')) :
    ∃ member, r = .ok member ∧ w' = { w with member } := by
  cases r with
  | error => cases he
  | ok member =>
      cases he
      exact ⟨member, rfl, rfl⟩

theorem answer_of_perform {c : ClientCall} {value : c.Value}
    (he : w.perform c = .ok (value, w')) : w.answer c = (.ok value, w') := by
  rw [answer, he]

theorem answer_of_perform_error {c : ClientCall} {failure : Failure}
    (he : w.perform c = .error failure) : w.answer c = (.error failure, w) := by
  rw [answer, he]

/-- The calls that no record is changed by. -/
def KeepsRecords : ClientCall → Prop
  | .createAppliedWork .. | .deleteAppliedWork .. | .updateResources .. => False
  | _ => True

theorem applied_perform {c : ClientCall} {value : c.Value} (hc : KeepsRecords c)
    (he : w.perform c = .ok (value, w')) : w'.member.applied = w.member.applied := by
  cases c with
  | getWork | getAppliedWork | getObject | getTracked | findMapping => cases he; rfl
  | createAppliedWork | deleteAppliedWork | updateResources => exact hc.elim
  | patchWorkStatus | addFinalizer | removeFinalizer =>
      obtain ⟨hub, -, rfl⟩ := onHub_eq_ok he
      rfl
  | createObject =>
      obtain ⟨member, hcreate, rfl⟩ := onMember_eq_ok he
      obtain ⟨-, -, rfl⟩ := Member.createObject_eq_ok hcreate
      rfl
  | replaceObject =>
      obtain ⟨member, hreplace, rfl⟩ := onMember_eq_ok he
      obtain ⟨_, -, -, -, rfl⟩ := Member.write_eq_ok_iff.1 hreplace
      rfl
  | patchOwners =>
      obtain ⟨member, hpatch, rfl⟩ := onMember_map_eq_ok he
      obtain ⟨_, hwrite⟩ := Member.patchOwners_eq_ok_iff.1 hpatch
      obtain ⟨_, -, -, -, rfl⟩ := Member.write_eq_ok_iff.1 hwrite
      rfl
  | deleteTracked =>
      obtain ⟨member, hdelete, rfl⟩ := onMember_eq_ok he
      rcases Member.deleteTracked_eq_ok hdelete with rfl | rfl <;> rfl

/-- A reply is a failure without effect, or it is what performing the call gives. -/
theorem answer_cases (w : World) (c : ClientCall) :
    (∃ failure, w.perform c = .error failure ∧ w.answer c = (.error failure, w)) ∨
      ∃ value w', w.perform c = .ok (value, w') ∧ w.answer c = (.ok value, w') := by
  rw [answer]
  cases w.perform c with
  | error failure => exact Or.inl ⟨failure, rfl, rfl⟩
  | ok result => exact Or.inr ⟨result.1, result.2, rfl, rfl⟩

/-! ### Calls that go through -/

section

variable {mapping : ResourceMapping}

/-- An object is created where there is none. -/
theorem exists_created {object : ApiObject}
    (hfree : w.member.object? (.ofObject mapping object) = none) :
    ∃ created w', w.perform (.createObject mapping object) = .ok (created, w') := by
  have hcontains : w.member.objects.contains (.ofObject mapping object) = false :=
    congrArg Option.isSome hfree
  rw [perform, Member.createObject, if_neg (Bool.eq_false_iff.1 hcontains)]
  exact ⟨_, _, rfl⟩

variable {observed stored : ApiObject}
  (hstored : w.member.object? (.ofObject mapping observed) = some stored)
  (hversion : stored.metadata.resourceVersion = observed.metadata.resourceVersion)

include hstored hversion

/-- An object is written in the version that was seen. -/
theorem exists_replaced :
    ∃ replaced w', w.perform (.replaceObject mapping observed) = .ok (replaced, w') := by
  obtain ⟨replaced, member, hreplace⟩ : ∃ replaced member,
      w.member.replaceObject mapping observed = .ok (replaced, member) :=
    Member.exists_written hstored hversion _
  exact ⟨replaced, _, congrArg w.onMember hreplace⟩

theorem exists_patched (owners : List OwnerReference) :
    ∃ w', w.perform (.patchOwners mapping observed owners) = .ok ((), w') := by
  obtain ⟨changed, member, hwrite⟩ := Member.exists_written hstored hversion _
  have hpatch : w.member.patchOwners mapping observed owners = .ok member :=
    Member.patchOwners_eq_ok_iff.2 ⟨changed, hwrite⟩
  rw [perform, hpatch]
  exact ⟨_, rfl⟩

end

end World

end MemberAgent.InMemory
