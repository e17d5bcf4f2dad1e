import MemberAgent.Proofs.Ownership.Handling
import MemberAgent.Proofs.Tracking.Upkeep

/-! Objects with several owners. A reconcile of a name only ever adds or withdraws the record of that
name, so the other owners of an object stay as they are, in their order, and with them the object. -/

namespace MemberAgent

open InMemory Relation Tracking

namespace InMemory.Member

variable {m m' m'' : Member} {name uid : String} {documents : List Json}

theorem mem_othersThan {o : ApiObject} {r : OwnerReference} :
    r ∈ othersThan uid o ↔ r ∈ o.metadata.owners ∧ r.uid ≠ uid := by
  rw [othersThan, List.mem_filter, decide_eq_true_iff]

theorem othersThan_ne_nil {o : ApiObject} {other : String} (hother : other ≠ uid)
    (howned : o.IsOwnedBy other) : othersThan uid o ≠ [] := by
  obtain ⟨r, hr, rfl⟩ := howned
  exact List.ne_nil_of_mem (mem_othersThan.2 ⟨hr, hother⟩)

/-- An owner that joins leaves the others as they are. -/
theorem othersThan_of_withOwner {o o' : ApiObject} {owner : OwnerReference} (huid : owner.uid = uid)
    (h : o'.metadata.owners = withOwner o.metadata.owners owner) :
    othersThan uid o' = othersThan uid o := by
  rw [othersThan, h]
  rcases withOwner_cases o.metadata.owners owner with ⟨-, h⟩ | ⟨-, h⟩ <;> rw [h]
  · rfl
  · rw [List.filter_append, List.filter_cons_of_neg (by simp [huid]), List.filter_nil,
      List.append_nil]
    rfl

/-- Objects that others than this owner own stay the same objects, and keep those owners. -/
def KeepsOthers (uid : String) (m m' : Member) : Prop :=
  ∀ key o other, other ≠ uid → m.Holds other key o → ∃ o', m'.object? key = some o' ∧
    o'.metadata.uid = o.metadata.uid ∧ othersThan uid o' = othersThan uid o

namespace KeepsOthers

theorem of_object?_eq (h : ∀ key, m'.object? key = m.object? key) : KeepsOthers uid m m' :=
  fun key o _ _ ho => ⟨o, (h key).trans ho.1, rfl, rfl⟩

/-- An object that another one owned is still owned by that one. -/
theorem holds (h : KeepsOthers uid m m') {key : ObjectKey} {o : ApiObject} {other : String}
    (hother : other ≠ uid) (ho : m.Holds other key o) :
    ∃ o', m'.Holds other key o' ∧ o'.metadata.uid = o.metadata.uid ∧
      othersThan uid o' = othersThan uid o := by
  obtain ⟨o', ho', hsame, hothers⟩ := h key o other hother ho
  obtain ⟨r, hr, rfl⟩ := ho.2
  have hstill : r ∈ othersThan uid o' := hothers ▸ mem_othersThan.2 ⟨hr, hother⟩
  exact ⟨o', ⟨ho', r, (mem_othersThan.1 hstill).1, rfl⟩, hsame, hothers⟩

theorem trans (h : KeepsOthers uid m m') (h' : KeepsOthers uid m' m'') :
    KeepsOthers uid m m'' := by
  intro key o other hother ho
  obtain ⟨o', ho', hsame, hothers⟩ := h.holds hother ho
  obtain ⟨o'', ho'', hsame', hothers'⟩ := h' key o' other hother ho'
  exact ⟨o'', ho'', hsame'.trans hsame, hothers'.trans hothers⟩

end KeepsOthers

/-- Dropping a record takes objects away that nobody else owns, and withdraws it from the others. -/
theorem keepsOthers_deleteApplied (huid : m.StandsFor name uid) :
    KeepsOthers uid m (m.deleteApplied name) := by
  cases hrecord : m.recordUid name with
  | none =>
      refine .of_object?_eq fun key => ?_
      rw [object?_deleteApplied, hrecord]
  | some recorded =>
      rw [huid.eq_of_recordUid hrecord] at hrecord
      intro key o other hother ho
      have hkept : isOnlyOwner uid o = false := by
        have hothers := List.isEmpty_eq_false_iff.2 (othersThan_ne_nil hother ho.2)
        rw [isOnlyOwner, show (ownersWithout uid o).isEmpty = false from hothers]
        exact Bool.and_false _
      refine ⟨disown uid o, ?_, rfl, ?_⟩
      · rw [object?_deleteApplied, hrecord, ho.1]
        simp [Option.filter, hkept]
      · simp [othersThan, disown, ownersWithout, ObjectMeta.owners]

theorem keepsOthers_released (r : TrackedResource) : KeepsOthers uid m (m.released uid r) := by
  intro key o other hother ho
  rw [object?_released]
  split
  · next hkey =>
      subst hkey
      have hothers := othersThan_ne_nil hother ho.2
      rw [leftUnder, ho.1]
      dsimp only
      by_cases hreplaced : IsReplaced r o
      · rw [remainder, if_pos hreplaced]
        exact ⟨o, rfl, rfl, rfl⟩
      · rw [remainder, if_neg hreplaced, afterRelease, if_neg hothers]
        split
        · exact ⟨o, rfl, rfl, rfl⟩
        · exact ⟨withdrawn uid o, rfl, rfl, othersThan_withdrawn⟩
  · exact ⟨o, ho.1, rfl, rfl⟩

theorem Handling.keepsOthers (h : Handling name uid documents m m') : KeepsOthers uid m m' := by
  cases h with
  | recorded hname hcreate =>
      obtain ⟨-, -, rfl⟩ := createApplied_eq_ok hcreate
      exact .of_object?_eq fun _ => rfl
  | dropped huid => exact keepsOthers_deleteApplied huid
  | adopted hthere howner huid hadoption =>
      obtain ⟨_, -, _, -, _, hadopts⟩ := hadoption
      intro key o other hother ho
      obtain ⟨o', ho', hsame, howners | howners⟩ := hadopts.owners_kept ho.1
      · exact ⟨o', ho', hsame, by rw [othersThan, howners]; rfl⟩
      · exact ⟨o', ho', hsame, othersThan_of_withOwner huid howners⟩
  | released r => exact keepsOthers_released r
  | committed applied resources => exact .of_object?_eq fun _ => object?_committed _

theorem Handled.keepsOthers (h : Handled name uid documents m m') : KeepsOthers uid m m' := by
  induction h with
  | refl => exact .of_object?_eq fun _ => rfl
  | tail _ hstep ih => exact ih.trans hstep.keepsOthers

/-! ### Uids of records -/

/-- The uid that the counter gives to the record that it counts so. -/
def recordUidOf (n : Nat) : String :=
  let sort := "aw"
  s!"{sort}-{n}"

theorem freshUid_eq (m : Member) : m.freshUid "aw" = recordUidOf (m.lastUid + 1) := rfl

theorem recordUidOf_injective {n n' : Nat} (h : recordUidOf n = recordUidOf n') : n = n' := by
  have htext : toString n = toString n' := by simpa [recordUidOf] using h
  have hread : ∀ k : Nat, Text.decimalValue (toString k).toList = k := by
    intro k
    rw [show (toString k).toList = Nat.toDigits 10 k from Nat.toList_repr]
    exact Text.decimalValue_toDigits k
  rw [← hread n, htext, hread]

theorem recordUidOf_ne_empty (n : Nat) : recordUidOf n ≠ "" := by
  simp [recordUidOf]

/-- The records of different names have different uids, all of which the member cluster has given
out. -/
structure RecordsDiffer (m : Member) : Prop where
  distinct : ∀ name name' uid, m.recordUid name = some uid → m.recordUid name' = some uid →
    name = name'
  /-- This excludes no cluster: it holds of the empty one (`empty`), and all that is done to its records
  keeps it, by hand (`seedApplied`, `removeApplied`, `markAppliedDeleting`) and by reconciles (`handling`).
  What is done to objects does not matter (`of_applied_eq`). -/
  issued : ∀ name uid, m.recordUid name = some uid → ∃ n ≤ m.lastUid, uid = recordUidOf n

namespace RecordsDiffer

theorem fresh_ne (h : m.RecordsDiffer) (name : String) :
    m.recordUid name ≠ some (m.freshUid "aw") := by
  intro he
  obtain ⟨n, hn, huid⟩ := h.issued name _ he
  have := recordUidOf_injective ((m.freshUid_eq).symm.trans huid)
  omega

/-- The record of one name may go, or be another one with a new uid. -/
theorem of_recordUid_cases (h : m.RecordsDiffer) (name : String)
    (hcounter : m.lastUid ≤ m'.lastUid)
    (hstep : ∀ other, m'.recordUid other = m.recordUid other ∨ name = other ∧
      (m'.recordUid other = none ∨ m'.recordUid other = some (m.freshUid "aw") ∧
        m'.lastUid = m.lastUid + 1)) : m'.RecordsDiffer := by
  have hcases : ∀ other u, m'.recordUid other = some u → m.recordUid other = some u ∨
      name = other ∧ u = m.freshUid "aw" ∧ m'.lastUid = m.lastUid + 1 := by
    intro other u hu
    rcases hstep other with hsame | ⟨hname, hnone | ⟨hfresh, hcount⟩⟩
    · exact Or.inl (hsame.symm.trans hu)
    · cases hnone.symm.trans hu
    · exact Or.inr ⟨hname, Option.some.inj (hu.symm.trans hfresh), hcount⟩
  constructor
  · intro first second u hfirst hsecond
    rcases hcases first u hfirst with hold | ⟨hname, hfresh, -⟩ <;>
      rcases hcases second u hsecond with hold' | ⟨hname', hfresh', -⟩
    · exact h.distinct first second u hold hold'
    · exact absurd (hfresh' ▸ hold) (h.fresh_ne first)
    · exact absurd (hfresh ▸ hold') (h.fresh_ne second)
    · exact hname.symm.trans hname'
  · intro other u hu
    rcases hcases other u hu with hold | ⟨-, rfl, hcount⟩
    · obtain ⟨n, hn, huid⟩ := h.issued other u hold
      exact ⟨n, Nat.le_trans hn hcounter, huid⟩
    · exact ⟨m.lastUid + 1, Nat.le_of_eq hcount.symm, m.freshUid_eq⟩

theorem handling (h : m.RecordsDiffer) (hstep : Handling name uid documents m m') :
    m'.RecordsDiffer :=
  h.of_recordUid_cases name hstep.lastUid_le hstep.recordUid_cases

theorem handled (h : m.RecordsDiffer) (hsteps : Handled name uid documents m m') :
    m'.RecordsDiffer := by
  induction hsteps with
  | refl => exact h
  | tail _ hstep ih => exact ih.handling hstep

/-! So it is in every member cluster, whatever else is done to its records: -/

theorem empty : ({} : Member).RecordsDiffer where
  distinct _ _ _ h := by cases h
  issued _ _ h := by cases h

theorem of_applied_eq (h : m.RecordsDiffer) (happlied : m'.applied = m.applied)
    (hcounter : m.lastUid ≤ m'.lastUid) : m'.RecordsDiffer :=
  h.of_recordUid_cases "" hcounter fun other =>
    Or.inl (recordUid_of_applied_eq happlied other)

theorem seedApplied (h : m.RecordsDiffer) (applied : AppliedWork)
    (resources : List TrackedResource) : (m.seedApplied applied resources).RecordsDiffer := by
  refine h.of_recordUid_cases applied.name (Nat.le_succ _) fun other => ?_
  rw [recordUid_seedApplied]
  split
  · next hname => exact Or.inr ⟨hname, Or.inr ⟨rfl, rfl⟩⟩
  · exact Or.inl rfl

theorem removeApplied (h : m.RecordsDiffer) (name : String) :
    (m.removeApplied name).RecordsDiffer := by
  refine h.of_recordUid_cases name (Nat.le_refl _) fun other => ?_
  rw [recordUid_removeApplied]
  split
  · next hname => exact Or.inr ⟨hname, Or.inl rfl⟩
  · exact Or.inl rfl

theorem markAppliedDeleting (h : m.RecordsDiffer) (name : String) (now : Timestamp) :
    (m.markAppliedDeleting name now).RecordsDiffer := by
  refine h.of_recordUid_cases name (Nat.le_of_eq ?_) fun other => Or.inl ?_
  · unfold Member.markAppliedDeleting
    split <;> rfl
  · exact recordUid_markAppliedDeleting m name now other

/-- The uid of a record is not that of another name, with or without a record. -/
theorem ne_of_name_ne (h : m.RecordsDiffer) {other : String} (huid : m.recordUid name = some uid)
    (hother : other ≠ name) : uid ≠ (m.recordUid other).getD "" := by
  intro he
  cases hrecord : m.recordUid other with
  | none =>
      rw [hrecord] at he
      obtain ⟨n, -, hn⟩ := h.issued name uid huid
      exact recordUidOf_ne_empty n (hn.symm.trans he)
  | some recorded =>
      rw [hrecord] at he
      subst he
      exact hother (h.distinct other name _ hrecord huid)

end RecordsDiffer

theorem Handled.recordUid_other (h : Handled name uid documents m m') {other : String}
    (hother : name ≠ other) : m'.recordUid other = m.recordUid other := by
  induction h with
  | refl => rfl
  | tail _ hstep ih =>
      rcases hstep.recordUid_cases other with hsame | ⟨hname, -⟩
      · exact hsame.trans ih
      · exact absurd hname hother

/-- Objects of this owner stay the same objects and stay owned. -/
def KeepsHeld (uid : String) (m m' : Member) : Prop :=
  ∀ key o, m.Holds uid key o → ∃ o', m'.Holds uid key o' ∧ o'.metadata.uid = o.metadata.uid

end InMemory.Member

namespace InMemory.World

open Member

variable {w w' : World}

/-- What a run without a name keeps: its record and what the record owns. -/
structure Spares (name uid : String) (w w' : World) : Prop where
  placed : w'.member.Placed
  records : w'.member.RecordsDiffer
  record : w'.member.recordUid name = some uid
  held : KeepsHeld uid w.member w'.member

theorem Spares.turn {name uid : String} {w'' : World} (h : Spares name uid w w')
    (hturn : Turn (fun other _ => other ≠ name) w' w'') : Spares name uid w w'' := by
  have hplaced := hturn.placed h.placed
  rcases hturn.handled h.placed with hsame | ⟨other, documents, hother, hhandled⟩
  · exact ⟨hplaced, hsame ▸ h.records, hsame ▸ h.record, hsame ▸ h.held⟩
  · have hne := h.records.ne_of_name_ne h.record hother
    refine ⟨hplaced, h.records.handled hhandled, ?_, fun key o ho => ?_⟩
    · exact (hhandled.recordUid_other hother).trans h.record
    · obtain ⟨o', ho', hsame⟩ := h.held key o ho
      obtain ⟨o'', ho'', hsame', -⟩ := hhandled.keepsOthers.holds hne ho'
      exact ⟨o'', ho'', hsame'.trans hsame⟩

/-- A reconcile leaves the owners of an object alone that are not the record of its own name, and the
object with them. So what a record owns stays and stays owned, whatever is reconciled for other
names. -/
theorem coownership_kept (hplaced : w.member.Placed) (hrecords : w.member.RecordsDiffer) :
    (∀ {name uid : String} {documents : List Json} {p : Running}, ReconcileOf name documents p →
      w.member.StandsFor name uid → ∀ fates,
        KeepsOthers uid w.member (w.attempt fates p).2.1.member) ∧
    ∀ {name uid : String} {w' : World}, w.member.recordUid name = some uid →
      ReflTransGen (Turn fun other _ => other ≠ name) w w' →
        w'.member.recordUid name = some uid ∧ KeepsHeld uid w.member w'.member := by
  constructor
  · intro name uid documents p hp huid fates
    have hreaches : Reaches (fun _ => True) w p _ := handled_reaches hp hplaced huid
    exact Handled.keepsOthers (hreaches fates fun _ _ => trivial)
  · intro name uid w' hrecord hrun
    have hspares : Spares name uid w w' := by
      induction hrun with
      | refl => exact ⟨hplaced, hrecords, hrecord, fun key o ho => ⟨o, ho, rfl⟩⟩
      | tail _ hturn ih => exact ih.turn hturn
    exact ⟨hspares.record, hspares.held⟩

end InMemory.World

/-! ### An object of two Works -/

namespace InMemory.Shared

open Member World

def record (name : String) : AppliedWork where
  metadata := { name := some name }
  spec := ⟨name, "cluster1"⟩

def owner (name uid : String) : OwnerReference where
  apiVersion := workApiVersion
  kind := "AppliedWork"
  name := name
  uid := uid
  blockOwnerDeletion := some true
  controller := none

def place : ObjectKey := ⟨"configmaps", "default", "m1"⟩

def object : ApiObject where
  metadata := {
    name := some "m1", «namespace» := some "default", uid := some "obj-3"
    ownerReferences := some [owner "demo" "aw-1", owner "other" "aw-2"]
    resourceVersion := some "1" }

def records : Member := (({} : Member).seedApplied (record "demo") []).seedApplied (record "other") []

def member : Member := { records.put place object with lastUid := 3 }

def world : World := { member }

theorem placed_member : member.Placed :=
  Placed.put (m := {}) placed_empty ⟨rfl, rfl⟩

theorem recordsDiffer_member : member.RecordsDiffer :=
  ((RecordsDiffer.empty.seedApplied _ _).seedApplied _ _).of_applied_eq rfl (Nat.le_succ 2)

def leaving : Work :=
  { Demo.work with
    metadata := { Demo.work.metadata with deletionTimestamp := some Demo.epoch } }

/-- The record of one Work is deleted, its finalizer stays on for a failure: the object stays, for the
other one. -/
theorem shared_object_kept : let w' := (world.attempt [.answered, .refused (notFound "work")]
      (Lifecycle.reconcile leaving).run).2.1
    (∃ o', w'.member.object? place = some o' ∧ o'.metadata.uid = some "obj-3" ∧
      othersThan "aw-1" o' = [owner "other" "aw-2"]) ∧
    w'.member.recordUid "other" = some "aw-2" ∧ ∃ o', w'.member.Holds "aw-2" place o' := by
  intro w'
  have hother : member.Holds "aw-2" place object :=
    ⟨rfl, owner "other" "aw-2", List.mem_cons_of_mem _ List.mem_cons_self, rfl⟩
  have hlifecycle : ReconcileOf "demo" [] (Lifecycle.reconcile leaving).run := .lifecycle leaving rfl
  have hdemo : member.StandsFor "demo" "aw-1" := standsFor_recordUid member "demo"
  obtain ⟨hone, hrun⟩ := coownership_kept (w := world) placed_member recordsDiffer_member
  obtain ⟨o', ho', hsame, hothers⟩ :=
    hone hlifecycle hdemo [.answered, .refused (notFound "work")] place object "aw-2" (by decide) hother
  have hturn : Turn (fun other _ => other ≠ "other") world w' :=
    .reconcile hlifecycle (by decide) _
  have hthere : world.member.recordUid "other" = some "aw-2" := rfl
  obtain ⟨hrecord, hheld⟩ := hrun hthere (.single hturn)
  obtain ⟨o'', ho'', -⟩ := hheld place object hother
  exact ⟨⟨o', ho', hsame, hothers⟩, hrecord, o'', ho''⟩

end InMemory.Shared

end MemberAgent
