import MemberAgent.Proofs.Lifecycle.Phase
import MemberAgent.Proofs.Ownership.Adopted

/-! What the reconciles of a name may do to a member cluster, whatever becomes of their calls: a record
is created or dropped, objects are adopted or released for it, and it is written. -/

namespace MemberAgent

open InMemory Relation

namespace InMemory.Member

/-- The record of a name, if there is one, has this uid. -/
def StandsFor (m : Member) (name uid : String) : Prop :=
  ∀ applied, m.applied? name = some applied → applied.metadata.uid.getD "" = uid

theorem standsFor_recordUid (m : Member) (name : String) :
    m.StandsFor name ((m.recordUid name).getD "") := by
  intro applied happlied
  rw [recordUid, happlied]
  rfl

theorem StandsFor.eq_of_recordUid {m : Member} {name uid recorded : String}
    (h : m.StandsFor name uid) (hrecord : m.recordUid name = some recorded) : recorded = uid := by
  obtain ⟨applied, hthere, huid⟩ := Option.bind_eq_some_iff.1 hrecord
  rw [← h applied hthere, huid]
  rfl

/-- What is done to a member cluster for a name whose record has this uid. -/
inductive Handling (name uid : String) (documents : List Json) : Member → Member → Prop where
  | recorded {m m' : Member} {applied created : AppliedWork} (hname : applied.name = name)
      (hcreate : m.createApplied applied = .ok (created, m')) : Handling name uid documents m m'
  | dropped {m : Member} (huid : m.StandsFor name uid) :
      Handling name uid documents m (m.deleteApplied name)
  | adopted {m m' : Member} {applied : AppliedWork} {owner : OwnerReference}
      (hthere : m.applied? name = some applied) (howner : applied.ownerReference = some owner)
      (huid : owner.uid = uid) (h : Adoption owner documents m m') :
      Handling name uid documents m m'
  | released {m : Member} (r : TrackedResource) : Handling name uid documents m (m.released uid r)
  | committed {m : Member} (applied : AppliedWork) (resources : List TrackedResource) :
      Handling name uid documents m (m.committed applied resources)

/-- Any number of them, one after another. -/
abbrev Handled (name uid : String) (documents : List Json) : Member → Member → Prop :=
  ReflTransGen (Handling name uid documents)

variable {m m' : Member} {name uid : String} {documents : List Json}

theorem handled_releasedAll (l : List TrackedResource) :
    Handled name uid documents m (m.releasedAll uid l) := by
  induction l generalizing m with
  | nil => exact .refl
  | cons r rest ih => exact .head (.released r) ih

theorem handled_of_adoptions {applied : AppliedWork} {owner : OwnerReference}
    (hthere : m.applied? name = some applied) (howner : applied.ownerReference = some owner)
    (huid : owner.uid = uid) (h : ReflTransGen (Adoption owner documents) m m') :
    Handled name uid documents m m' := by
  induction h with
  | refl => exact .refl
  | tail hsteps hstep ih =>
      refine ih.tail (.adopted ?_ howner huid hstep)
      rw [applied?, applied_of_adoptions hsteps]
      exact hthere

/-! ### Records -/

theorem recordUid_of_applied_eq (h : m'.applied = m.applied) (name : String) :
    m'.recordUid name = m.recordUid name := by
  rw [recordUid, recordUid, applied?, h]
  rfl

theorem recordUid_deleteApplied (name other : String) :
    (m.deleteApplied name).recordUid other = if name = other then none else m.recordUid other := by
  rw [recordUid, applied?_deleteApplied]
  split <;> rfl

@[simp] theorem recordUid_released (uid : String) (r : TrackedResource) (other : String) :
    (m.released uid r).recordUid other = m.recordUid other :=
  recordUid_of_applied_eq applied_released other

@[simp] theorem recordUid_committed (applied : AppliedWork) (resources : List TrackedResource)
    (other : String) : (m.committed applied resources).recordUid other = m.recordUid other := by
  rcases committed_cases m applied resources with h | ⟨stored, hstored, -, h⟩ <;> rw [h]
  rw [recordUid, recordUid, applied?_putApplied]
  split
  · next hname =>
      rw [← hname, hstored]
      rfl
  · rfl

theorem recordUid_createApplied {applied created : AppliedWork}
    (h : m.createApplied applied = .ok (created, m')) (other : String) : m'.recordUid other =
      if applied.name = other then some (m.freshUid "aw") else m.recordUid other := by
  obtain ⟨-, rfl, rfl⟩ := createApplied_eq_ok h
  show ((m.putApplied applied.name (m.stored applied)).applied? other).bind _ = _
  rw [applied?_putApplied]
  split <;> rfl

theorem recordUid_seedApplied (m : Member) (applied : AppliedWork)
    (resources : List TrackedResource) (other : String) :
    (m.seedApplied applied resources).recordUid other =
      if applied.name = other then some (m.freshUid "aw") else m.recordUid other := by
  show ((m.putApplied applied.name _).applied? other).bind _ = _
  rw [applied?_putApplied]
  split <;> rfl

theorem recordUid_removeApplied (m : Member) (name other : String) :
    (m.removeApplied name).recordUid other = if name = other then none else m.recordUid other := by
  show ((m.applied.erase name).get? other).bind _ = _
  rw [Table.get?_erase]
  split <;> rfl

theorem recordUid_markAppliedDeleting (m : Member) (name : String) (now : Timestamp)
    (other : String) : (m.markAppliedDeleting name now).recordUid other = m.recordUid other := by
  unfold markAppliedDeleting
  split
  · rfl
  · next applied hthere =>
      rw [recordUid, applied?_putApplied]
      split
      · next hname =>
          rw [recordUid, ← hname, hthere]
          rfl
      · rfl

/-- Only the record of the name comes or goes, and one that comes has a new uid. -/
theorem Handling.recordUid_cases (h : Handling name uid documents m m') (other : String) :
    m'.recordUid other = m.recordUid other ∨ name = other ∧
      (m'.recordUid other = none ∨ m'.recordUid other = some (m.freshUid "aw") ∧
        m'.lastUid = m.lastUid + 1) := by
  cases h with
  | recorded hname hcreate =>
      rw [recordUid_createApplied hcreate, hname]
      obtain ⟨-, -, rfl⟩ := createApplied_eq_ok hcreate
      split
      · next hother => exact Or.inr ⟨hother, Or.inr ⟨rfl, rfl⟩⟩
      · exact Or.inl rfl
  | dropped =>
      rw [recordUid_deleteApplied]
      split
      · next hother => exact Or.inr ⟨hother, Or.inl rfl⟩
      · exact Or.inl rfl
  | adopted hthere howner huid hadoption =>
      obtain ⟨_, -, _, -, _, hadopts⟩ := hadoption
      exact Or.inl (recordUid_of_applied_eq hadopts.records other)
  | released r => exact Or.inl (recordUid_released uid r other)
  | committed applied resources => exact Or.inl (recordUid_committed applied resources other)

theorem lastUid_deleteApplied (m : Member) (name : String) :
    (m.deleteApplied name).lastUid = m.lastUid := by
  unfold deleteApplied
  cases m.applied? name with
  | none => rfl
  | some applied =>
      dsimp only
      cases applied.metadata.uid <;> rfl

theorem lastUid_committed (applied : AppliedWork) (resources : List TrackedResource) :
    (m.committed applied resources).lastUid = m.lastUid := by
  rcases committed_cases m applied resources with h | ⟨stored, -, -, h⟩ <;> rw [h]
  rfl

/-- Uids are never given out again. -/
theorem Handling.lastUid_le (h : Handling name uid documents m m') : m.lastUid ≤ m'.lastUid := by
  cases h with
  | recorded hname hcreate =>
      obtain ⟨-, -, rfl⟩ := createApplied_eq_ok hcreate
      exact Nat.le_succ _
  | dropped => exact Nat.le_of_eq (lastUid_deleteApplied m name).symm
  | adopted hthere howner huid hadoption =>
      obtain ⟨_, -, _, -, _, hadopts⟩ := hadoption
      exact hadopts.counter
  | released r => exact Nat.le_of_eq lastUid_released.symm
  | committed applied resources => exact Nat.le_of_eq (lastUid_committed applied resources).symm

end InMemory.Member

open Member

variable {possible : Fate → Prop} {w w' : World}

theorem AppliedWork.uid_of_ownerReference {applied : AppliedWork} {owner : OwnerReference}
    (h : applied.ownerReference = some owner) : applied.metadata.uid = some owner.uid := by
  obtain ⟨uid, huid, rfl⟩ := Option.map_eq_some_iff.1 h
  exact huid

/-! ### The reconciles -/

namespace Lifecycle

open World

/-- What a lifecycle reconcile may do to the member cluster: it creates the record of its Work, or it
deletes it, or it does nothing. -/
def MayRecord (work : Work) (m m' : Member) : Prop :=
  m' = m ∨ (∃ created, m.createApplied (.forWork work) = .ok (created, m')) ∨
    m' = m.deleteApplied work.name

/-- Attaching and removing finalizers leaves the member cluster alone. -/
theorem member_meet_finalizer (w : World) (fate : Fate) (work : Work) (finalizer : String) :
    (w.meet fate (.addFinalizer work finalizer)).2.member = w.member ∧
      (w.meet fate (.removeFinalizer work finalizer)).2.member = w.member := by
  have hhub : ∀ c : ClientCall, (∀ value w', w.perform c = .ok (value, w') → w'.member = w.member) →
      (w.meet fate c).2.member = w.member := by
    intro c hperformed
    rcases meet_world w fate c with h | h <;> rw [h]
    rcases answer_cases w c with ⟨failure, -, h⟩ | ⟨value, w', hperform, h⟩ <;> rw [h]
    exact hperformed value w' hperform
  constructor <;>
  · refine hhub _ fun value w' hperform => ?_
    obtain ⟨hub, -, rfl⟩ := onHub_eq_ok hperform
    rfl

/-- A lifecycle reconcile creates the record, deletes it or does nothing; and it has deleted it if it
succeeds on a Work that is terminating. -/
theorem reconcile_reaches (work : Work) : Reaches possible w (reconcile work).run fun result w' =>
    MayRecord work w.member w'.member ∧ ∀ action, result = some (.ok action) →
      State.ofWork work = .terminating → w'.member = w.member.deleteApplied work.name := by
  have hnothing : MayRecord work w.member w.member := Or.inl rfl
  rw [lifecycle_run]
  cases State.ofWork work with
  | tracked | gone => exact Reaches.done ⟨hnothing, fun _ _ he => by cases he⟩
  | unmanaged =>
      have hattaching : ∀ {v : World}, MayRecord work w.member v.member →
          Reaches possible v (attaching work) fun _ w' => MayRecord work w.member w'.member := by
        intro v hv
        refine Reaches.call hv fun fate _ => Reaches.done ?_
        rw [(member_meet_finalizer v fate work cleanupFinalizer).1]
        exact hv
      suffices hcreating : Reaches possible w (creating work) fun _ w' =>
          MayRecord work w.member w'.member from
        Reaches.mono hcreating fun _ w' h => ⟨h, fun _ _ he => by cases he⟩
      refine Reaches.call hnothing fun fate _ => ?_
      have hmet : MayRecord work w.member
          (w.meet fate (.createAppliedWork (.forWork work))).2.member := by
        rcases meet_world w fate (.createAppliedWork (.forWork work)) with h | h <;> rw [h]
        · exact hnothing
        rcases answer_cases w (.createAppliedWork (.forWork work)) with
          ⟨failure, -, h⟩ | ⟨created, w', hperform, h⟩ <;> rw [h]
        · exact hnothing
        · obtain ⟨member, hcreated, rfl⟩ := onMember_eq_ok hperform
          exact Or.inr (Or.inl ⟨created, hcreated⟩)
      rcases (w.meet fate (.createAppliedWork (.forWork work))).1 with failure | applied
      · show Reaches possible _ (if failure.isAlreadyExists then _ else _) _
        split
        · exact hattaching hmet
        · exact Reaches.done hmet
      · exact hattaching hmet
  | terminating =>
      have hdetaching : ∀ {v : World}, v.member = w.member.deleteApplied work.name →
          Reaches possible v (detaching work) fun _ w' =>
            w'.member = w.member.deleteApplied work.name := by
        intro v hv
        refine Reaches.call hv fun fate _ => Reaches.done ?_
        rw [(member_meet_finalizer v fate work cleanupFinalizer).2]
        exact hv
      refine Reaches.call ⟨hnothing, fun _ he => by cases he⟩ fun fate _ => ?_
      cases fate with
      | answered =>
          refine Reaches.mono (hdetaching rfl) fun _ w' h => ⟨Or.inr (Or.inr h), fun _ _ _ => h⟩
      | refused failure => exact Reaches.done ⟨hnothing, fun _ he => by cases he⟩
      | lost failure => exact Reaches.done ⟨Or.inr (Or.inr rfl), fun _ he => by cases he⟩

end Lifecycle

namespace InMemory

/-- The reconciles of a name, with the documents that they apply. -/
inductive ReconcileOf (name : String) : List Json → Running → Prop where
  | lifecycle (w : Work) (hname : w.name = name) : ReconcileOf name [] (Lifecycle.reconcile w).run
  | apply (settings : Settings) (clock : Nat → Timestamp) (w : Work) (hname : w.name = name) :
      ReconcileOf name w.manifests (Apply.reconcile settings clock w).run
  | tracking (settings : Settings) (w : Work) (hname : w.name = name) :
      ReconcileOf name [] (Tracking.reconcile settings w).run
  | monitor (settings : Settings) (applied : AppliedWork) (hname : applied.name = name) :
      ReconcileOf name [] (Monitor.reconcile settings applied).run

namespace World

variable {name uid : String} {documents : List Json}

/-- Any part of a sync is a handling, when the copy of the record that it goes by is the current
one. -/
theorem handled_of_partlySynced {pair : Except Failure (Option (Work × AppliedWork))}
    (hpair : ∀ work applied, pair = .ok (some (work, applied)) →
      applied.metadata.uid.getD "" = uid) (h : PartlySynced pair w w') :
    Handled name uid documents w.member w'.member := by
  rcases pair with failure | _ | ⟨work, applied⟩
  · cases h
    exact .refl
  · cases h
    exact .refl
  · have huid := hpair work applied rfl
    rcases h with ⟨l, -, rfl⟩ | rfl
    · rw [huid]
      exact handled_releasedAll l
    · show Handled name uid documents w.member (w.member.aligned work applied)
      rw [Member.aligned, huid]
      exact (handled_releasedAll _).tail (.committed applied _)

/-- A sync that reads the record, or holds the current copy of it. -/
theorem sync_handles (hplaced : w.member.Placed) (huid : w.member.StandsFor name uid)
    («namespace» : String) (work : Option Work) {record : Option AppliedWork}
    (hrecord : record.or (w.member.applied? name) = w.member.applied? name) :
    Ends possible w (Tracking.sync «namespace» name work record)
      (fun w' => Handled name uid documents w.member w'.member) fun _ _ => True := by
  refine (sync_ends hplaced).mono (fun w' h => ?_) fun _ _ _ _ => trivial
  refine handled_of_partlySynced (fun work applied hpair => ?_) h
  rw [pairOf, hrecord] at hpair
  exact huid applied (consistentPair_eq_some hpair).2

/-- Whatever becomes of the calls of a reconcile of a name, what it does is a handling of the name. -/
theorem handled_reaches {p : Running} (hp : ReconcileOf name documents p)
    (hplaced : w.member.Placed) (huid : w.member.StandsFor name uid) :
    Reaches possible w p fun _ w' => Handled name uid documents w.member w'.member := by
  cases hp with
  | lifecycle work hname =>
      refine Reaches.mono (Lifecycle.reconcile_reaches work) fun _ w' h => ?_
      rcases h.1 with h | ⟨created, h⟩ | h
      · rw [h]
      · have hrecord : (AppliedWork.forWork work).name = name := hname
        exact .single (.recorded hrecord h)
      · rw [h, hname]
        exact .single (.dropped huid)
  | apply settings clock work hname =>
      refine Reaches.mono (Apply.reconcile_ends settings clock work hplaced) fun _ w' h => ?_
      rcases h.1 with h | ⟨applied, owner, hthere, howner, h⟩
      · rw [h]
      · rw [hname] at hthere
        refine handled_of_adoptions hthere howner ?_ h
        rw [← huid applied hthere, AppliedWork.uid_of_ownerReference howner]
        rfl
  | tracking settings work hname =>
      subst hname
      refine Reaches.andThen (sync_handles hplaced huid _ (some work) rfl) (fun w' h => h.1)
        (fun _ w' h => h.1) fun _ w' h => ?_
      exact Reaches.done h.1
  | monitor settings applied hname =>
      subst hname
      have hread : w.answer (.getAppliedWork applied.name) =
          (.ok (w.member.applied? applied.name), w) := rfl
      have hrefl : Handled applied.name uid [] w.member w.member := .refl
      refine Reaches.andThen (Ends.request_read hread) (fun w' h => h.1 ▸ hrefl)
        (fun _ w' h => h.1 ▸ hrefl) fun found v h => ?_
      obtain ⟨hsame, hfound⟩ := h
      subst v
      have hfound := hfound found rfl
      cases found with
      | none => exact Reaches.done hrefl
      | some current =>
          refine Reaches.andThen (sync_handles hplaced huid _ none (hfound ▸ rfl)) (fun w' h => h.1)
            (fun _ w' h => h.1) fun _ w' h => ?_
          exact Reaches.done h.1

/-- Runs of whole reconciles, one after another. `may` says of which names and with which documents;
between them, others may change anything on the hub and in the table of kinds. -/
inductive Turn (may : String → List Json → Prop) : World → World → Prop where
  | reconcile {w : World} {name : String} {documents : List Json} {p : Running}
      (hp : ReconcileOf name documents p) (hmay : may name documents) (fates : List Fate) :
      Turn may w (w.attempt fates p).2.1
  | hub {w : World} (hub : Hub) : Turn may w { w with hub := hub }
  | kinds {w : World} (kinds : List ResourceMapping) : Turn may w { w with kinds := kinds }

/-- A turn leaves the member cluster as it is, or it handles a name on it. -/
theorem Turn.handled {may : String → List Json → Prop} (h : Turn may w w')
    (hplaced : w.member.Placed) : w'.member = w.member ∨ ∃ name documents, may name documents ∧
      Handled name ((w.member.recordUid name).getD "") documents w.member w'.member := by
  cases h with
  | @reconcile name documents _ hp hmay fates =>
      have hreaches : Reaches (fun _ => True) w _ _ :=
        handled_reaches hp hplaced (w.member.standsFor_recordUid name)
      exact Or.inr ⟨name, documents, hmay, hreaches fates fun _ _ => trivial⟩
  | hub => exact Or.inl rfl
  | kinds => exact Or.inl rfl

theorem Turn.placed {may : String → List Json → Prop} (h : Turn may w w')
    (hplaced : w.member.Placed) : w'.member.Placed := by
  cases h with
  | reconcile hp hmay fates => exact placed_attempt hplaced fates _
  | hub => exact hplaced
  | kinds => exact hplaced

end World

end InMemory

end MemberAgent
