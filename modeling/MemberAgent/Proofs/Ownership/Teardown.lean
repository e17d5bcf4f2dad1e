import MemberAgent.Proofs.Ownership.Handling
import MemberAgent.Proofs.Tracking.Upkeep

/-! Owners that exist. Whatever is reconciled from empty clusters on, every owner of an object is a
record that is there, listed once; and deleting a record takes away what only it owns, and withdraws
it from everything else. -/

namespace MemberAgent

open InMemory Relation Tracking

/-- Whether a manifest names no owners of its own. -/
def Manifest.Unowned (document : Json) : Prop :=
  ∀ object, decode? document = .ok object → object.metadata.owners = []

namespace InMemory.Member

variable {m m' : Member} {name uid : String} {documents : List Json} {o o' : ApiObject}

/-! ### Owners of one object -/

/-- Whether an object lists each owner once, and only records that are there. -/
structure OwnersStand (m : Member) (o : ApiObject) : Prop where
  once : (o.metadata.owners.map OwnerReference.uid).Nodup
  recorded : ∀ r ∈ o.metadata.owners, ∃ name, m.recordUid name = some r.uid

namespace OwnersStand

/-- Owners may be withdrawn, and records may come. -/
theorem of_sublist (h : m.OwnersStand o) (hsub : o'.metadata.owners.Sublist o.metadata.owners)
    (hrecords : ∀ r ∈ o'.metadata.owners, ∀ name, m.recordUid name = some r.uid →
      m'.recordUid name = some r.uid) : m'.OwnersStand o' where
  once := h.once.sublist (hsub.map _)
  recorded r hr := by
    obtain ⟨name, hname⟩ := h.recorded r (hsub.mem hr)
    exact ⟨name, hrecords r hr name hname⟩

/-- A record may join the owners. -/
theorem of_withOwner {owner : OwnerReference} (h : m.OwnersStand o)
    (howner : m.recordUid name = some owner.uid)
    (ho' : o'.metadata.owners = withOwner o.metadata.owners owner) : m.OwnersStand o' := by
  rcases withOwner_cases o.metadata.owners owner with ⟨-, hsame⟩ | ⟨hnew, happend⟩
  · rw [hsame] at ho'
    exact h.of_sublist (ho' ▸ List.Sublist.refl _) fun _ _ _ h => h
  · rw [happend] at ho'
    constructor
    · rw [ho', List.map_append, List.map_singleton]
      refine h.once.append (List.nodup_singleton _) ?_
      intro uid hmem hlast
      obtain ⟨r, hr, rfl⟩ := List.mem_map.1 hmem
      exact hnew r hr (List.mem_singleton.1 hlast)
    · rw [ho']
      intro r hr
      rcases List.mem_append.1 hr with hr | hr
      · exact h.recorded r hr
      · rw [List.mem_singleton.1 hr]
        exact ⟨name, howner⟩

/-- An object with the only owner that it starts with. -/
theorem of_single {owner : OwnerReference} (howner : m.recordUid name = some owner.uid)
    (ho : o.metadata.owners = [owner]) : m.OwnersStand o := by
  constructor
  · rw [ho]
    exact List.nodup_singleton _
  · rw [ho]
    intro r hr
    rw [List.mem_singleton.1 hr]
    exact ⟨name, howner⟩

end OwnersStand

/-! ### Owners of all objects -/

/-- Every record has a uid, and the owners of every object stand. -/
structure AllOwnersStand (m : Member) : Prop where
  identified : ∀ name, m.recordUid name = none → m.applied? name = none
  owners : ∀ key o, m.object? key = some o → m.OwnersStand o

theorem allOwnersStand_empty : ({} : Member).AllOwnersStand where
  identified _ _ := rfl
  owners := by rintro key o ⟨⟩

/-- What is left of objects keeps standing, where no record goes. -/
theorem AllOwnersStand.of_left (h : m.AllOwnersStand)
    (hidentified : ∀ name, m'.recordUid name = none → m'.applied? name = none)
    (hrecords : ∀ name uid, m.recordUid name = some uid → m'.recordUid name = some uid)
    (hleft : ∀ key o', m'.object? key = some o' → ∃ o, m.object? key = some o ∧
      o'.metadata.owners.Sublist o.metadata.owners) : m'.AllOwnersStand where
  identified := hidentified
  owners key o' ho' := by
    obtain ⟨o, ho, hsub⟩ := hleft key o' ho'
    exact (h.owners key o ho).of_sublist hsub fun r _ name => hrecords name r.uid

theorem owners_of_remainder {r : TrackedResource} {live left : ApiObject} {n : Nat}
    (h : remainder uid r live = (some left, n)) :
    left.metadata.owners.Sublist live.metadata.owners := by
  unfold remainder afterRelease at h
  split at h
  · cases h
    exact List.Sublist.refl _
  split at h
  · cases h
  split at h
  · cases h
    exact List.Sublist.refl _
  · cases h
    exact List.filter_sublist

/-- What a release leaves has no more owners than before. -/
theorem exists_of_released {r : TrackedResource} {key : ObjectKey}
    (ho' : (m.released uid r).object? key = some o') :
    ∃ o, m.object? key = some o ∧ o'.metadata.owners.Sublist o.metadata.owners := by
  rw [object?_released] at ho'
  split at ho'
  · next hkey =>
      subst hkey
      unfold leftUnder at ho'
      cases hlive : m.object? (.ofTracked r) with
      | none =>
          rw [hlive] at ho'
          cases ho'
      | some live =>
          rw [hlive] at ho'
          exact ⟨live, rfl, owners_of_remainder (Prod.ext ho' rfl)⟩
  · exact ⟨o', ho', List.Sublist.refl _⟩

/-- When a record goes, so does it from the owners of every object. -/
theorem AllOwnersStand.deleteApplied (h : m.AllOwnersStand) (name : String) :
    (m.deleteApplied name).AllOwnersStand := by
  have hkept : ∀ other uid, name ≠ other → m.recordUid other = some uid →
      (m.deleteApplied name).recordUid other = some uid := by
    intro other uid hother huid
    rw [recordUid_deleteApplied, if_neg hother]
    exact huid
  constructor
  · intro other hnone
    rw [recordUid_deleteApplied] at hnone
    rw [applied?_deleteApplied]
    split
    · rfl
    · next hother =>
        rw [if_neg hother] at hnone
        exact h.identified other hnone
  · intro key o' ho'
    rw [object?_deleteApplied] at ho'
    cases hrecord : m.recordUid name with
    | none =>
        rw [hrecord] at ho'
        refine (h.owners key o' ho').of_sublist (List.Sublist.refl _) fun r _ other huid => ?_
        refine hkept other r.uid (fun e => ?_) huid
        rw [e, huid] at hrecord
        cases hrecord
    | some recorded =>
        rw [hrecord] at ho'
        obtain ⟨o, ho, rfl⟩ := Option.map_eq_some_iff.1 ho'
        obtain ⟨ho, -⟩ := Option.filter_eq_some_iff.1 ho
        refine (h.owners key o ho).of_sublist List.filter_sublist fun r hr other huid => ?_
        refine hkept other r.uid (fun e => ?_) huid
        rw [e, huid] at hrecord
        exact of_decide_eq_true (List.mem_filter.1 hr).2 (Option.some.inj hrecord)

/-- Objects that are adopted get an owner that is there. -/
theorem AllOwnersStand.adopted (h : m.AllOwnersStand)
    (hunowned : ∀ d ∈ documents, Manifest.Unowned d) {owner : OwnerReference}
    (howner : m.recordUid name = some owner.uid) (hadoption : Adoption owner documents m m') :
    m'.AllOwnersStand := by
  obtain ⟨d, hd, object, hdecode, place, hadopts⟩ := hadoption
  have hrecords : ∀ name, m'.recordUid name = m.recordUid name :=
    recordUid_of_applied_eq hadopts.records
  have hstill : ∀ {o}, m.OwnersStand o → m'.OwnersStand o := fun ho =>
    ho.of_sublist (List.Sublist.refl _) fun _ _ name huid => (hrecords name).trans huid
  refine ⟨fun other hnone => ?_, fun key o' ho' => ?_⟩
  · rw [applied?, hadopts.records]
    exact h.identified other ((hrecords other).symm.trans hnone)
  · by_cases hkey : key = place
    · subst hkey
      cases hbefore : m.object? key with
      | none =>
          obtain ⟨created, hcreated, howners⟩ := hadopts.created hbefore
          cases hcreated.symm.trans ho'
          rw [hunowned d hd object hdecode] at howners
          exact hstill (.of_single howner howners)
      | some o =>
          obtain ⟨kept, hkept, -, howners⟩ := hadopts.kept o hbefore
          cases hkept.symm.trans ho'
          exact hstill ((h.owners key o hbefore).of_withOwner howner howners)
    · rw [hadopts.elsewhere key hkey] at ho'
      exact hstill (h.owners key o' ho')

theorem AllOwnersStand.handling (h : m.AllOwnersStand)
    (hunowned : ∀ d ∈ documents, Manifest.Unowned d)
    (hstep : Handling name uid documents m m') : m'.AllOwnersStand := by
  have hsame : ∀ key o', m.object? key = some o' → ∃ o, m.object? key = some o ∧
      o'.metadata.owners.Sublist o.metadata.owners :=
    fun _ o' ho' => ⟨o', ho', List.Sublist.refl _⟩
  cases hstep with
  | recorded hname hcreate =>
      have hrecordUid := recordUid_createApplied hcreate
      obtain ⟨hfree, -, rfl⟩ := createApplied_eq_ok hcreate
      refine h.of_left (fun other hnone => ?_) (fun other u hu => ?_) hsame
      · rw [hrecordUid] at hnone
        split at hnone
        · cases hnone
        · next hother =>
            exact (applied?_putApplied _ _ _ _).trans <|
              (if_neg hother).trans (h.identified other hnone)
      · rw [hrecordUid, if_neg]
        · exact hu
        · intro e
          rw [recordUid, ← e, hfree] at hu
          cases hu
  | dropped => exact h.deleteApplied name
  | adopted hthere howner huid hadoption =>
      have hrecord : m.recordUid name = some _ :=
        Option.bind_eq_some_iff.2 ⟨_, hthere, AppliedWork.uid_of_ownerReference howner⟩
      exact h.adopted hunowned hrecord hadoption
  | released r =>
      refine h.of_left (fun other hnone => ?_) (fun other u hu => ?_) fun key o' => exists_of_released
      · rw [applied?, applied_released]
        exact h.identified other ((recordUid_released uid r other).symm.trans hnone)
      · exact (recordUid_released uid r other).trans hu
  | committed applied resources =>
      refine h.of_left (fun other hnone => ?_) (fun other u hu => ?_) fun key o' ho' => ?_
      · have hfree := h.identified other <|
          (recordUid_committed applied resources other).symm.trans hnone
        rcases committed_cases m applied resources with he | ⟨stored, hstored, -, he⟩ <;> rw [he]
        · exact hfree
        · rw [applied?_putApplied, if_neg]
          · exact hfree
          · intro e
            rw [e, hfree] at hstored
            cases hstored
      · exact (recordUid_committed applied resources other).trans hu
      · rw [object?_committed] at ho'
        exact hsame key o' ho'

theorem AllOwnersStand.handled (h : m.AllOwnersStand)
    (hunowned : ∀ d ∈ documents, Manifest.Unowned d)
    (hsteps : Handled name uid documents m m') : m'.AllOwnersStand := by
  induction hsteps with
  | refl => exact h
  | tail _ hstep ih => exact ih.handling hunowned hstep

theorem AllOwnersStand.removeObject (h : m.AllOwnersStand) (key : ObjectKey) :
    (m.removeObject key).AllOwnersStand := by
  refine h.of_left h.identified (fun _ _ hu => hu) fun key' o' ho' => ?_
  rw [object?_removeObject] at ho'
  split at ho'
  · cases ho'
  · exact ⟨o', ho', List.Sublist.refl _⟩

/-- Where each owner is listed once, the only owner is the one that is listed alone. -/
theorem isOnlyOwner_iff (honce : (o.metadata.owners.map OwnerReference.uid).Nodup) :
    isOnlyOwner uid o = true ↔ o.metadata.owners.map OwnerReference.uid = [uid] := by
  unfold isOnlyOwner ownersWithout
  cases howners : o.metadata.owners with
  | nil => simp
  | cons r rest =>
      rw [howners, List.map_cons, List.nodup_cons] at honce
      rw [List.isEmpty_cons, Bool.not_false, Bool.true_and, List.isEmpty_iff,
        List.filter_eq_nil_iff, List.map_cons]
      constructor
      · intro hall
        have huid : ∀ r' ∈ r :: rest, r'.uid = uid := fun r' hr' => by simpa using hall r' hr'
        have hrest : rest = [] := by
          refine List.eq_nil_iff_forall_not_mem.2 fun r' hr' => honce.1 (List.mem_map.2 ⟨r', hr', ?_⟩)
          rw [huid r' (List.mem_cons_of_mem _ hr'), huid r List.mem_cons_self]
        rw [hrest, huid r List.mem_cons_self]
        rfl
      · intro hmap r' hr'
        obtain ⟨huid, hrest⟩ := List.cons.inj hmap
        rw [List.map_eq_nil_iff.1 hrest] at hr'
        simpa [List.mem_singleton.1 hr'] using huid

/-- What the deletion of a record leaves: nothing of what it owned is owned by it, and gone is what it
owned alone. -/
structure TornDown (uid : String) (m m' : Member) : Prop where
  disowned : ∀ key o', ¬m'.Holds uid key o'
  gone_iff : ∀ key o, m.object? key = some o →
    (m'.object? key = none ↔ o.metadata.owners.map OwnerReference.uid = [uid])

/-- A record that is deleted is an owner of nothing any more. -/
theorem not_holds_deleteApplied (hrecord : m.recordUid name = some uid) (key : ObjectKey) :
    ¬(m.deleteApplied name).Holds uid key o := by
  rintro ⟨ho, r, hr, huid⟩
  rw [object?_deleteApplied, hrecord] at ho
  obtain ⟨live, -, rfl⟩ := Option.map_eq_some_iff.1 ho
  exact of_decide_eq_true (List.mem_filter.1 hr).2 huid

theorem tornDown_deleteApplied (h : m.AllOwnersStand) (hrecord : m.recordUid name = some uid) :
    TornDown uid m (m.deleteApplied name) := by
  constructor
  · exact fun key _ => not_holds_deleteApplied hrecord key
  · intro key o ho
    rw [object?_deleteApplied, hrecord, ho, ← isOnlyOwner_iff (h.owners key o ho).once]
    cases honly : isOnlyOwner uid o <;> simp [Option.filter, honly]

end InMemory.Member

namespace InMemory.World

open Member

variable {w w' : World}

/-- What happens to clusters: reconciles of Works whose manifests name no owners, one after another,
changes on the hub, and the removal of objects by others. -/
inductive Event : World → World → Prop where
  | turn {w w' : World} (h : Turn (fun _ documents => ∀ d ∈ documents, Manifest.Unowned d) w w') :
      Event w w'
  | removal {w : World} (key : ObjectKey) :
      Event w { w with member := w.member.removeObject key }

theorem Event.allOwnersStand (h : Event w w') (hplaced : w.member.Placed)
    (hstand : w.member.AllOwnersStand) : w'.member.Placed ∧ w'.member.AllOwnersStand := by
  cases h with
  | turn hturn =>
      refine ⟨hturn.placed hplaced, ?_⟩
      rcases hturn.handled hplaced with hsame | ⟨name, documents, hunowned, hhandled⟩
      · exact hsame ▸ hstand
      · exact hstand.handled hunowned hhandled
  | removal key => exact ⟨hplaced.removeObject key, hstand.removeObject key⟩

theorem allOwnersStand_of_events {kinds : List ResourceMapping}
    (hrun : ReflTransGen Event { kinds } w) : w.member.Placed ∧ w.member.AllOwnersStand := by
  induction hrun with
  | refl => exact ⟨placed_empty, allOwnersStand_empty⟩
  | tail _ hevent ih => exact hevent.allOwnersStand ih.1 ih.2

/-- In every world that comes of empty clusters the owners of objects are records that are there, each
listed once. A lifecycle reconcile that goes through on a terminating Work tears down what its record
owns, whichever copy of the Work it goes by. -/
theorem owners_stand_until_torn_down {kinds : List ResourceMapping}
    (hrun : ReflTransGen Event { kinds } w) :
    (∀ key o, w.member.object? key = some o → w.member.OwnersStand o) ∧
    ∀ {work : Work} {applied : AppliedWork} {fates : List Fate} {action : Action},
      Lifecycle.State.ofWork work = .terminating → w.member.applied? work.name = some applied →
      (w.attempt fates (Lifecycle.reconcile work).run).1 = some (.ok action) →
      ∃ uid, applied.metadata.uid = some uid ∧
        TornDown uid w.member (w.attempt fates (Lifecycle.reconcile work).run).2.1.member := by
  obtain ⟨-, hstand⟩ := allOwnersStand_of_events hrun
  refine ⟨hstand.owners, fun {work applied fates action} hterminating hthere hok => ?_⟩
  obtain ⟨uid, hrecord⟩ : ∃ uid, w.member.recordUid work.name = some uid := by
    refine Option.ne_none_iff_exists'.1 fun hnone => ?_
    cases hthere.symm.trans (hstand.identified work.name hnone)
  have hreaches : Reaches (fun _ => True) w (Lifecycle.reconcile work).run _ :=
    Lifecycle.reconcile_reaches work
  have hdeleted := (hreaches fates fun _ _ => trivial).2 action hok hterminating
  rw [hdeleted]
  refine ⟨uid, ?_, tornDown_deleteApplied hstand hrecord⟩
  rwa [recordUid, hthere] at hrecord

end InMemory.World

/-! ### A Work that comes and goes -/

namespace InMemory.Leaving

open World

def place : ObjectKey := ⟨"configmaps", "default", "m1"⟩

def arriving : Work :=
  { Demo.work with metadata := { Demo.work.metadata with finalizers := none } }

def leaving : Work :=
  { Demo.work with
    metadata := { Demo.work.metadata with deletionTimestamp := some Demo.epoch } }

def start : World where
  kinds := Demo.start.kinds

/-- The record is there, and then the reconcile was cut off. -/
def recorded : World := (start.attempt [.answered] (Lifecycle.reconcile arriving).run).2.1

def applied : World :=
  (recorded.attempt (List.replicate 4 .answered)
    (Apply.reconcile {} (fun _ => Demo.epoch) Demo.work).run).2.1

def marked : World := { applied with hub := ({} : Hub).put Demo.name leaving }

theorem unowned_configMap : Manifest.Unowned (Demo.configMap "m1") := by
  intro object hdecode
  have howners : (Manifest.decode? (Demo.configMap "m1")).map (fun o => o.metadata.owners) =
      .ok [] := rfl
  rw [hdecode] at howners
  exact Except.ok.inj howners

theorem run_marked : ReflTransGen Event start marked := by
  have hrecorded : Event start recorded :=
    .turn (.reconcile (.lifecycle arriving rfl) (by rintro d ⟨⟩) _)
  have happlied : Event recorded applied := by
    refine .turn (.reconcile (.apply {} (fun _ => Demo.epoch) Demo.work rfl) (fun d hd => ?_) _)
    rw [List.mem_singleton.1 hd]
    exact unowned_configMap
  exact .tail (.tail (.single hrecorded) happlied) (.turn (.hub _))

theorem torn_down_at_last : (∃ o, marked.member.Holds "aw-1" place o) ∧
    (marked.attempt [.answered, .answered] (Lifecycle.reconcile leaving).run).2.1.member.object?
      place = none := by
  have howners : (marked.member.object? place).map (fun o =>
      o.metadata.owners.map OwnerReference.uid) = some ["aw-1"] := rfl
  obtain ⟨o, ho, huids⟩ := Option.map_eq_some_iff.1 howners
  obtain ⟨record, hrecord, hrecordUid⟩ :
      ∃ record, marked.member.applied? "demo" = some record ∧ record.metadata.uid = some "aw-1" :=
    Option.bind_eq_some_iff.1 rfl
  have hterminating : Lifecycle.State.ofWork leaving = .terminating := rfl
  have hok : (marked.attempt [.answered, .answered] (Lifecycle.reconcile leaving).run).1 =
      some (.ok .awaitChange) := rfl
  obtain ⟨uid, huid, htorn⟩ := (owners_stand_until_torn_down run_marked).2 hterminating hrecord hok
  cases hrecordUid.symm.trans huid
  refine ⟨⟨o, ho, ?_⟩, (htorn.gone_iff place o ho).2 huids⟩
  exact List.mem_map.1 (huids ▸ List.mem_singleton_self "aw-1")

end InMemory.Leaving

end MemberAgent
