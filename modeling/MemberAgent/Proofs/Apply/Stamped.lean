import MemberAgent.Proofs.InMemory.Crowd
import MemberAgent.Proofs.Ownership.Teardown

/-! The annotation with the hash. A stored object differs from the one whose hash was taken: it has the
annotation, and it is given a uid, a version and owners, which change as it is shared and released. All
of that is left out of the hash, so the annotation goes on to tell the hash of the object that has
it. -/

namespace MemberAgent

open InMemory Relation

/-- Leaving out the hash leaves out the one that was put in, and the table if that was all. -/
theorem withoutHash_insert (annotations : Option (Table String String)) (hash : String) :
    withoutHash ((annotations.getD ∅).insert hashAnnotation hash) = annotations.bind withoutHash := by
  have herase : ((annotations.getD ∅).insert hashAnnotation hash).erase hashAnnotation =
      (annotations.getD ∅).erase hashAnnotation := by
    refine Table.ext_get? fun key => ?_
    simp only [Table.get?_erase, Table.get?_insert]
    split <;> rfl
  rw [withoutHash, herase]
  cases annotations <;> rfl

namespace ApiObject

/-- Whether the annotation tells the hash of the object itself. -/
def IsStamped (o : ApiObject) : Prop := o.metadata.recordedHash = some o.contentHash

/-- The hash does not tell who owns an object and in which version it is stored. -/
theorem contentHash_rewritten (o : ApiObject) (uid resourceVersion : Option String)
    (owners : Option (List OwnerReference)) :
    { o with metadata := { o.metadata with
        uid := uid, resourceVersion := resourceVersion, ownerReferences := owners } }.contentHash =
      o.contentHash := rfl

theorem IsStamped.rewritten {o : ApiObject} (h : o.IsStamped) (uid resourceVersion : Option String)
    (owners : Option (List OwnerReference)) :
    { o with metadata := { o.metadata with
        uid := uid, resourceVersion := resourceVersion
        ownerReferences := owners } }.IsStamped :=
  (show _ = some _ from h).trans (congrArg some (contentHash_rewritten o ..).symm)

/-- The hash does not tell whether it is noted on the object. -/
theorem contentHash_stamp (o : ApiObject) (hash : String) (owners : List OwnerReference) :
    (Apply.stamp o hash owners).contentHash = o.contentHash := by
  have hdesired : (Apply.stamp o hash owners).metadata.desired = o.metadata.desired := by
    simp only [ObjectMeta.desired, Apply.stamp, Option.bind_some, withoutHash_insert]
  rw [contentHash, contentText, hdesired]
  rfl

theorem recordedHash_stamp (o : ApiObject) (hash : String) (owners : List OwnerReference) :
    (Apply.stamp o hash owners).metadata.recordedHash = some hash :=
  (Table.get?_insert ..).trans (if_pos rfl)

theorem isStamped_stamp (o : ApiObject) (owners : List OwnerReference) :
    (Apply.stamp o o.contentHash owners).IsStamped := by
  rw [IsStamped, contentHash_stamp, recordedHash_stamp]

end ApiObject

namespace InMemory.Member

/-- Every object has the annotation, and it tells the hash of the object. -/
def AllStamped (m : Member) : Prop := ∀ key o, m.object? key = some o → o.IsStamped

namespace AllStamped

variable {m m' : Member}

theorem put (hm : m.AllStamped) (key : ObjectKey) {o : ApiObject} (ho : o.IsStamped) :
    (m.put key o).AllStamped := by
  intro key' o' ho'
  rw [object?_put] at ho'
  split at ho'
  · cases ho'
    exact ho
  · exact hm key' o' ho'

theorem removeObject (hm : m.AllStamped) (key : ObjectKey) : (m.removeObject key).AllStamped := by
  intro key' o ho
  rw [object?_removeObject] at ho
  split at ho
  · cases ho
  · exact hm key' o ho

/-- What is collected goes, and what stays loses an owner. -/
theorem deleteApplied (hm : m.AllStamped) (name : String) : (m.deleteApplied name).AllStamped := by
  intro key o ho
  rw [object?_deleteApplied] at ho
  cases hrecord : m.recordUid name with
  | none =>
      rw [hrecord] at ho
      exact hm key o ho
  | some uid =>
      rw [hrecord] at ho
      obtain ⟨before, hbefore, rfl⟩ := Option.map_eq_some_iff.1 ho
      have hstamped := hm key before (Option.filter_eq_some_iff.1 hbefore).1
      exact hstamped.rewritten before.metadata.uid before.metadata.resourceVersion _

/-- A write leaves stamped what the change makes stamped. -/
theorem write (hm : m.AllStamped) {mapping : ResourceMapping} {observed changed : ApiObject}
    {change : ApiObject → ApiObject} (hwrite : m.write mapping observed change = .ok (changed, m'))
    (hchange : ∀ stored, stored.IsStamped → (change stored).IsStamped) : m'.AllStamped := by
  obtain ⟨stored, hstored, -, -, rfl⟩ := write_eq_ok_iff.1 hwrite
  exact hm.put _ (hchange stored (hm _ stored hstored))

end AllStamped

end InMemory.Member

/-- The calls that store no object but a stamped one. -/
def ClientCall.StoresStamped : ClientCall → Prop
  | .createObject _ object | .replaceObject _ object => object.IsStamped
  | _ => True

namespace InMemory.World

variable {w w' : World} {c : ClientCall}

theorem stamped_perform {value : c.Value} (hc : c.StoresStamped) (hw : w.member.AllStamped)
    (he : w.perform c = .ok (value, w')) : w'.member.AllStamped := by
  cases c with
  | getWork | getAppliedWork | getObject | getTracked | findMapping =>
      cases he
      exact hw
  | patchWorkStatus | addFinalizer | removeFinalizer =>
      obtain ⟨hub, -, rfl⟩ := onHub_eq_ok he
      exact hw
  | createAppliedWork =>
      obtain ⟨member, hcreate, rfl⟩ := onMember_eq_ok he
      obtain ⟨-, -, rfl⟩ := Member.createApplied_eq_ok hcreate
      exact hw
  | deleteAppliedWork name =>
      cases he
      exact hw.deleteApplied name
  | updateResources =>
      obtain ⟨member, hupdate, rfl⟩ := onMember_map_eq_ok he
      obtain ⟨_, -, -, rfl⟩ := Member.updateResources_eq_ok_iff.1 hupdate
      exact hw
  | createObject mapping object =>
      obtain ⟨member, hcreate, rfl⟩ := onMember_eq_ok he
      obtain ⟨-, rfl, rfl⟩ := Member.createObject_eq_ok hcreate
      have hobject : object.IsStamped := hc
      exact hw.put _ (hobject.rewritten _ _ object.metadata.ownerReferences)
  | replaceObject mapping object =>
      obtain ⟨member, hreplace, rfl⟩ := onMember_eq_ok he
      have hobject : object.IsStamped := hc
      exact hw.write hreplace fun _ _ => hobject.rewritten _ _ object.metadata.ownerReferences
  | patchOwners =>
      obtain ⟨member, hpatch, rfl⟩ := onMember_map_eq_ok he
      obtain ⟨_, hwrite⟩ := Member.patchOwners_eq_ok_iff.1 hpatch
      exact hw.write hwrite fun stored hstored => hstored.rewritten stored.metadata.uid _ _
  | deleteTracked r =>
      obtain ⟨member, hdelete, rfl⟩ := onMember_eq_ok he
      rcases Member.deleteTracked_eq_ok hdelete with rfl | rfl
      · exact hw
      · exact hw.removeObject (.ofTracked r)

theorem stamped_meet (fate : Fate) (hc : c.StoresStamped) (hw : w.member.AllStamped) :
    (w.meet fate c).2.member.AllStamped := by
  rcases meet_world w fate c with h | h <;> rw [h]
  · exact hw
  rcases answer_cases w c with ⟨failure, -, h⟩ | ⟨value, w', hperform, h⟩ <;> rw [h]
  · exact hw
  · exact stamped_perform hc hw hperform

end InMemory.World

open Reconcile

/-- What applying a manifest stores is stamped, whatever its document has in place of the stamp. -/
theorem Apply.manifest_storesStamped (resolved : Manifest.Resolved) (owner : OwnerReference) :
    OnlyCalls ClientCall.StoresStamped (manifest resolved owner) := by
  refine OnlyCalls.bind (OnlyCalls.request trivial) ?_
  rintro (_ | live)
  · exact OnlyCalls.bind (OnlyCalls.request (resolved.object.isStamped_stamp _))
      fun _ => OnlyCalls.pure _
  · dsimp only
    split
    · cases mergeOwners live.metadata.owners owner with
      | none => exact OnlyCalls.pure _
      | some owners => exact OnlyCalls.bind (OnlyCalls.request trivial) fun _ => OnlyCalls.pure _
    · have hstamped := resolved.object.isStamped_stamp (withOwner live.metadata.owners owner)
      refine OnlyCalls.bind (OnlyCalls.request ?_) fun _ => OnlyCalls.pure _
      exact hstamped.rewritten _ live.metadata.resourceVersion _

namespace InMemory

theorem ReconcileOf.storesStamped {name : String} {documents : List Json} {p : Running}
    (hp : ReconcileOf name documents p) :
    p.OnlyCalls (I := clientCalls) ClientCall.StoresStamped := by
  have hsync : ∀ c, Tracking.SyncCall c → c.StoresStamped := by
    intro c hc
    cases c <;> first | exact hc.elim | trivial
  cases hp with
  | lifecycle w =>
      refine (Lifecycle.reconcile_onlyCalls w).mono fun c hc => ?_
      cases c <;> first | exact hc.elim | trivial
  | apply settings clock w =>
      exact Apply.reconcile_onlyCalls_of (fun _ => trivial) Apply.manifest_storesStamped
        (fun _ => trivial) (fun _ _ => trivial) settings clock w
  | tracking settings w => exact (Tracking.reconcile_onlyCalls settings w).mono hsync
  | monitor settings applied => exact (Monitor.reconcile_onlyCalls settings applied).mono hsync

namespace Crowd

variable {ι : Type} [DecidableEq ι] {s s' : Crowd ι (Except Failure Action)}

/-- Any reconciles side by side, each of which may start over at any time, while others delete objects
and change all else: the hub, the table of kinds, the records, and which deletions fail. -/
inductive Event : Crowd ι (Except Failure Action) → Crowd ι (Except Failure Action) → Prop where
  | starts {s : Crowd ι (Except Failure Action)} {name : String} {documents : List Json}
      {p : Running} (i : ι) (hp : ReconcileOf name documents p) :
      Event s { s with left := Function.update s.left i p }
  | calls {s s' : Crowd ι (Except Failure Action)} (h : Step (fun _ => True) s s') : Event s s'
  | removed {s : Crowd ι (Except Failure Action)} (key : ObjectKey) :
      Event s { s with world := { s.world with member := s.world.member.removeObject key } }
  | others {s : Crowd ι (Except Failure Action)} (world : World)
      (hobjects : world.member.objects = s.world.member.objects) : Event s { s with world }

/-- All objects are stamped, and so is what the reconciles under way are going to store. -/
structure Stamped (s : Crowd ι (Except Failure Action)) : Prop where
  objects : s.world.member.AllStamped
  stores : ∀ i, (s.left i).OnlyCalls (I := clientCalls) ClientCall.StoresStamped

theorem Event.stamped (h : Event s s') (hs : s.Stamped) : s'.Stamped := by
  cases h with
  | starts i hp =>
      refine ⟨hs.objects, (Function.forall_update_iff s.left fun _ p => p.OnlyCalls
        (I := clientCalls) ClientCall.StoresStamped).2 ⟨hp.storesStamped, fun j _ => hs.stores j⟩⟩
  | calls hstep =>
      have hkeeps : ∀ w fate c, True → ClientCall.StoresStamped c → w.member.AllStamped →
          (World.meet w fate c).2.member.AllStamped := fun _ fate _ _ => World.stamped_meet fate
      obtain ⟨hobjects, hstores⟩ := hstep.keeps hkeeps hs.objects hs.stores
      exact ⟨hobjects, hstores⟩
  | removed key => exact ⟨hs.objects.removeObject key, hs.stores⟩
  | others world hobjects =>
      refine ⟨fun key o ho => hs.objects key o ?_, hs.stores⟩
      rw [← ho, Member.object?, Member.object?, hobjects]

theorem Stamped.run (h : ReflTransGen Event s s') (hs : s.Stamped) : s'.Stamped := by
  induction h with
  | refl => exact hs
  | tail _ hevent ih => exact hevent.stamped ih

/-- Where reconciles begin without objects, every object has the hash of itself in its annotation,
however their calls interleave and whatever becomes of them. -/
theorem stamped_throughout (hidle : ∀ i, ∃ result, s.left i = .done result)
    (hempty : ∀ key, s.world.member.object? key = none) (h : ReflTransGen Event s s')
    {key : ObjectKey} {o : ApiObject} (ho : s'.world.member.object? key = some o) :
    o.metadata.recordedHash = some o.contentHash := by
  have hstart : s.Stamped := by
    refine ⟨fun key o ho => ?_, fun i => ?_⟩
    · cases (hempty key).symm.trans ho
    · obtain ⟨result, hdone⟩ := hidle i
      rw [hdone]
      trivial
  exact (hstart.run h).objects key o ho

end Crowd

/-! ### A manifest that brings an annotation of its own -/

namespace Annotated

def manifest : Json :=
  .obj [("apiVersion", .str "v1"), ("kind", .str "ConfigMap"),
    ("metadata", .obj [("name", .str "m1"), ("namespace", .str "default"),
      ("annotations", .obj [( hashAnnotation, .str "stale")])]),
    ("status", .obj [])]

def work : Work := { Demo.work with manifests := [manifest] }

def apply : Running := (Apply.reconcile {} (fun _ => Demo.epoch) work).run

def idle (w : World) : Crowd Unit (Except Failure Action) := ⟨w, fun _ => .done (.ok .awaitChange)⟩

theorem stamped_after_stale_annotation : ∃ o,
    (Demo.start.run apply).2.member.object? ⟨"configmaps", "default", "m1"⟩ = some o ∧
      o.metadata.recordedHash = some o.contentHash := by
  have happly : ReconcileOf "demo" [manifest] apply := .apply {} (fun _ => Demo.epoch) work rfl
  have hrun : ReflTransGen (Crowd.Step fun _ => True) _ _ :=
    Crowd.steps_run trivial Demo.start (idle Demo.start).left () apply
  have hevents : ReflTransGen Crowd.Event (idle Demo.start) _ :=
    .head (.starts () happly) (hrun.lift id fun _ _ => .calls)
  have hthere : ((Demo.start.run apply).2.member.object?
      ⟨"configmaps", "default", "m1"⟩).isSome = true := rfl
  obtain ⟨o, ho⟩ := Option.isSome_iff_exists.1 hthere
  exact ⟨o, ho, Crowd.stamped_throughout (fun _ => ⟨_, rfl⟩) (fun _ => rfl) hevents ho⟩

end Annotated

end InMemory

end MemberAgent
