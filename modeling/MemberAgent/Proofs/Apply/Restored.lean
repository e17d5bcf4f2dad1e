import MemberAgent.Proofs.Apply.Accounting
import MemberAgent.Proofs.Apply.Stamped
import MemberAgent.Proofs.Ownership.Takeover

/-! What becomes of an object that others have edited when its manifest is applied again. Its owners
and what it is said to be are restored whatever has been done to it. Its content is restored too,
unless it was changed under the hash of the manifest: an object that bears this hash is taken at its
word. -/

namespace MemberAgent

open InMemory

namespace InMemory.Member

variable {m m' : Member}

/-! ### What others may do -/

/-- What is done to a member cluster other than by client calls. -/
inductive Edit (m : Member) : Member → Prop where
  | putObject (mapping : ResourceMapping) (object : ApiObject) : Edit m (m.putObject mapping object)
  | removeObject (key : ObjectKey) : Edit m (m.removeObject key)
  | seedApplied (applied : AppliedWork) (resources : List TrackedResource) :
      Edit m (m.seedApplied applied resources)
  | removeApplied (name : String) : Edit m (m.removeApplied name)
  | markAppliedDeleting (name : String) (now : Timestamp) : Edit m (m.markAppliedDeleting name now)
  | failDeletes (key : ObjectKey) : Edit m (m.failDeletes key)
  | healDeletes (key : ObjectKey) : Edit m (m.healDeletes key)

theorem Placed.putObject (hm : m.Placed) (mapping : ResourceMapping) (object : ApiObject) :
    (m.putObject mapping object).Placed := by
  unfold Member.putObject
  cases m.object? (.ofObject mapping object) with
  | none =>
      dsimp only
      split
      · next hcreate =>
          obtain ⟨-, rfl, rfl⟩ := createObject_eq_ok hcreate
          exact hm.put ⟨rfl, rfl⟩
      · exact hm
  | some live =>
      dsimp only
      split
      · next hreplace =>
          obtain ⟨_, -, -, -, rfl⟩ := write_eq_ok_iff.1 hreplace
          exact hm.put ⟨rfl, rfl⟩
      · exact hm

theorem Placed.edit (hm : m.Placed) (h : Edit m m') : m'.Placed := by
  cases h with
  | putObject mapping object => exact hm.putObject mapping object
  | removeObject key => exact hm.removeObject key
  | seedApplied | removeApplied | failDeletes | healDeletes => exact hm
  | markAppliedDeleting name now =>
      unfold markAppliedDeleting
      cases m.applied? name <;> exact hm

/-- Whatever others do, objects stand under their own namespaces and names. -/
theorem Placed.edits (hm : m.Placed) (h : Relation.ReflTransGen Edit m m') : m'.Placed := by
  induction h with
  | refl => exact hm
  | tail _ hedit ih => exact ih.edit hedit

end InMemory.Member

theorem Manifest.place_of_transcript {ordinal : Nat} {d : Json} {log : List Exchange} {r : Resolved}
    (h : (resolve ordinal d).Transcript log (.ok r)) :
    ObjectKey.ofObject r.mapping r.object = .ofIdentifier r.identifier := by
  cases Apply.resolve_lookup h with | mapped object hdecode mapping =>
  exact ofObject_place mapping (name_of_decode hdecode)

namespace Apply

open Manifest World

variable {owner : OwnerReference} {r : Resolved} {w w' : World} {c : ClientCall}
  {action : ApplyAction}

/-- An object that bears the hash of a manifest, over other content. -/
structure Disguised (r : Resolved) (o : ApiObject) : Prop where
  recorded : o.metadata.recordedHash = some r.object.contentHash
  changed : o.contentHash ≠ r.object.contentHash

/-- What the object of a manifest is like after that has gone through, by what was there before. -/
structure Restored (owner : OwnerReference) (r : Resolved) (seen : Option ApiObject)
    (live : ApiObject) : Prop where
  owners : live.metadata.owners = withOwner (seen.getD r.object).metadata.owners owner
  owned : live.IsOwnedBy owner.uid
  recorded : live.metadata.recordedHash = some r.object.contentHash
  content : live.contentHash = r.object.contentHash ↔ ∀ before, seen = some before →
    ¬Disguised r before

/-- The object of a manifest is there, and it is restored. -/
def Restores (owner : OwnerReference) (r : Resolved) (w w' : World) : Prop :=
  ∃ live, w'.member.object? (.ofIdentifier r.identifier) = some live ∧
    Restored owner r (w.member.object? (.ofIdentifier r.identifier)) live

/-! ### What is written -/

/-- An object that is written with the content of the manifest. -/
theorem restored_stamp (seen : Option ApiObject) (uid resourceVersion : Option String)
    (hseen : ∀ before, seen = some before →
      before.metadata.recordedHash ≠ some r.object.contentHash) :
    let owners := withOwner (seen.getD r.object).metadata.owners owner
    let stamped := stamp r.object r.object.contentHash owners
    Restored owner r seen { stamped with metadata := { stamped.metadata with
      uid := uid, resourceVersion := resourceVersion } } where
  owners := rfl
  owned := exists_mem_withOwner _ _
  recorded := r.object.recordedHash_stamp _ (withOwner (seen.getD r.object).metadata.owners owner)
  content := by
    refine iff_of_true ?_ fun before hbefore hdisguised => hseen before hbefore hdisguised.recorded
    exact (ApiObject.contentHash_rewritten _ uid resourceVersion _).trans
      (r.object.contentHash_stamp _ _)

/-- An object that bears the hash of the manifest keeps the content that it has. -/
theorem restored_kept {live : ApiObject}
    (hsame : live.metadata.recordedHash = some r.object.contentHash) {o : ApiObject}
    (howners : o.metadata.owners = withOwner live.metadata.owners owner)
    (hrecorded : o.metadata.recordedHash = live.metadata.recordedHash)
    (hcontent : o.contentHash = live.contentHash) : Restored owner r (some live) o where
  owners := howners
  owned := by
    rw [ApiObject.IsOwnedBy, howners]
    exact exists_mem_withOwner _ _
  recorded := hrecorded.trans hsame
  content := by
    rw [hcontent]
    constructor
    · rintro hcontent before hbefore hdisguised
      cases hbefore
      exact hdisguised.changed hcontent
    · intro hhonest
      exact not_not.1 fun hchanged => hhonest live rfl ⟨hsame, hchanged⟩

/-- What is written after a look at the object stands where the object was looked for, restored. -/
theorem Write.stores (hplaced : w.member.Placed)
    (hplace : ObjectKey.ofObject r.mapping r.object = .ofIdentifier r.identifier)
    (h : Write r owner (w.member.object? (.ofIdentifier r.identifier)) c action) {value : c.Value}
    (he : w.perform c = .ok (value, w')) : ∃ o' lastUid writes,
      w' = { w with member := { w.member.put (.ofIdentifier r.identifier) o' with
        lastUid := lastUid, writes := writes } } ∧
      ObjectKey.ofObject r.mapping o' = .ofIdentifier r.identifier ∧
      Restored owner r (w.member.object? (.ofIdentifier r.identifier)) o' := by
  generalize hseen : w.member.object? (.ofIdentifier r.identifier) = seen at h
  cases h with
  | create =>
      obtain ⟨member, hcreate, rfl⟩ := onMember_eq_ok he
      obtain ⟨-, rfl, rfl⟩ := Member.createObject_eq_ok hcreate
      rw [← hplace]
      refine ⟨_, _, _, rfl, rfl, restored_stamp none _ _ fun before hbefore => ?_⟩
      cases hbefore
  | addOwner live owners hsame howners =>
      obtain ⟨member, hpatch, rfl⟩ := onMember_map_eq_ok he
      obtain ⟨_, hpatched⟩ := Member.patchOwners_eq_ok_iff.1 hpatch
      obtain ⟨stored, hstored, -, -, rfl⟩ := Member.write_eq_ok_iff.1 hpatched
      -- The patch goes where the object calls itself, and that is where it was looked for.
      have hwhere := hplaced.ofObject_eq hseen (congrArg ObjectKey.resource hplace)
      cases (hwhere ▸ hstored).symm.trans hseen
      rw [← hwhere]
      refine ⟨_, _, _, rfl, rfl, restored_kept hsame ?_ rfl ?_⟩
      · rw [withOwner, howners]
        rfl
      · exact live.contentHash_rewritten ..
  | replace live hother =>
      obtain ⟨member, hreplace, rfl⟩ := onMember_eq_ok he
      obtain ⟨stored, hstored, -, -, rfl⟩ := Member.write_eq_ok_iff.1 hreplace
      rw [← hplace]
      refine ⟨_, _, _, rfl, rfl, restored_stamp (some live) _ _ fun before hbefore => ?_⟩
      cases hbefore
      exact hother

theorem Write.restores (hplaced : w.member.Placed)
    (hplace : ObjectKey.ofObject r.mapping r.object = .ofIdentifier r.identifier)
    (h : Write r owner (w.member.object? (.ofIdentifier r.identifier)) c action) {value : c.Value}
    (he : w.perform c = .ok (value, w')) : Restores owner r w w' := by
  obtain ⟨live, lastUid, writes, rfl, -, hrestored⟩ := h.stores hplaced hplace he
  exact ⟨live, (Member.object?_put ..).trans (if_pos rfl), hrestored⟩

/-- What is to be written after a look at the object can be written. -/
theorem Write.exists_performed (hplaced : w.member.Placed)
    (hplace : ObjectKey.ofObject r.mapping r.object = .ofIdentifier r.identifier)
    (h : Write r owner (w.member.object? (.ofIdentifier r.identifier)) c action) :
    ∃ value w', w.perform c = .ok (value, w') := by
  generalize hseen : w.member.object? (.ofIdentifier r.identifier) = seen at h
  cases h with
  | create => exact exists_created ((congrArg w.member.object? hplace).trans hseen)
  | addOwner live owners =>
      have hwhere := hplaced.ofObject_eq hseen (congrArg ObjectKey.resource hplace)
      exact ⟨(), exists_patched (hwhere.symm ▸ hseen) rfl owners⟩
  | replace live => exact exists_replaced ((congrArg w.member.object? hplace).trans hseen) rfl

/-! ### Whole applications -/

theorem restores_self {live : ApiObject}
    (hlive : w.member.object? (.ofIdentifier r.identifier) = some live)
    (hsame : live.metadata.recordedHash = some r.object.contentHash)
    (howned : mergeOwners live.metadata.owners owner = none) : Restores owner r w w := by
  refine ⟨live, hlive, ?_⟩
  rw [hlive]
  refine restored_kept hsame ?_ rfl rfl
  rw [withOwner, howned]
  rfl

/-- Whatever becomes of its calls, applying a manifest restores its object if it goes through. -/
theorem manifest_restores (owner : OwnerReference) (hplaced : w.member.Placed)
    (hplace : ObjectKey.ofObject r.mapping r.object = .ofIdentifier r.identifier) :
    Ends (fun _ => True) w (manifest r owner) (fun _ => True) fun _ w' => Restores owner r w w' := by
  obtain ⟨rest, hmanifest, hwrites⟩ := manifest_eq_write r owner
  rw [hmanifest]
  refine Ends.andThen (Ends.request_read (answer_getObject w hplace)) (fun _ _ => trivial)
    fun seen v hsame hseen => ?_
  subst v seen
  rcases hwrites (w.member.object? (.ofIdentifier r.identifier)) with
    ⟨live, hlive, hsame, howned, hrest⟩ | ⟨c, action, hwrite, hrest⟩ <;> rw [hrest]
  · exact Ends.pure trivial (restores_self hlive hsame howned)
  · have heffect : ∀ value w', w.perform c = .ok (value, w') → Restores owner r w w' :=
      fun value w' he => hwrite.restores hplaced hplace he
    refine Ends.andThen (Ends.request_of_perform heffect) (fun _ _ => trivial) fun _ v _ h => ?_
    exact Ends.pure trivial h

theorem manifest_goes (owner : OwnerReference) (hplaced : w.member.Placed)
    (hplace : ObjectKey.ofObject r.mapping r.object = .ofIdentifier r.identifier) :
    ∃ action, (w.run (manifest r owner).run).1 = .ok action := by
  obtain ⟨rest, hmanifest, hwrites⟩ := manifest_eq_write r owner
  rw [hmanifest, run_request_andThen (answer_getObject w hplace)]
  rcases hwrites (w.member.object? (.ofIdentifier r.identifier)) with
    ⟨_, -, -, -, hrest⟩ | ⟨c, action, hwrite, hrest⟩ <;> rw [hrest]
  · exact ⟨.unchanged, rfl⟩
  · obtain ⟨value, w', hperform⟩ := hwrite.exists_performed hplaced hplace
    rw [run_request_andThen (answer_of_perform hperform)]
    exact ⟨action, rfl⟩

/-- Applying a manifest goes through if it is not disturbed; and whenever it goes through, its object
is restored: it is owned, by the owner besides those that it had, and it has the content of the
manifest unless it had other content under the hash of the manifest. -/
theorem restored_unless_disguised {ordinal : Nat} {d : Json} {log : List Exchange}
    (hplaced : w.member.Placed) (hresolve : (resolve ordinal d).Transcript log (.ok r))
    (owner : OwnerReference) :
    (∃ action, (w.run (manifest r owner).run).1 = .ok action) ∧
      Restores owner r w (w.run (manifest r owner).run).2 ∧
      ∀ fates action, (w.attempt fates (manifest r owner).run).1 = some (.ok action) →
        Restores owner r w (w.attempt fates (manifest r owner).run).2.1 := by
  have hplace := place_of_transcript hresolve
  have hends := manifest_restores owner hplaced hplace
  obtain ⟨action, haction⟩ := manifest_goes owner hplaced hplace
  refine ⟨⟨action, haction⟩, ?_, fun fates action' hok => ?_⟩
  · exact (hends.run trivial).2 action (congrArg some haction)
  · exact (hends fates fun _ _ => trivial).2 action' hok

end Apply

/-! ### A config map that others have edited -/

namespace InMemory.Edited

open Apply World

def owner : OwnerReference := Shared.owner "demo" "aw-1"

theorem resolve_configMap : (Manifest.resolve 0 (Demo.configMap "m1")).Transcript
    [⟨.findMapping ⟨"", "v1", "ConfigMap"⟩, .ok (some Racing.resolved.mapping)⟩]
    (.ok Racing.resolved) := .call _ (.done _)

/-- The config map of another record, with data that its manifest does not declare. -/
def changed : ApiObject where
  types := Racing.resolved.object.types
  metadata := {
    Racing.resolved.object.metadata with
    ownerReferences := some [Shared.owner "other" "aw-2"] }
  content := Table.ofList [("data", .obj [("k", .str "edited")])]

theorem contentHash_changed : changed.contentHash ≠ Racing.resolved.object.contentHash := by
  decide +kernel

/-- The same under the hash of the manifest. -/
def disguised : ApiObject :=
  stamp changed Racing.resolved.object.contentHash [Shared.owner "other" "aw-2"]

/-- A world in which others have stored this object. -/
def edited (o : ApiObject) : World where
  member := ({} : Member).putObject Racing.resolved.mapping o

theorem placed_edited (o : ApiObject) : (edited o).member.Placed :=
  Member.placed_empty.edits (.single (.putObject Racing.resolved.mapping o))

/-- The hash is gone, so the content is restored; the owner joins the other one. -/
theorem restored_without_hash : ∃ live,
    ((edited changed).run (manifest Racing.resolved owner).run).2.member.object?
        ⟨"configmaps", "default", "m1"⟩ = some live ∧
      live.contentHash = Racing.resolved.object.contentHash ∧
      live.metadata.owners = [Shared.owner "other" "aw-2", owner] := by
  obtain ⟨-, ⟨live, hlive, hrestored⟩, -⟩ :=
    restored_unless_disguised (placed_edited changed) resolve_configMap owner
  refine ⟨live, hlive, hrestored.content.2 fun before hbefore hdisguised => ?_, hrestored.owners⟩
  cases hbefore
  exact Option.some_ne_none _ hdisguised.recorded.symm

/-- The hash is that of the manifest, so the edit stays. -/
theorem unrestored_under_hash : ¬ ∀ (w : World) (ordinal : Nat) (d : Json) (log : List Exchange)
    (r : Manifest.Resolved) (owner : OwnerReference) (action : ApplyAction), w.member.Placed →
    (Manifest.resolve ordinal d).Transcript log (.ok r) →
    (w.run (manifest r owner).run).1 = .ok action →
    ∃ live, (w.run (manifest r owner).run).2.member.object? (.ofIdentifier r.identifier) =
      some live ∧ live.contentHash = r.object.contentHash ∧ live.IsOwnedBy owner.uid := by
  intro hclaim
  have hplaced := placed_edited disguised
  have hplace := Manifest.place_of_transcript resolve_configMap
  obtain ⟨action, hok⟩ := manifest_goes owner hplaced hplace
  obtain ⟨live, hlive, hcontent, -⟩ := hclaim _ _ _ _ _ owner action hplaced resolve_configMap hok
  obtain ⟨live', hlive', hrestored⟩ :=
    ((manifest_restores owner hplaced hplace).run trivial).2 action (congrArg some hok)
  cases hlive.symm.trans hlive'
  refine hrestored.content.1 hcontent _ rfl ⟨?_, ?_⟩
  · exact changed.recordedHash_stamp _ [Shared.owner "other" "aw-2"]
  · intro hsame
    refine contentHash_changed (Eq.trans ?_ hsame)
    exact (changed.contentHash_stamp _ [Shared.owner "other" "aw-2"]).symm

end InMemory.Edited

end MemberAgent
