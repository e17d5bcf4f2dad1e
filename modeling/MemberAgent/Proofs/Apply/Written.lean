import MemberAgent.Proofs.Apply.Reported
import MemberAgent.Proofs.Tracking.Released

/-! What applying manifests does to a member cluster. A manifest that goes through leaves its object
owned, and it is the same object as before if there was one; one that fails changes nothing. -/

namespace MemberAgent

open InMemory

/-- Whether an object has an owner of this uid. -/
def ApiObject.IsOwnedBy (o : ApiObject) (uid : String) : Prop := ∃ r ∈ o.metadata.owners, r.uid = uid

theorem isOwned_of_mergeOwners {existing : List OwnerReference} {owner : OwnerReference}
    (h : mergeOwners existing owner = none) : ∃ r ∈ existing, r.uid = owner.uid := by
  unfold mergeOwners at h
  split at h
  · next hany =>
      obtain ⟨r, hr, huid⟩ := List.any_eq_true.1 hany
      exact ⟨r, hr, of_decide_eq_true huid⟩
  · cases h

theorem mergeOwners_eq_some {existing owners : List OwnerReference} {owner : OwnerReference}
    (h : mergeOwners existing owner = some owners) : owners = existing ++ [owner] := by
  unfold mergeOwners at h
  split at h
  · cases h
  · cases h
    rfl

/-- The owner is among the owners, as itself or under another name. -/
theorem exists_mem_withOwner (existing : List OwnerReference) (owner : OwnerReference) :
    ∃ r ∈ withOwner existing owner, r.uid = owner.uid := by
  unfold withOwner
  cases h : mergeOwners existing owner with
  | none => exact isOwned_of_mergeOwners h
  | some owners =>
      rw [mergeOwners_eq_some h]
      exact ⟨owner, List.mem_append_right _ (List.mem_singleton_self _), rfl⟩

namespace InMemory.World

/-- What writing under some keys for an owner does: the objects there are owned, and those that were
there before are still the same ones. Everything else stays as it is. -/
structure Writes (uid : String) (keys : List ObjectKey) (w w' : World) : Prop where
  hub : w'.hub = w.hub
  kinds : w'.kinds = w.kinds
  records : w'.member.applied = w.member.applied
  placed : w'.member.Placed
  elsewhere : ∀ key, key ∉ keys → w'.member.object? key = w.member.object? key
  owned : ∀ key ∈ keys, ∃ o', w'.member.object? key = some o' ∧ o'.IsOwnedBy uid ∧
    ∀ o, w.member.object? key = some o → o'.metadata.uid = o.metadata.uid

namespace Writes

variable {uid : String} {keys keys' : List ObjectKey} {w w' w'' : World}

theorem nothing (hplaced : w.member.Placed) : Writes uid [] w w where
  hub := rfl
  kinds := rfl
  records := rfl
  placed := hplaced
  elsewhere _ _ := rfl
  owned := by rintro key ⟨⟩

theorem append (h : Writes uid keys w w') (h' : Writes uid keys' w' w'') :
    Writes uid (keys ++ keys') w w'' where
  hub := h'.hub.trans h.hub
  kinds := h'.kinds.trans h.kinds
  records := h'.records.trans h.records
  placed := h'.placed
  elsewhere key hkey := by
    rw [List.mem_append, not_or] at hkey
    rw [h'.elsewhere key hkey.2, h.elsewhere key hkey.1]
  owned key hkey := by
    by_cases hlater : key ∈ keys'
    · obtain ⟨o'', ho'', howned, hsame⟩ := h'.owned key hlater
      refine ⟨o'', ho'', howned, fun o ho => ?_⟩
      by_cases hfirst : key ∈ keys
      · obtain ⟨o', ho', -, hsame'⟩ := h.owned key hfirst
        rw [hsame o' ho', hsame' o ho]
      · exact hsame o ((h.elsewhere key hfirst).trans ho)
    · obtain ⟨o', ho', howned, hsame⟩ := h.owned key ((List.mem_append.1 hkey).resolve_right hlater)
      exact ⟨o', (h'.elsewhere key hlater).trans ho', howned, hsame⟩

/-- An object that is there and owned need not be written. -/
theorem unchanged {key : ObjectKey} {o : ApiObject} (hplaced : w.member.Placed)
    (ho : w.member.object? key = some o) (howned : o.IsOwnedBy uid) : Writes uid [key] w w where
  hub := rfl
  kinds := rfl
  records := rfl
  placed := hplaced
  elsewhere _ _ := rfl
  owned key' hkey' := by
    rw [List.mem_singleton.1 hkey']
    refine ⟨o, ho, howned, fun o' ho' => ?_⟩
    rw [Option.some.inj (ho.symm.trans ho')]

/-- An object that is put under its own key. -/
theorem put {key key' : ObjectKey} {o' : ApiObject} (hkey : key' = key) (hplaced : w.member.Placed)
    (hplace : o'.metadata.namespace.getD "" = key.namespace ∧ o'.metadata.anyName = key.name)
    (howned : o'.IsOwnedBy uid)
    (hsame : ∀ o, w.member.object? key = some o → o'.metadata.uid = o.metadata.uid)
    (lastUid writes : Nat) :
    Writes uid [key] w
      { w with member := { w.member.put key' o' with lastUid := lastUid, writes := writes } } := by
  subst hkey
  have hobject : ∀ key, (w.member.put key' o').object? key =
      if key' = key then some o' else w.member.object? key := fun key => Member.object?_put _ _ _ _
  refine ⟨rfl, rfl, rfl, fun key o ho => ?_, fun key hkey => ?_, fun key hkey => ?_⟩
  · have hput := (hobject key).symm.trans ho
    split at hput
    · next e =>
        cases hput
        exact e ▸ hplace
    · exact hplaced key o hput
  · exact (hobject key).trans (if_neg fun e => hkey (List.mem_singleton.2 e.symm))
  · rw [List.mem_singleton.1 hkey]
    exact ⟨o', (hobject key').trans (if_pos rfl), howned, hsame⟩

end Writes

open Apply

variable {α : Type} {uid : String} {keys : List ObjectKey} {w : World}

/-- An undisturbed program that writes or fails. -/
def WritesOrFails (uid : String) (keys : List ObjectKey) (w : World) (p : Reconcile α) : Prop :=
  (∃ a w', w.run p.run = (.ok a, w') ∧ Writes uid keys w w') ∨
    ∃ failure, w.run p.run = (.error failure, w)

/-- A call that writes if it succeeds. -/
theorem writesOrFails_request {c : ClientCall} (f : c.Value → α)
    (hwrites : ∀ value w', w.perform c = .ok (value, w') → Writes uid keys w w') :
    WritesOrFails uid keys w (do return f (← request c)) := by
  rcases answer_cases w c with ⟨failure, -, hanswer⟩ | ⟨value, w', hperform, hanswer⟩
  · exact Or.inr ⟨failure, run_andThen_error (x := request c) hanswer _⟩
  · refine Or.inl ⟨f value, w', ?_, hwrites value w' hperform⟩
    rw [run_request_andThen hanswer]
    rfl

end InMemory.World

namespace Manifest

/-- Whether the identifier says where the object is stored, and names a resource. -/
structure Resolved.IsSettled (r : Resolved) : Prop where
  place : ObjectKey.ofObject r.mapping r.object = .ofIdentifier r.identifier
  resolved : r.identifier.isResolved

theorem anyName_of_name {m : ObjectMeta} (h : (m.name.getD "").isEmpty = false) :
    m.anyName = m.name.getD "" := by
  cases hname : m.name with
  | none => rw [hname] at h; cases h
  | some name => rw [ObjectMeta.anyName, hname]; rfl

theorem name_of_decode? {document : Json} {object : ApiObject}
    (h : decode? document = .ok object) : (object.metadata.name.getD "").isEmpty = false := by
  unfold decode? at h
  simp only [bind, Except.bind, pure, Except.pure, throw, throwThe, MonadExceptOf.throw] at h
  -- the checks that fail throw, and the last one of those that pass is on the name
  repeat' split at h
  all_goals cases h
  next hnamed => exact Bool.eq_false_iff.2 hnamed

/-- A document that can be decoded names its object. -/
theorem name_of_decode {ordinal : Nat} {document : Json} {object : ApiObject}
    (h : decode ordinal document = .ok object) : (object.metadata.name.getD "").isEmpty = false := by
  unfold decode at h
  cases hdecode : decode? document with
  | error fault => rw [hdecode] at h; cases h
  | ok decoded =>
      rw [hdecode] at h
      cases h
      exact name_of_decode? hdecode

/-- An object that is named is written where its identifier says. -/
theorem ofObject_place {ordinal : Nat} {object : ApiObject} (mapping : ResourceMapping)
    (hnamed : (object.metadata.name.getD "").isEmpty = false) :
    ObjectKey.ofObject (place object (identify ordinal object) mapping).mapping
        (place object (identify ordinal object) mapping).object =
      .ofIdentifier (place object (identify ordinal object) mapping).identifier := by
  have hname := anyName_of_name hnamed
  unfold place
  split
  · show (⟨_, _, object.metadata.anyName⟩ : ObjectKey) = _
    rw [hname]
    rfl
  · show (⟨_, _, object.metadata.anyName⟩ : ObjectKey) = _
    rw [hname]
    rfl

theorem isSettled_place {ordinal : Nat} {object : ApiObject} {mapping : ResourceMapping}
    (hnamed : (object.metadata.name.getD "").isEmpty = false)
    (hserved : mapping.plural.isEmpty = false) :
    (place object (identify ordinal object) mapping).IsSettled := by
  refine ⟨ofObject_place mapping hnamed, ?_⟩
  have hresolved : ∀ i : ResourceIdentifier, i.resource = mapping.plural →
      i.name = object.metadata.name.getD "" → i.isResolved := by
    intro i hresource hi
    rw [ResourceIdentifier.isResolved, hresource, hi, hserved, hnamed]
    rfl
  unfold place
  split
  · exact hresolved _ rfl rfl
  · exact hresolved _ rfl rfl

/-- Resolving a document changes nothing. -/
theorem run_resolve {w : World} (hserved : ∀ m ∈ w.kinds, m.plural.isEmpty = false) (ordinal : Nat)
    (document : Json) : (∃ unresolved, w.run (resolve ordinal document) = (.error unresolved, w)) ∨
      ∃ r : Resolved, r.IsSettled ∧ w.run (resolve ordinal document) = (.ok r, w) := by
  unfold resolve
  cases hdecode : decode ordinal document with
  | error failure => exact Or.inl ⟨_, rfl⟩
  | ok object =>
      have hfind : ∀ kind, w.run (attempt (request (.findMapping kind))) =
          (.ok (w.mapping? kind), w) := fun _ => rfl
      dsimp only
      rw [World.run_bind, hfind]
      dsimp only
      cases hmapping : w.mapping? (identify ordinal object).lookupKind with
      | none => exact Or.inl ⟨_, rfl⟩
      | some mapping =>
          have hmem : mapping ∈ w.kinds := List.mem_of_find?_eq_some hmapping
          exact Or.inr ⟨_, isSettled_place (name_of_decode hdecode) (hserved mapping hmem), rfl⟩

end Manifest

namespace Apply

open World

variable {w : World} {r : Manifest.Resolved}

/-- Applying a manifest leaves its object owned, or it fails. -/
theorem writesOrFails_manifest (owner : OwnerReference) (hplaced : w.member.Placed)
    (hsettled : r.IsSettled) :
    WritesOrFails owner.uid [.ofIdentifier r.identifier] w (manifest r owner) := by
  have hresource : r.mapping.plural = r.identifier.resource :=
    congrArg ObjectKey.resource hsettled.place
  have hget : w.answer (.getObject r.mapping r.identifier.namespace r.identifier.name) =
      (.ok (w.member.object? (.ofIdentifier r.identifier)), w) := by
    rw [ObjectKey.ofIdentifier, ← hresource]
    rfl
  unfold WritesOrFails manifest
  rw [run_request_andThen hget]
  cases hlive : w.member.object? (.ofIdentifier r.identifier) with
  | none =>
      refine writesOrFails_request (fun _ => ApplyAction.created) fun created w' hperform => ?_
      obtain ⟨member, hcreate, rfl⟩ := onMember_eq_ok hperform
      obtain ⟨-, hcreated, rfl⟩ := Member.createObject_eq_ok hcreate
      refine Writes.put hsettled.place hplaced ?_ ?_ (fun o ho => ?_) _ _
      · rw [← hsettled.place, hcreated]
        exact ⟨rfl, rfl⟩
      · rw [hcreated]
        exact exists_mem_withOwner _ _
      · rw [hlive] at ho
        cases ho
  | some live =>
      dsimp only
      split
      · cases hmerge : mergeOwners live.metadata.owners owner with
        | none =>
            have howned : live.IsOwnedBy owner.uid := isOwned_of_mergeOwners hmerge
            exact Or.inl ⟨_, w, rfl, .unchanged hplaced hlive howned⟩
        | some owners =>
            refine writesOrFails_request (fun _ => ApplyAction.ownerAdded) fun _ w' hperform => ?_
            obtain ⟨member, hpatch, rfl⟩ := onMember_map_eq_ok hperform
            obtain ⟨o, hwrite⟩ := Member.patchOwners_eq_ok_iff.1 hpatch
            obtain ⟨stored, hstored, -, -, rfl⟩ := Member.write_eq_ok_iff.1 hwrite
            have hkey := hplaced.ofObject_eq hlive hresource
            rw [hkey, hlive] at hstored
            cases hstored
            refine Writes.put hkey hplaced ?_ ?_ (fun o ho => ?_) _ _
            · exact hplaced _ live hlive
            · rw [mergeOwners_eq_some hmerge]
              exact ⟨owner, List.mem_append_right _ (List.mem_singleton_self _), rfl⟩
            · cases hlive.symm.trans ho
              rfl
      · refine writesOrFails_request (fun _ => ApplyAction.updated) fun _ w' hperform => ?_
        obtain ⟨member, hreplace, rfl⟩ := onMember_eq_ok hperform
        obtain ⟨stored, hstored, -, -, rfl⟩ := Member.write_eq_ok_iff.1 hreplace
        have hstored : w.member.object? (.ofIdentifier r.identifier) = some stored :=
          hsettled.place ▸ hstored
        cases hlive.symm.trans hstored
        refine Writes.put hsettled.place hplaced ?_ ?_ (fun o ho => ?_) _ _
        · rw [← hsettled.place]
          exact ⟨rfl, rfl⟩
        · exact exists_mem_withOwner _ _
        · cases hlive.symm.trans ho
          rfl

theorem places_append (outcomes others : List Outcome) :
    places (outcomes ++ others) = places outcomes ++ places others := by
  simp only [places, List.filter_append, List.map_append]

/-- Applying documents leaves the objects of those that went through owned, and these name their
resources. -/
theorem run_document (hplaced : w.member.Placed)
    (hserved : ∀ m ∈ w.kinds, m.plural.isEmpty = false) (owner : OwnerReference) (ordinal : Nat)
    (d : Json) : ∃ o w', w.run (document owner ordinal d) = (o, w') ∧
      Writes owner.uid (places [o]) w w' ∧ (o.isApplied → o.identifier.isResolved) := by
  unfold document
  rcases Manifest.run_resolve hserved ordinal d with ⟨unresolved, hrun⟩ | ⟨r, hsettled, hrun⟩ <;>
    rw [run_bind, hrun]
  · exact ⟨_, w, rfl, .nothing hplaced, fun h => by cases h⟩
  dsimp only
  rcases writesOrFails_manifest owner hplaced hsettled with
    ⟨action, w', happly, hwrites⟩ | ⟨failure, hfails⟩
  · have hattempt : w.run (attempt (manifest r owner)) = (.ok action, w') := happly
    rw [run_bind, hattempt]
    exact ⟨_, w', rfl, hwrites, fun _ => hsettled.resolved⟩
  · have hattempt : w.run (attempt (manifest r owner)) = (.error failure, w) := hfails
    rw [run_bind, hattempt]
    exact ⟨_, w, rfl, .nothing hplaced, fun h => by cases h⟩

theorem run_documents (hplaced : w.member.Placed)
    (hserved : ∀ m ∈ w.kinds, m.plural.isEmpty = false) (owner : OwnerReference) (ordinal : Nat)
    (l : List Json) : ∃ outcomes w', w.run (documents owner ordinal l) = (outcomes, w') ∧
      Writes owner.uid (places outcomes) w w' ∧
      ∀ o ∈ outcomes, o.isApplied → o.identifier.isResolved := by
  induction l generalizing w ordinal with
  | nil => exact ⟨[], w, rfl, .nothing hplaced, by rintro o ⟨⟩⟩
  | cons d rest ih =>
      obtain ⟨o, w', hfirst, hwrites, hresolved⟩ := run_document hplaced hserved owner ordinal d
      obtain ⟨outcomes, w'', hrest, hwrites', hresolved'⟩ :=
        ih hwrites.placed (hwrites.kinds.symm ▸ hserved) (ordinal + 1)
      refine ⟨o :: outcomes, w'', ?_, ?_, ?_⟩
      · rw [documents, run_bind, hfirst]
        dsimp only
        rw [run_bind, hrest]
        rfl
      · have happend := hwrites.append hwrites'
        rw [← places_append] at happend
        exact happend
      · intro o' ho'
        rcases List.mem_cons.1 ho' with rfl | ho'
        · exact hresolved
        · exact hresolved' o' ho'

end Apply

end MemberAgent
