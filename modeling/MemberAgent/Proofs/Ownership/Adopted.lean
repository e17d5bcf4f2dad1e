import MemberAgent.Proofs.InMemory.Placement
import MemberAgent.Proofs.Tracking.Coverage
import Mathlib.Logic.Relation

/-! What applying a Work does to the owners of objects, whatever becomes of its calls. Each write
adopts one object: it is created for the owner, or it stays the same object and the owner joins those
that it has. -/

namespace MemberAgent

open InMemory Relation

/-- The owner is there already, or it comes last. -/
theorem withOwner_cases (existing : List OwnerReference) (owner : OwnerReference) :
    (∃ r ∈ existing, r.uid = owner.uid) ∧ withOwner existing owner = existing ∨
      (∀ r ∈ existing, r.uid ≠ owner.uid) ∧ withOwner existing owner = existing ++ [owner] := by
  unfold withOwner mergeOwners
  by_cases hany : (existing.any fun o => o.uid = owner.uid) = true
  · obtain ⟨r, hr, huid⟩ := List.any_eq_true.1 hany
    exact Or.inl ⟨⟨r, hr, of_decide_eq_true huid⟩, by rw [if_pos hany]; rfl⟩
  · refine Or.inr ⟨fun r hr huid => hany ?_, by rw [if_neg hany]; rfl⟩
    exact List.any_eq_true.2 ⟨r, hr, decide_eq_true huid⟩

theorem mem_withOwner {existing : List OwnerReference} {owner r : OwnerReference}
    (hr : r ∈ existing) : r ∈ withOwner existing owner := by
  rcases withOwner_cases existing owner with ⟨-, h⟩ | ⟨-, h⟩ <;> rw [h]
  · exact hr
  · exact List.mem_append_left _ hr

namespace InMemory.Member

/-- Writing one object for an owner. An object that is created starts from the owners that its
manifest declares. -/
structure Adopts (owner : OwnerReference) (declared : List OwnerReference) (key : ObjectKey)
    (m m' : Member) : Prop where
  records : m'.applied = m.applied
  counter : m.lastUid ≤ m'.lastUid
  elsewhere : ∀ key', key' ≠ key → m'.object? key' = m.object? key'
  created : m.object? key = none → ∃ o', m'.object? key = some o' ∧
    o'.metadata.owners = withOwner declared owner
  kept : ∀ o, m.object? key = some o → ∃ o', m'.object? key = some o' ∧
    o'.metadata.uid = o.metadata.uid ∧ o'.metadata.owners = withOwner o.metadata.owners owner

namespace Adopts

variable {owner : OwnerReference} {declared : List OwnerReference} {key key' : ObjectKey}
  {m m' : Member} {o o' : ApiObject}

/-- An object that has the owner need not be written. -/
theorem unchanged (ho : m.object? key = some o)
    (howned : mergeOwners o.metadata.owners owner = none) : Adopts owner declared key m m where
  records := rfl
  counter := Nat.le_refl _
  elsewhere _ _ := rfl
  created hnone := by cases hnone.symm.trans ho
  kept o' ho' := by
    cases ho.symm.trans ho'
    exact ⟨o, ho, rfl, by rw [withOwner, howned]; rfl⟩

theorem put (hkey : key' = key)
    (hcreated : m.object? key = none → o'.metadata.owners = withOwner declared owner)
    (hkept : ∀ o, m.object? key = some o → o'.metadata.uid = o.metadata.uid ∧
      o'.metadata.owners = withOwner o.metadata.owners owner) {lastUid : Nat}
    (hcounter : m.lastUid ≤ lastUid) (writes : Nat) : Adopts owner declared key m
      { m.put key' o' with lastUid := lastUid, writes := writes } := by
  subst hkey
  have hput : (m.put key' o').object? key' = some o' :=
    (object?_put m key' key' o').trans (if_pos rfl)
  refine ⟨rfl, hcounter, fun key hkey => ?_, fun hnone => ?_, fun o ho => ?_⟩
  · exact (object?_put m key' key o').trans (if_neg hkey.symm)
  · exact ⟨o', hput, hcreated hnone⟩
  · exact ⟨o', hput, hkept o ho⟩

/-- The object is there, and it is owned. -/
theorem holds (h : Adopts owner declared key m m') : ∃ o', m'.Holds owner.uid key o' := by
  cases ho : m.object? key with
  | none =>
      obtain ⟨o', ho', howners⟩ := h.created ho
      exact ⟨o', ho', by rw [ApiObject.IsOwnedBy, howners]; exact exists_mem_withOwner _ _⟩
  | some o =>
      obtain ⟨o', ho', -, howners⟩ := h.kept o ho
      exact ⟨o', ho', by rw [ApiObject.IsOwnedBy, howners]; exact exists_mem_withOwner _ _⟩

/-- Every object stays, and so do all its owners. -/
theorem owners_kept (h : Adopts owner declared key m m') (ho : m.object? key' = some o) :
    ∃ o', m'.object? key' = some o' ∧ o'.metadata.uid = o.metadata.uid ∧
      (o'.metadata.owners = o.metadata.owners ∨
        o'.metadata.owners = withOwner o.metadata.owners owner) := by
  by_cases hkey : key' = key
  · subst hkey
    obtain ⟨o', ho', huid, howners⟩ := h.kept o ho
    exact ⟨o', ho', huid, Or.inr howners⟩
  · exact ⟨o, (h.elsewhere key' hkey).trans ho, rfl, Or.inl rfl⟩

theorem holds_kept (h : Adopts owner declared key m m') {uid : String}
    (ho : m.Holds uid key' o) : ∃ o', m'.Holds uid key' o' := by
  obtain ⟨hthere, r, hr, huid⟩ := ho
  obtain ⟨o', ho', -, howners | howners⟩ := h.owners_kept hthere
  · exact ⟨o', ho', r, howners ▸ hr, huid⟩
  · exact ⟨o', ho', r, howners ▸ mem_withOwner hr, huid⟩

end Adopts

/-- Adopting an object that one of these documents declares. -/
def Adoption (owner : OwnerReference) (documents : List Json) (m m' : Member) : Prop :=
  ∃ d ∈ documents, ∃ object, Manifest.decode? d = .ok object ∧
    ∃ key, m.Adopts owner object.metadata.owners key m'

variable {owner : OwnerReference} {documents documents' : List Json} {m m' : Member}

theorem Adoption.mono (hsub : ∀ d ∈ documents, d ∈ documents')
    (h : ReflTransGen (Adoption owner documents) m m') :
    ReflTransGen (Adoption owner documents') m m' := by
  induction h with
  | refl => exact .refl
  | tail _ hstep ih =>
      obtain ⟨d, hd, hadopts⟩ := hstep
      exact ih.tail ⟨d, hsub d hd, hadopts⟩

theorem applied_of_adoptions (h : ReflTransGen (Adoption owner documents) m m') :
    m'.applied = m.applied := by
  induction h with
  | refl => rfl
  | tail _ hstep ih =>
      obtain ⟨_, -, _, -, _, hadopts⟩ := hstep
      exact hadopts.records.trans ih

theorem holds_of_adoptions (h : ReflTransGen (Adoption owner documents) m m') {uid : String}
    {key : ObjectKey} {o : ApiObject} (ho : m.Holds uid key o) : ∃ o', m'.Holds uid key o' := by
  induction h with
  | refl => exact ⟨o, ho⟩
  | tail _ hstep ih =>
      obtain ⟨_, -, _, -, _, hadopts⟩ := hstep
      obtain ⟨o', ho'⟩ := ih
      exact hadopts.holds_kept ho'

end InMemory.Member

namespace Manifest

/-- The owners of the object of a manifest are those that its document declares. -/
theorem owners_place (object : ApiObject) (identifier : ResourceIdentifier)
    (mapping : ResourceMapping) :
    (place object identifier mapping).object.metadata.owners = object.metadata.owners := by
  unfold place
  split <;> rfl

end Manifest

namespace Apply

open World

variable {possible : Fate → Prop} {w : World} {r : Manifest.Resolved}

/-- What applying one manifest does when its object is written. -/
def Adopting (owner : OwnerReference) (r : Manifest.Resolved) (w w' : World) : Prop :=
  w'.hub = w.hub ∧
    w.member.Adopts owner r.object.metadata.owners (.ofIdentifier r.identifier) w'.member

/-- An object is owned under a key, in another version than was found there. -/
def TakenOver (key : ObjectKey) (uid : String) (w w' : World) : Prop :=
  ∃ o', w'.member.Holds uid key o' ∧ ∀ o, w.member.object? key = some o →
    o'.metadata.resourceVersion ≠ o.metadata.resourceVersion

/-- A write to the object of a manifest by someone who has seen it before, maybe not as it is now. -/
structure Writing (owner : OwnerReference) (r : Manifest.Resolved) (seen : Option ApiObject)
    (w w' : World) : Prop where
  adopting : w.member.object? (.ofIdentifier r.identifier) = seen → Adopting owner r w w'
  takenOver : TakenOver (.ofIdentifier r.identifier) owner.uid w w'

theorem Writing.put {owner : OwnerReference} {seen : Option ApiObject} {key : ObjectKey}
    {o' : ApiObject} (hkey : key = .ofIdentifier r.identifier) (howned : o'.IsOwnedBy owner.uid)
    (hversion : ∀ o, w.member.object? (.ofIdentifier r.identifier) = some o →
      o'.metadata.resourceVersion ≠ o.metadata.resourceVersion)
    (hcreated : seen = none → o'.metadata.owners = withOwner r.object.metadata.owners owner)
    (hkept : w.member.object? (.ofIdentifier r.identifier) = seen → ∀ o, seen = some o →
      o'.metadata.uid = o.metadata.uid ∧ o'.metadata.owners = withOwner o.metadata.owners owner)
    {lastUid : Nat} (hcounter : w.member.lastUid ≤ lastUid) (writes : Nat) :
    Writing owner r seen w
      { w with member := { w.member.put key o' with lastUid := lastUid, writes := writes } } where
  adopting hseen := by
    refine ⟨rfl, .put hkey (fun hnone => ?_) (fun o ho => ?_) hcounter writes⟩
    · exact hcreated (hseen.symm.trans hnone)
    · exact hkept hseen o (hseen.symm.trans ho)
  takenOver := by
    subst hkey
    exact ⟨o', ⟨(Member.object?_put ..).trans (if_pos rfl), howned⟩, hversion⟩

/-- What is left of applying a manifest when its object has been looked at: nothing, if it is there as
declared and owned, or else a write. -/
inductive ManifestLeft (owner : OwnerReference) (r : Manifest.Resolved) (seen : Option ApiObject) :
    Reconcile ApplyAction → Prop where
  | ended {live : ApiObject} (action : ApplyAction) (hlive : seen = some live)
      (howned : mergeOwners live.metadata.owners owner = none) :
      ManifestLeft owner r seen (return action)
  | writing (c : ClientCall) (action : ApplyAction) (hcall : ManifestCall c)
      (hwrites : ∀ w value w', w.perform c = .ok (value, w') → Writing owner r seen w w') :
      ManifestLeft owner r seen (do let _ ← request c; return action)

/-- Applying a manifest is a look at its object and what is then left. -/
theorem manifest_eq (owner : OwnerReference)
    (hplace : ObjectKey.ofObject r.mapping r.object = .ofIdentifier r.identifier) :
    ∃ rest, manifest r owner = request (.getObject r.mapping r.identifier.namespace
        r.identifier.name) >>= rest ∧
      ∀ seen, (∀ live, seen = some live →
          ObjectKey.ofObject r.mapping live = .ofIdentifier r.identifier) →
        ManifestLeft owner r seen (rest seen) := by
  refine ⟨_, rfl, ?_⟩
  rintro (_ | live) hlive
  · refine .writing _ .created trivial fun v created v' hperform => ?_
    obtain ⟨member, hcreate, rfl⟩ := onMember_eq_ok hperform
    obtain ⟨hfree, rfl, rfl⟩ := Member.createObject_eq_ok hcreate
    have hfree : v.member.object? (.ofIdentifier r.identifier) = none := hplace ▸ hfree
    refine .put hplace ?_ (fun o ho => ?_) (fun _ => rfl) (fun _ o ho => ?_) (Nat.le_succ _) _
    · exact exists_mem_withOwner _ _
    · cases hfree.symm.trans ho
    · cases ho
  · dsimp only
    split
    · cases hmerge : mergeOwners live.metadata.owners owner with
      | none => exact .ended _ rfl hmerge
      | some owners =>
          refine .writing _ .ownerAdded trivial fun v _ v' hperform => ?_
          obtain ⟨member, hpatch, rfl⟩ := onMember_map_eq_ok hperform
          obtain ⟨_, hpatched⟩ := Member.patchOwners_eq_ok_iff.1 hpatch
          obtain ⟨stored, hstored, -, -, rfl⟩ := Member.write_eq_ok_iff.1 hpatched
          rw [hlive live rfl] at hstored
          have howners : owners = withOwner live.metadata.owners owner := by
            rw [withOwner, hmerge]
            rfl
          refine .put (hlive live rfl) ?_ (fun o ho => ?_) (fun hnone => ?_)
            (fun hseen o ho => ?_) (Nat.le_refl _) _
          · rw [howners]
            exact exists_mem_withOwner _ _
          · cases hstored.symm.trans ho
            exact nextVersion_ne _
          · cases hnone
          · cases hstored.symm.trans hseen
            cases ho
            exact ⟨rfl, howners⟩
    · refine .writing _ .updated trivial fun v _ v' hperform => ?_
      obtain ⟨member, hreplace, rfl⟩ := onMember_eq_ok hperform
      obtain ⟨stored, hstored, -, -, rfl⟩ := Member.write_eq_ok_iff.1 hreplace
      have hstored : v.member.object? (.ofIdentifier r.identifier) = some stored := hplace ▸ hstored
      refine .put hplace ?_ (fun o ho => ?_) (fun hnone => ?_) (fun hseen o ho => ?_)
        (Nat.le_refl _) _
      · exact exists_mem_withOwner _ _
      · cases hstored.symm.trans ho
        exact nextVersion_ne _
      · cases hnone
      · cases hstored.symm.trans hseen
        cases ho
        exact ⟨rfl, rfl⟩

/-- The object of a manifest is looked for where it is going to be. -/
theorem answer_getObject (w : World)
    (hplace : ObjectKey.ofObject r.mapping r.object = .ofIdentifier r.identifier) :
    w.answer (.getObject r.mapping r.identifier.namespace r.identifier.name) =
      (.ok (w.member.object? (.ofIdentifier r.identifier)), w) := by
  rw [ObjectKey.ofIdentifier, ← show r.mapping.plural = r.identifier.resource from
    congrArg ObjectKey.resource hplace]
  rfl

/-- Applying a manifest adopts its object or does nothing, and it adopts it if it succeeds. -/
theorem manifest_ends (owner : OwnerReference) (hplaced : w.member.Placed)
    (hplace : ObjectKey.ofObject r.mapping r.object = .ofIdentifier r.identifier) :
    Ends possible w (manifest r owner) (fun w' => w' = w ∨ Adopting owner r w w')
      fun _ w' => Adopting owner r w w' := by
  obtain ⟨rest, hmanifest, hleft⟩ := manifest_eq owner hplace
  rw [hmanifest]
  refine Ends.andThen (Ends.request_read (answer_getObject w hplace)) (fun _ => Or.inl)
    fun found v hsame hfound => ?_
  subst v found
  have hthere := hleft (w.member.object? (.ofIdentifier r.identifier)) fun live hlive =>
    hplaced.ofObject_eq hlive (congrArg ObjectKey.resource hplace)
  generalize rest _ = x at hthere ⊢
  cases hthere with
  | ended action hlive howned => exact Ends.pure (Or.inl rfl) ⟨rfl, .unchanged hlive howned⟩
  | writing c action _ hwrites =>
      have heffect : ∀ value w', w.perform c = .ok (value, w') → Adopting owner r w w' :=
        fun value w' he => (hwrites w value w' he).adopting rfl
      refine Ends.andThen (Ends.request_of_perform heffect) (fun _ h => h) fun _ v h hadopting => ?_
      exact Ends.pure h hadopting

/-- Resolving a document changes nothing, and the object of the manifest is written where its
identifier says. -/
theorem resolve_reaches (ordinal : Nat) (d : Json) :
    Reaches possible w (Manifest.resolve ordinal d) fun result w' => w' = w ∧
      ∀ r, result = some (.ok r) →
        ObjectKey.ofObject r.mapping r.object = .ofIdentifier r.identifier ∧
          ∃ object, Manifest.decode? d = .ok object ∧
            r.object.metadata.owners = object.metadata.owners := by
  unfold Manifest.resolve Manifest.decode
  cases hdecode : Manifest.decode? d with
  | error fault => exact Reaches.done ⟨rfl, fun r he => by cases he⟩
  | ok object =>
      have hfind : ∀ kind, w.answer (.findMapping kind) = (.ok (w.mapping? kind), w) := fun _ => rfl
      have hread : ∀ kind, Ends possible w (request (.findMapping kind)) _ _ := fun kind =>
        Ends.request_read (hfind kind)
      refine Reaches.bind (hread _) (fun w' h => ⟨h.1, fun r he => by cases he⟩) ?_
      rintro (failure | _ | mapping) w' ⟨rfl, -⟩
      · exact Reaches.done ⟨rfl, fun r he => by cases he⟩
      · exact Reaches.done ⟨rfl, fun r he => by cases he⟩
      · refine Reaches.done ⟨rfl, fun r he => ?_⟩
        cases he
        have hnamed := Manifest.name_of_decode? hdecode
        exact ⟨Manifest.ofObject_place mapping hnamed, object, rfl, Manifest.owners_place _ _ _⟩

/-- What applying documents does: it adopts objects that they declare, and no others. -/
def Adoptions (owner : OwnerReference) (documents : List Json) (w w' : World) : Prop :=
  w'.hub = w.hub ∧ ReflTransGen (Member.Adoption owner documents) w.member w'.member

/-- Where a manifest is said to have gone through, there is an object that the owner owns. -/
def WentThrough (uid : String) (w : World) (o : Outcome) : Prop :=
  o.isApplied → ∃ object, w.member.Holds uid (.ofIdentifier o.identifier) object

theorem document_reaches (owner : OwnerReference) (ordinal : Nat) (d : Json)
    (hplaced : w.member.Placed) : Reaches possible w (document owner ordinal d) fun result w' =>
      Adoptions owner [d] w w' ∧ ∀ o, result = some o → WentThrough owner.uid w' o := by
  have hnothing : Adoptions owner [d] w w := ⟨rfl, .refl⟩
  refine Reaches.bind (resolve_reaches ordinal d)
    (fun w' h => ⟨h.1 ▸ hnothing, fun o he => by cases he⟩) ?_
  rintro (unresolved | r) v ⟨hsame, hresolved⟩ <;> subst v
  · refine Reaches.done ⟨hnothing, fun o he => ?_⟩
    cases he
    exact fun happlied => by cases happlied
  obtain ⟨hplace, object, hdecode, howners⟩ := hresolved r rfl
  have hadoptions : ∀ w', Adopting owner r w w' → Adoptions owner [d] w w' := by
    rintro w' ⟨hhub, hadopts⟩
    rw [howners] at hadopts
    exact ⟨hhub, .single ⟨d, List.mem_singleton_self d, object, hdecode, _, hadopts⟩⟩
  have halways : ∀ w', w' = w ∨ Adopting owner r w w' → Adoptions owner [d] w w' := by
    rintro w' (rfl | h)
    · exact hnothing
    · exact hadoptions w' h
  refine Reaches.bind (manifest_ends owner hplaced hplace)
    (fun w' h => ⟨halways w' h.1, fun o he => by cases he⟩) ?_
  rintro (failure | action) w' ⟨hended, hsuccess⟩
  · refine Reaches.done ⟨halways w' hended, fun o he => ?_⟩
    cases he
    exact fun happlied => by cases happlied
  · refine Reaches.done ⟨halways w' hended, fun o he => ?_⟩
    cases he
    exact fun _ => (hsuccess action rfl).2.holds

/-- What documents left owned, later ones leave owned. -/
theorem documents_reaches (owner : OwnerReference) (ordinal : Nat) (l : List Json)
    (hplaced : w.member.Placed) : Reaches possible w (documents owner ordinal l) fun result w' =>
      Adoptions owner l w w' ∧
        ∀ outcomes, result = some outcomes → ∀ o ∈ outcomes, WentThrough owner.uid w' o := by
  induction l generalizing w ordinal with
  | nil =>
      refine Reaches.done ⟨⟨rfl, .refl⟩, fun outcomes he => ?_⟩
      cases he
      rintro o ⟨⟩
  | cons d rest ih =>
      have hfirst : ∀ {w'}, Adoptions owner [d] w w' → Adoptions owner (d :: rest) w w' := by
        rintro w' ⟨hhub, hadopted⟩
        refine ⟨hhub, Member.Adoption.mono (fun d' hd' => ?_) hadopted⟩
        rw [List.mem_singleton.1 hd']
        exact List.mem_cons_self
      refine Reaches.bind (Reaches.and (document_reaches owner ordinal d hplaced)
        (placed_reaches hplaced _)) (fun w' h => ⟨hfirst h.1.1, fun _ he => by cases he⟩) ?_
      rintro o w' ⟨⟨hadopted, hthrough⟩, hplaced'⟩
      have hboth : ∀ {w''}, Adoptions owner rest w' w'' → Adoptions owner (d :: rest) w w'' := by
        rintro w'' ⟨hhub, hlater⟩
        have hlater := Member.Adoption.mono (fun _ => List.mem_cons_of_mem d) hlater
        exact ⟨hhub.trans hadopted.1, (hfirst hadopted).2.trans hlater⟩
      refine Reaches.bind (ih (ordinal + 1) hplaced')
        (fun w'' h => ⟨hboth h.1, fun _ he => by cases he⟩) ?_
      rintro outcomes w'' ⟨hrest, hthroughRest⟩
      refine Reaches.done ⟨hboth hrest, fun _ he o' ho' happlied => ?_⟩
      cases he
      rcases List.mem_cons.1 ho' with rfl | ho'
      · obtain ⟨object, hheld⟩ := hthrough _ rfl happlied
        exact Member.holds_of_adoptions hrest.2 hheld
      · exact hthroughRest outcomes rfl o' ho' happlied

/-- What applying a Work does to the member cluster: nothing, or it adopts objects for its record. -/
def MayAdopt (work : Work) (m m' : Member) : Prop :=
  m' = m ∨ ∃ applied owner, m.applied? work.name = some applied ∧
    applied.ownerReference = some owner ∧
    ReflTransGen (Member.Adoption owner work.manifests) m m'

/-- What a Work that was applied has in its status: a report of its manifests, and those that are said
to have gone through are there and owned. -/
def Reported (clock : Nat → Timestamp) (work : Work) (uid : String) (w w' : World) : Prop :=
  ∃ outcomes, (∀ o ∈ outcomes, WentThrough uid w' o) ∧
    let status := report work.currentStatus work.metadata.generation clock outcomes
    work.status = some status ∧ w'.hub = w.hub ∨ w.hub.patchStatus work status = .ok w'.hub

/-- Whether a Work is one to be applied, for a record. -/
structure IsApplicable (work : Work) (applied : AppliedWork) (w : World) : Prop where
  finalizer : work.hasFinalizer = true
  workStays : work.isDeleting = false
  recordThere : w.member.applied? work.name = some applied
  recordStays : applied.isDeleting = false

theorem owningRecord_ends (work : Work) : Ends possible w (owningRecord work) (fun w' => w' = w)
    fun applied _ => w.member.applied? work.name = some applied := by
  have hread : w.answer (.getAppliedWork work.name) =
      (.ok (w.member.applied? work.name), w) := rfl
  refine Ends.andThen (Ends.request_read hread) (fun _ h => h) fun found v hsame hfound => ?_
  subst v
  cases found with
  | none => exact Ends.throw rfl
  | some applied => exact Ends.pure rfl hfound.symm

theorem work_reaches (clock : Nat → Timestamp) (theWork : Work) (owner : OwnerReference)
    (hplaced : w.member.Placed) : Reaches possible w (work clock theWork owner) fun result w' =>
      Adoptions owner theWork.manifests w w' ∧ ∀ pair, result = some pair →
        (∀ o ∈ pair.1, WentThrough owner.uid w' o) ∧
          pair.2 = report theWork.currentStatus theWork.metadata.generation clock pair.1 := by
  refine Reaches.bind (documents_reaches owner 0 theWork.manifests hplaced)
    (fun w' h => ⟨h.1, fun _ he => by cases he⟩) fun outcomes w' h => ?_
  refine Reaches.done ⟨h.1, fun pair he => ?_⟩
  cases he
  exact ⟨h.2 outcomes rfl, rfl⟩

/-- Reporting changes nothing but the hub. -/
theorem patchWorkStatus_ends (work : Work) (status : WorkStatus) :
    Ends possible w (request (.patchWorkStatus work status)) (fun w' => w'.member = w.member)
      fun _ w' => w.hub.patchStatus work status = .ok w'.hub := by
  have heffect : ∀ value w', w.perform (.patchWorkStatus work status) = .ok (value, w') →
      w'.member = w.member ∧ w.hub.patchStatus work status = .ok w'.hub := by
    intro value w' hperform
    obtain ⟨hub, hpatched, rfl⟩ := onHub_eq_ok hperform
    exact ⟨rfl, hpatched⟩
  refine (Ends.request_of_perform heffect).mono ?_ fun _ _ _ h => h.2
  rintro w' (rfl | h)
  · rfl
  · exact h.1

/-- Applying a Work adopts objects for its record; and if it succeeds, the report of a Work that is to
be applied is in its status. -/
theorem reconcile_ends (settings : Settings) (clock : Nat → Timestamp) (work : Work)
    (hplaced : w.member.Placed) : Ends possible w (reconcile settings clock work)
      (fun w' => MayAdopt work w.member w'.member)
      fun _ w' => ∀ applied, IsApplicable work applied w →
        Reported clock work (applied.metadata.uid.getD "") w w' := by
  have hnothing : MayAdopt work w.member w.member := Or.inl rfl
  unfold reconcile
  split
  · next hdeleting =>
      refine Ends.pure hnothing fun applied happlicable => ?_
      rw [happlicable.workStays] at hdeleting
      cases hdeleting
  split
  · next hfree =>
      refine Ends.pure hnothing fun applied happlicable => ?_
      rw [happlicable.finalizer] at hfree
      cases hfree
  refine Ends.andThen (owningRecord_ends work) (fun w' h => h ▸ hnothing)
    fun applied v hsame hthere => ?_
  subst v
  split
  · next hgoing =>
      refine Ends.pure hnothing fun applied' happlicable => ?_
      cases hthere.symm.trans happlicable.recordThere
      rw [happlicable.recordStays] at hgoing
      cases hgoing
  cases howner : applied.ownerReference with
  | none => exact Ends.throw hnothing
  | some owner =>
      have hadopts : ∀ {w'}, Adoptions owner work.manifests w w' → MayAdopt work w.member w'.member :=
        fun h => Or.inr ⟨applied, owner, hthere, howner, h.2⟩
      have huid : owner.uid = applied.metadata.uid.getD "" := by
        obtain ⟨uid, huid, rfl⟩ := Option.map_eq_some_iff.1 howner
        rw [huid]
        rfl
      refine Ends.andThen (Ends.lift (work_reaches clock work owner hplaced))
        (fun _ h => hadopts h) ?_
      rintro ⟨outcomes, status⟩ v hadopted ⟨hthrough, hstatus⟩
      dsimp only at hthrough hstatus ⊢
      subst hstatus
      rw [huid] at hthrough
      let status := report work.currentStatus work.metadata.generation clock outcomes
      have hreported : ∀ v', v'.member = v.member →
          (work.status = some status ∧ v'.hub = w.hub ∨ w.hub.patchStatus work status = .ok v'.hub) →
          ∀ applied', IsApplicable work applied' w →
            Reported clock work (applied'.metadata.uid.getD "") w v' := by
        intro v' hmember hstored applied' happlicable
        cases hthere.symm.trans happlicable.recordThere
        refine ⟨outcomes, fun o ho => ?_, hstored⟩
        rw [WentThrough, hmember]
        exact hthrough o ho
      split
      · refine Ends.andThen (patchWorkStatus_ends work status)
          (fun v' hmember => hmember ▸ hadopts hadopted) fun _ v' hmember hpatched => ?_
        have hdone := hreported v' hmember (Or.inr (hadopted.1 ▸ hpatched))
        split <;> exact Ends.pure (hmember ▸ hadopts hadopted) hdone
      · next hsame =>
          have hsame : work.status = some status := Decidable.not_not.1 hsame
          split <;>
            exact Ends.pure (hadopts hadopted) (hreported v rfl (Or.inl ⟨hsame, hadopted.1⟩))

end Apply

end MemberAgent
