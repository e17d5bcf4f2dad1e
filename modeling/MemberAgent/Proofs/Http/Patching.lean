import MemberAgent.Http.Client
import MemberAgent.Proofs.Http.Server
import MemberAgent.Proofs.InMemory.Lookups

/-! The calls that are sent as merge patches: what is sent for each of them, and what each of them does
in memory. -/

namespace MemberAgent

open Json InMemory

namespace Http

/-- The calls that are sent as merge patches. -/
inductive Patching where
  | status (w : Work) (status : WorkStatus)
  | addFinalizer (w : Work) (finalizer : String)
  | removeFinalizer (w : Work) (finalizer : String)
  | resources (applied : AppliedWork) (resources : List TrackedResource)
  | owners (mapping : ResourceMapping) (live : ApiObject) (owners : List OwnerReference)

namespace Patching

def call : Patching → ClientCall
  | status w s => .patchWorkStatus w s
  | addFinalizer w f => .addFinalizer w f
  | removeFinalizer w f => .removeFinalizer w f
  | resources a l => .updateResources a l
  | owners mapping o l => .patchOwners mapping o l

/-- The copy that the patch is made from. -/
def observed : Patching → Document
  | status w _ | addFinalizer w _ | removeFinalizer w _ => .work w
  | resources a _ => .record a
  | owners mapping o _ => .object mapping o

/-- The patch, if one is needed. -/
def body : Patching → Option Json
  | status w s => some (statusPatch w.metadata s.json)
  | addFinalizer w f =>
    if (observedFinalizers w).contains f then none
    else some (finalizersPatch w.metadata (observedFinalizers w ++ [f]))
  | removeFinalizer w f =>
    if (observedFinalizers w).contains f then
      some (finalizersPatch w.metadata ((observedFinalizers w).filter (· ≠ f)))
    else none
  | resources a l => some (statusPatch a.metadata (AppliedWorkStatus.json ⟨l⟩))
  | owners _ o l => some (ownersPatch o.metadata l)

/-- Sends a patch to where the observed document is stored. -/
def send (body : Json) : Patching → Exchange Unit
  | status w _ =>
    discard <| ask .hub ((worksIn w.namespace).mergePatchStatus w.name body) Work.ofJson
  | addFinalizer w _ | removeFinalizer w _ =>
    discard <| ask .hub ((worksIn w.namespace).mergePatch w.name body) Work.ofJson
  | resources a _ => discard <| ask .member (records.mergePatchStatus a.name body) AppliedWork.ofJson
  | owners mapping o _ =>
    let place := placeOf mapping o.metadata
    discard <| ask .member (place.mergePatch o.metadata.anyName body) ApiObject.ofJson

/-- The requests of the call. -/
def exchange : Patching → Exchange Unit
  | status w s => exchangeOf (.patchWorkStatus w s)
  | addFinalizer w f => exchangeOf (.addFinalizer w f)
  | removeFinalizer w f => exchangeOf (.removeFinalizer w f)
  | resources a l => exchangeOf (.updateResources a l)
  | owners mapping o l => exchangeOf (.patchOwners mapping o l)

/-- The fields that the patch is about, and those of the metadata. -/
def fields : Patching → List String
  | status .. | resources .. => ["status"]
  | _ => []

def metadataFields : Patching → List String
  | addFinalizer .. | removeFinalizer .. => ["finalizers"]
  | owners .. => ["ownerReferences"]
  | _ => []

/-- The finalizer that is attached or removed. -/
def finalizer? : Patching → Option String
  | addFinalizer _ f | removeFinalizer _ f => some f
  | _ => none

theorem exchange_eq (p : Patching) : p.exchange = match p.body with
    | some patch => p.send patch
    | none => return := by
  cases p with
  | status | resources | owners => rfl
  | addFinalizer w f =>
      by_cases h : (observedFinalizers w).contains f = true
      · simp only [exchange, exchangeOf, Http.addFinalizer, body, if_pos h]
      · simp only [exchange, exchangeOf, Http.addFinalizer, body, if_neg h]
        rfl
  | removeFinalizer w f =>
      by_cases h : (observedFinalizers w).contains f = true
      · simp only [exchange, exchangeOf, Http.removeFinalizer, body, if_pos h]
        rfl
      · simp only [exchange, exchangeOf, Http.removeFinalizer, body, if_neg h]

/-- A patch names what the call is about and the version, and nothing else. -/
theorem shape_body {p : Patching} {patch : Json} (hbody : p.body = some patch) :
    ∃ inner rest, patch = patchOf inner rest ∧ rest.map Prod.fst = p.fields ∧
      inner.map Prod.fst = p.metadataFields ++ ["resourceVersion"] ∧
        inner.lookup "resourceVersion" = some (observedVersion p.observed.metadata) := by
  cases p with
  | status | resources | owners =>
      cases hbody
      exact ⟨_, _, rfl, rfl, rfl, rfl⟩
  | addFinalizer w f =>
      simp only [body] at hbody
      split at hbody
      · cases hbody
      · cases hbody
        exact ⟨_, _, rfl, rfl, rfl, rfl⟩
  | removeFinalizer w f =>
      simp only [body] at hbody
      split at hbody
      · cases hbody
        exact ⟨_, _, rfl, rfl, rfl, rfl⟩
      · cases hbody

theorem distinctKeys_body {p : Patching} {inner rest : List (String × Json)}
    (hfields : rest.map Prod.fst = p.fields)
    (hmetadata : inner.map Prod.fst = p.metadataFields ++ ["resourceVersion"]) :
    DistinctKeys inner rest := by
  refine ⟨?_, ?_⟩
  · rw [hmetadata]
    cases p <;> simp [metadataFields]
  · rw [List.map_cons, hfields]
    cases p <;> simp [fields]

theorem version_body {p : Patching} {patch : Json} (hbody : p.body = some patch) :
    patch.version = observedVersion p.observed.metadata := by
  obtain ⟨inner, rest, rfl, -, -, hversion⟩ := shape_body hbody
  rw [version_patchOf, hversion]
  rfl

end Patching

end Http

/-! ### The same calls in memory -/

namespace InMemory

namespace Hub

variable {h : Hub} {w w' : Work} {change : Work → Option Work}

theorem write_kept (hstored : h.work? (.ofWork w) = some w) (hchange : change w = some w') :
    h.write w change = .ok (h.put (.ofWork w) w') :=
  (write_eq_ok_iff h).2 ⟨w, hstored, rfl, by rw [hchange]⟩

theorem write_gone (hstored : h.work? (.ofWork w) = some w) (hchange : change w = none) :
    h.write w change = .ok { h with works := h.works.erase (.ofWork w) } :=
  (write_eq_ok_iff h).2 ⟨w, hstored, rfl, by rw [hchange]⟩

theorem write_outdated {observed stored : Work} (hstored : h.work? (.ofWork observed) = some stored)
    (hne : stored.metadata.resourceVersion ≠ observed.metadata.resourceVersion) :
    h.write observed change = .error (outdated "work") := by
  rw [write]
  simp only [hstored]
  rw [if_pos hne]

end Hub

namespace Member

variable {m : Member}

theorem updateResources_outdated {observed stored : AppliedWork}
    (hstored : m.applied? observed.name = some stored)
    (hne : stored.metadata.resourceVersion ≠ observed.metadata.resourceVersion)
    (resources : List TrackedResource) :
    m.updateResources observed resources = .error (outdated "appliedwork") := by
  rw [updateResources]
  simp only [hstored]
  rw [if_pos hne]

theorem patchOwners_outdated {mapping : ResourceMapping} {live stored : ApiObject}
    (hstored : m.object? (.ofObject mapping live) = some stored)
    (hne : stored.metadata.resourceVersion ≠ live.metadata.resourceVersion)
    (owners : List OwnerReference) :
    m.patchOwners mapping live owners = .error (outdated "object") := by
  rw [patchOwners, write]
  simp only [hstored]
  rw [if_pos hne]
  rfl

end Member

namespace World

open Http

/-- What is stored where a document belongs. -/
def document? (w : World) : Document → Option Document
  | .work work => (w.hub.work? (.ofWork work)).map .work
  | .record a => (w.member.applied? a.name).map .record
  | .object mapping o => (w.member.object? (.ofObject mapping o)).map (.object mapping)

/-- What becomes of a document through a call. -/
def outcome (w : World) (p : Patching) : Outcome :=
  if (w.answer p.call).1.isOk then
    match (w.answer p.call).2.document? p.observed with
    | some d => .stored d.json
    | none => .removed
  else .refused

variable {w w' : World}

section

variable {p : Patching} {value : p.call.Value} {d : Document}

theorem outcome_stored (h : w.perform p.call = .ok (value, w'))
    (hd : w'.document? p.observed = some d) : w.outcome p = .stored d.json := by
  rw [outcome, answer_of_perform h]
  dsimp only
  rw [hd]
  rfl

theorem outcome_removed (h : w.perform p.call = .ok (value, w'))
    (hd : w'.document? p.observed = none) : w.outcome p = .removed := by
  rw [outcome, answer_of_perform h]
  dsimp only
  rw [hd]
  rfl

end

theorem onMember_map_ok {r : Except Failure Member} {member : Member} (h : r = .ok member) :
    w.onMember (r.map fun m => ((), m)) = .ok ((), { w with member }) := by
  rw [h]
  rfl

theorem onMember_map_error {r : Except Failure Member} {failure : Failure} (h : r = .error failure) :
    w.onMember (r.map fun m => ((), m)) = .error failure := by
  rw [h]
  rfl

variable {work : Work} {applied : AppliedWork} {mapping : ResourceMapping} {live : ApiObject}

theorem document?_put (w' : Work) :
    document? { w with hub := w.hub.put (.ofWork work) w' } (.work work) = some (.work w') :=
  congrArg (Option.map Document.work) ((Hub.work?_put ..).trans (if_pos rfl))

theorem outcome_status (hstored : w.hub.work? (.ofWork work) = some work) (status : WorkStatus) :
    w.outcome (.status work status) = .stored ((Document.work { work with status := some status
      }).withMetadata (bumped work.metadata)).json := by
  have hwrite : w.hub.patchStatus work status = .ok _ := Hub.write_kept hstored rfl
  have hperform : w.perform (Patching.status work status).call = .ok ((), _) :=
    congrArg w.onHub hwrite
  exact outcome_stored hperform (document?_put _)

/-- A finalizer that is there is not attached again. -/
theorem outcome_addFinalizer (hstored : w.hub.work? (.ofWork work) = some work)
    (finalizer : String) : w.outcome (.addFinalizer work finalizer) =
      if (observedFinalizers work).contains finalizer then .stored (Document.work work).json
      else .stored ((Document.work work).withMetadata (bumped { work.metadata with
        finalizers := some (observedFinalizers work ++ [finalizer]) })).json := by
  by_cases hthere : (observedFinalizers work).contains finalizer = true
  · have hwrite : w.hub.addFinalizer work finalizer = .ok _ :=
      Hub.write_kept hstored (if_pos hthere)
    have hperform : w.perform (Patching.addFinalizer work finalizer).call = .ok ((), _) :=
      congrArg w.onHub hwrite
    rw [if_pos hthere]
    exact outcome_stored hperform (document?_put _)
  · have hwrite : w.hub.addFinalizer work finalizer = .ok _ :=
      Hub.write_kept hstored (if_neg hthere)
    have hperform : w.perform (Patching.addFinalizer work finalizer).call = .ok ((), _) :=
      congrArg w.onHub hwrite
    rw [if_neg hthere]
    exact outcome_stored hperform (document?_put _)

/-- A Work that is marked for deletion goes with its last finalizer. -/
theorem outcome_removeFinalizer (hstored : w.hub.work? (.ofWork work) = some work)
    (finalizer : String) : w.outcome (.removeFinalizer work finalizer) =
      if work.isDeleting ∧ (observedFinalizers work).filter (· ≠ finalizer) = [] then .removed
      else .stored ((Document.work work).withMetadata (bumped { work.metadata with
        finalizers := work.metadata.finalizers.map (List.filter (· ≠ finalizer)) })).json := by
  have hrest : (work.metadata.finalizers.map (List.filter (· ≠ finalizer))).getD [] =
      (observedFinalizers work).filter (· ≠ finalizer) := by
    rw [observedFinalizers]
    cases work.metadata.finalizers <;> rfl
  have hgoes : (work.isDeleting && ((work.metadata.finalizers.map
      (List.filter (· ≠ finalizer))).getD []).isEmpty) = true ↔
        work.isDeleting ∧ (observedFinalizers work).filter (· ≠ finalizer) = [] := by
    rw [hrest, Bool.and_eq_true, List.isEmpty_iff]
  by_cases h : work.isDeleting ∧ (observedFinalizers work).filter (· ≠ finalizer) = []
  · have hwrite : w.hub.removeFinalizer work finalizer = .ok _ :=
      Hub.write_gone hstored (if_pos (hgoes.2 h))
    have hperform : w.perform (Patching.removeFinalizer work finalizer).call = .ok ((), _) :=
      congrArg w.onHub hwrite
    have hgone : document? { w with hub := { w.hub with works := w.hub.works.erase (.ofWork work) } }
        (.work work) = none :=
      congrArg (Option.map Document.work) ((Hub.work?_erase ..).trans (if_pos rfl))
    rw [if_pos h]
    exact outcome_removed hperform hgone
  · have hwrite : w.hub.removeFinalizer work finalizer = .ok _ :=
      Hub.write_kept hstored (if_neg (mt hgoes.1 h))
    have hperform : w.perform (Patching.removeFinalizer work finalizer).call = .ok ((), _) :=
      congrArg w.onHub hwrite
    rw [if_neg h]
    exact outcome_stored hperform (document?_put _)

theorem outcome_resources (hstored : w.member.applied? applied.name = some applied)
    (resources : List TrackedResource) : w.outcome (.resources applied resources) =
      .stored ((Document.record { applied with status := some ⟨resources⟩ }).withMetadata
        (bumped applied.metadata)).json := by
  have hwrite : w.member.updateResources applied resources = .ok _ :=
    Member.updateResources_eq_ok_iff.2 ⟨applied, hstored, rfl, rfl⟩
  have hperform : w.perform (Patching.resources applied resources).call = .ok ((), _) :=
    onMember_map_ok hwrite
  exact outcome_stored hperform (congrArg (Option.map Document.record)
    ((Member.applied?_putApplied ..).trans (if_pos rfl)))

theorem outcome_owners (hstored : w.member.object? (.ofObject mapping live) = some live)
    (owners : List OwnerReference) : w.outcome (.owners mapping live owners) =
      .stored ((Document.object mapping live).withMetadata
        (bumped { live.metadata with ownerReferences := some owners })).json := by
  have hwrite : w.member.patchOwners mapping live owners = .ok _ :=
    Member.patchOwners_eq_ok_iff.2 ⟨_, Member.write_eq_ok_iff.2 ⟨live, hstored, rfl, rfl, rfl⟩⟩
  have hperform : w.perform (Patching.owners mapping live owners).call = .ok ((), _) :=
    onMember_map_ok hwrite
  let owned : ApiObject :=
    { live with metadata := bumped { live.metadata with ownerReferences := some owners } }
  have hthere : (w.member.put (.ofObject mapping live) owned).object? (.ofObject mapping live) =
      some owned := (Member.object?_put ..).trans (if_pos rfl)
  exact outcome_stored hperform (congrArg (Option.map (Document.object mapping)) hthere)

/-- In memory, a call that is made from another version is refused. -/
theorem answer_outdated {p : Patching} {stored : Document}
    (hstored : w.document? p.observed = some stored)
    (hne : stored.metadata.resourceVersion ≠ p.observed.metadata.resourceVersion) :
    ∃ failure, w.answer p.call = (.error failure, w) ∧ failure.isConflict := by
  cases p with
  | status work status =>
      obtain ⟨_, hwork, rfl⟩ := Option.map_eq_some_iff.1 hstored
      have hwrite : w.hub.patchStatus work status = .error _ := Hub.write_outdated hwork hne
      exact ⟨_, answer_of_perform_error (congrArg w.onHub hwrite), rfl⟩
  | addFinalizer work f =>
      obtain ⟨_, hwork, rfl⟩ := Option.map_eq_some_iff.1 hstored
      have hwrite : w.hub.addFinalizer work f = .error _ := Hub.write_outdated hwork hne
      exact ⟨_, answer_of_perform_error (congrArg w.onHub hwrite), rfl⟩
  | removeFinalizer work f =>
      obtain ⟨_, hwork, rfl⟩ := Option.map_eq_some_iff.1 hstored
      have hwrite : w.hub.removeFinalizer work f = .error _ := Hub.write_outdated hwork hne
      exact ⟨_, answer_of_perform_error (congrArg w.onHub hwrite), rfl⟩
  | resources applied resources =>
      obtain ⟨_, happlied, rfl⟩ := Option.map_eq_some_iff.1 hstored
      have hwrite := Member.updateResources_outdated happlied hne resources
      exact ⟨_, answer_of_perform_error (onMember_map_error hwrite), rfl⟩
  | owners mapping live owners =>
      obtain ⟨_, hlive, rfl⟩ := Option.map_eq_some_iff.1 hstored
      have hwrite := Member.patchOwners_outdated hlive hne owners
      exact ⟨_, answer_of_perform_error (onMember_map_error hwrite), rfl⟩

end World

end InMemory

end MemberAgent
