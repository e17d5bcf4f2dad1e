import MemberAgent.Proofs.Http.Patching

/-! A server that merges the patches of the client comes to the documents to which the calls come in
memory. -/

namespace MemberAgent

open Json InMemory

/-- Not a Work that is marked for deletion and has no finalizers. -/
def Document.IsHeld : Document → Prop
  | work w => w.isDeleting → Http.observedFinalizers w ≠ []
  | _ => True

namespace Http.Patching

/-- What the server makes of a document. -/
def served (p : Patching) (next : Json → String) (document : Json) : Outcome :=
  match p.body with
  | some patch => serve next document patch
  | none => .stored document

/-- Whether nothing of a document has changed but what the call is about. -/
structure Preserves (p : Patching) (before after : Json) : Prop where
  fields : AgreeApartFrom p.fields (p.metadataFields ++ ["resourceVersion"]) after before
  otherFinalizers : ∀ f, p.finalizer? = some f →
    after.finalizers.filter (· ≠ .str f) = before.finalizers.filter (· ≠ .str f)

variable {w : World} {next : Json → String} {p : Patching} {patch : Json} {after : Document}

section

variable {work : Work} {finalizers : List String}

theorem filter_ofStrings (l : List String) (s : String) :
    (l.map Json.str).filter (· ≠ .str s) = (l.filter (· ≠ s)).map Json.str := by
  rw [List.filter_map]
  congr 2
  funext other
  simp

theorem finalizers_work (work : Work) :
    (Document.work work).json.finalizers = (observedFinalizers work).map .str :=
  Document.finalizers_json (d := .work work) trivial

theorem distinctKeys_finalizersPatch (work : Work) (finalizers : List String) :
    DistinctKeys [("finalizers", ofStrings finalizers),
      ("resourceVersion", observedVersion work.metadata)] [] :=
  ⟨by simp, by simp⟩

theorem finalizers_patched (work : Work) (finalizers : List String) :
    (mergePatch (Document.work work).json (finalizersPatch work.metadata finalizers)).finalizers =
      finalizers.map .str :=
  finalizers_of_get? (get?_metadata_patched (d := .work work) trivial
    (distinctKeys_finalizersPatch work finalizers) "finalizers")

theorem isMarked_finalizers_patched (work : Work) (finalizers : List String) :
    (mergePatch (Document.work work).json (finalizersPatch work.metadata finalizers)).isMarked =
      work.isDeleting :=
  isMarked_patched (d := .work work) trivial (distinctKeys_finalizersPatch work finalizers) (by simp)

end

/-! ### What is left alone -/

theorem agree_merged (hone : p.observed.HasOneMetadata) (hbody : p.body = some patch) :
    AgreeApartFrom p.fields (p.metadataFields ++ ["resourceVersion"])
      (mergePatch p.observed.json patch) p.observed.json := by
  obtain ⟨inner, rest, rfl, hfields, hmetadata, -⟩ := shape_body hbody
  have hagree := agree_patched hone (distinctKeys_body hfields hmetadata)
  rwa [hfields, hmetadata] at hagree

theorem agree_served {document : Json} (hbody : p.body = some patch)
    (hserve : serve next p.observed.json patch = .stored document) :
    AgreeApartFrom [] ["resourceVersion"] document (mergePatch p.observed.json patch) := by
  obtain ⟨inner, rest, rfl, hfields, hmetadata, -⟩ := shape_body hbody
  exact agree_of_serve (distinctKeys_body hfields hmetadata) hserve

/-- Attaching or removing a finalizer does nothing to the others. -/
theorem otherFinalizers_merged {f : String} (hf : p.finalizer? = some f) (hbody : p.body = some patch) :
    (mergePatch p.observed.json patch).finalizers.filter (· ≠ .str f) =
      p.observed.json.finalizers.filter (· ≠ .str f) := by
  have hlists : ∀ (work : Work) (finalizers : List String),
      finalizers.filter (· ≠ f) = (observedFinalizers work).filter (· ≠ f) →
        (mergePatch (Document.work work).json
          (finalizersPatch work.metadata finalizers)).finalizers.filter (· ≠ .str f) =
            (Document.work work).json.finalizers.filter (· ≠ .str f) := by
    intro work finalizers h
    rw [finalizers_patched, finalizers_work, filter_ofStrings, filter_ofStrings, h]
  cases p with
  | status | resources | owners => cases hf
  | addFinalizer work =>
      cases hf
      simp only [body] at hbody
      split at hbody
      · cases hbody
      · cases hbody
        exact hlists work _ (by simp)
  | removeFinalizer work =>
      cases hf
      simp only [body] at hbody
      split at hbody
      · cases hbody
        exact hlists work _ (by simp)
      · cases hbody

theorem preserves_served (hone : p.observed.HasOneMetadata) {document : Json}
    (hserved : p.served next p.observed.json = .stored document) :
    p.Preserves p.observed.json document := by
  rw [served] at hserved
  split at hserved
  · next patch hbody =>
      have hagree := agree_served hbody hserved
      refine ⟨?_, fun f hf => ?_⟩
      · exact (hagree.mono (List.nil_subset _) (List.subset_append_right _ _)).trans
          (agree_merged hone hbody)
      · rw [hagree.finalizers_eq (by decide), otherFinalizers_merged hf hbody]
  · cases hserved
    exact ⟨.self _, fun _ _ => rfl⟩

/-! ### What is written -/

/-- A current patch is merged, and if the call in memory comes to the merged document, both are
alike. -/
theorem alike_of_merged (hone : p.observed.HasOneMetadata) (hbody : p.body = some patch)
    (hkept : (mergePatch p.observed.json patch).isMarked →
      (mergePatch p.observed.json patch).finalizers = [] → p.observed.json.finalizers = [])
    (houtcome : w.outcome p = .stored after.json)
    (hafter : AgreeApartFrom [] ["resourceVersion"] (mergePatch p.observed.json patch) after.json) :
    (p.served next p.observed.json).Alike (w.outcome p) := by
  have hversion : patch.version = p.observed.json.version := by
    rw [version_body hbody, Document.version_json hone]
    rfl
  obtain ⟨document, hserve⟩ := serve_current next hversion hkept
  have hserved : p.served next p.observed.json = .stored document := by
    rw [served, hbody]
    exact hserve
  rw [hserved, houtcome]
  exact (agree_served hbody hserve).trans hafter

/-- A call that is not about finalizers takes none away. -/
theorem alike_of_unrelated (hone : p.observed.HasOneMetadata) (hbody : p.body = some patch)
    (hunrelated : "finalizers" ∉ p.metadataFields) (houtcome : w.outcome p = .stored after.json)
    (hafter : AgreeApartFrom [] ["resourceVersion"] (mergePatch p.observed.json patch) after.json) :
    (p.served next p.observed.json).Alike (w.outcome p) := by
  have hsame : (mergePatch p.observed.json patch).finalizers = p.observed.json.finalizers := by
    refine (agree_merged hone hbody).finalizers_eq ?_
    rw [List.mem_append, not_or]
    exact ⟨hunrelated, by decide⟩
  exact alike_of_merged hone hbody (fun _ h => hsame.symm.trans h) houtcome hafter

/-- Where nothing is sent, the call in memory makes a new version at most. -/
theorem alike_of_unsent (hbody : p.body = none) (houtcome : w.outcome p = .stored after.json)
    (hafter : AgreeApartFrom [] ["resourceVersion"] p.observed.json after.json) :
    (p.served next p.observed.json).Alike (w.outcome p) := by
  rw [served, hbody, houtcome]
  exact hafter

/-- A patch of the finalizers that leaves a Work where it is does what writing them does. -/
theorem finalizers_alike {work : Work} {finalizers : List String} (hobserved : p.observed = .work work)
    (hbody : p.body = some (finalizersPatch work.metadata finalizers))
    (hkept : work.isDeleting → finalizers = [] → observedFinalizers work = [])
    (houtcome : w.outcome p = .stored ((Document.work work).withMetadata
      (bumped { work.metadata with finalizers := some finalizers })).json) :
    (p.served next p.observed.json).Alike (w.outcome p) := by
  have hone : (Document.work work).HasOneMetadata := trivial
  refine alike_of_merged (hobserved ▸ hone) hbody ?_ houtcome ?_
  · rw [hobserved]
    intro hmarked hempty
    rw [isMarked_finalizers_patched] at hmarked
    rw [finalizers_patched, List.map_eq_nil_iff] at hempty
    rw [finalizers_work, hkept hmarked hempty]
    rfl
  · rw [hobserved]
    refine list_patched hone (show "finalizers" ≠ "resourceVersion" by decide) _ _
      (fun key hkey => ObjectMeta.get?_json_finalized work.metadata (some finalizers) _ hkey) ?_
    rw [ObjectMeta.get?_json_finalizers]
    rfl

/-- Without a finalizer that is there, the finalizers are a list; without another one, they are what
they were. -/
theorem finalizers_without {work : Work} {finalizer : String}
    (h : finalizer ∈ observedFinalizers work) :
    work.metadata.finalizers.map (List.filter (· ≠ finalizer)) =
      some ((observedFinalizers work).filter (· ≠ finalizer)) := by
  unfold observedFinalizers at h ⊢
  cases hlist : work.metadata.finalizers with
  | none => simp [hlist] at h
  | some l => rfl

theorem finalizers_without_absent {work : Work} {finalizer : String}
    (h : finalizer ∉ observedFinalizers work) :
    work.metadata.finalizers.map (List.filter (· ≠ finalizer)) = work.metadata.finalizers := by
  unfold observedFinalizers at h
  cases hlist : work.metadata.finalizers with
  | none => rfl
  | some l =>
      rw [hlist, Option.getD_some] at h
      refine congrArg some (List.filter_eq_self.2 fun other hother => ?_)
      exact decide_eq_true fun heq => h (heq ▸ hother)

section

variable {work : Work} (hstored : w.hub.work? (.ofWork work) = some work)

include hstored

theorem status_alike (status : WorkStatus) :
    ((Patching.status work status).served next work.json).Alike (w.outcome (.status work status)) := by
  have hone : (Document.work work).HasOneMetadata := trivial
  have hreported : (Document.work { work with status := some status }).HasOneMetadata := trivial
  have hnull : status.json ≠ .null := nofun
  have hreplaced : mergePatch (work.json.part "status") status.json = status.json := by
    rw [part, Document.get?_work_status]
    exact WorkStatus.mergePatch_json work.status status
  refine alike_of_unrelated hone rfl (by simp [metadataFields])
    (World.outcome_status hstored status) ?_
  exact status_patched hone _ hreported rfl (Document.agree_work_reported work _)
    (Document.get?_work_status _) hnull hreplaced fun key hkey =>
      ObjectMeta.get?_json_versioned work.metadata _ hkey

theorem addFinalizer_alike (finalizer : String) :
    ((Patching.addFinalizer work finalizer).served next work.json).Alike
      (w.outcome (.addFinalizer work finalizer)) := by
  have houtcome := World.outcome_addFinalizer hstored finalizer
  by_cases hthere : (observedFinalizers work).contains finalizer = true
  · rw [if_pos hthere] at houtcome
    exact alike_of_unsent (if_pos hthere) houtcome (.self _)
  · rw [if_neg hthere] at houtcome
    refine finalizers_alike rfl (if_neg hthere) (fun _ h => ?_) houtcome
    exact absurd h (by simp)

theorem removeFinalizer_alike (hheld : (Document.work work).IsHeld) (finalizer : String) :
    ((Patching.removeFinalizer work finalizer).served next work.json).Alike
      (w.outcome (.removeFinalizer work finalizer)) := by
  have hone : (Document.work work).HasOneMetadata := trivial
  have houtcome := World.outcome_removeFinalizer hstored finalizer
  by_cases hthere : finalizer ∈ observedFinalizers work
  · have hbody : (Patching.removeFinalizer work finalizer).body = some (finalizersPatch work.metadata
        ((observedFinalizers work).filter (· ≠ finalizer))) := if_pos (by simpa using hthere)
    by_cases hgoes : work.isDeleting ∧ (observedFinalizers work).filter (· ≠ finalizer) = []
    · have hversion : (finalizersPatch work.metadata
          ((observedFinalizers work).filter (· ≠ finalizer))).version = work.json.version :=
        (version_body hbody).trans (Document.version_json hone).symm
      have hmarked := (isMarked_finalizers_patched work
        ((observedFinalizers work).filter (· ≠ finalizer))).trans hgoes.1
      have hnone := finalizers_patched work ((observedFinalizers work).filter (· ≠ finalizer))
      rw [hgoes.2] at hnone
      have hsome : (Document.work work).json.finalizers ≠ [] := by
        rw [finalizers_work]
        exact fun h => hheld hgoes.1 (List.map_eq_nil_iff.1 h)
      have hserved : (Patching.removeFinalizer work finalizer).served next work.json = .removed := by
        rw [served, hbody]
        exact serve_last next hversion hmarked (hgoes.2 ▸ hnone) hsome
      rw [hserved, houtcome, if_pos hgoes]
      trivial
    · rw [if_neg hgoes, finalizers_without hthere] at houtcome
      exact finalizers_alike rfl hbody (fun hdeleting h => absurd ⟨hdeleting, h⟩ hgoes) houtcome
  · have hsame := finalizers_without_absent hthere
    have hall : (observedFinalizers work).filter (· ≠ finalizer) = observedFinalizers work :=
      List.filter_eq_self.2 fun other hother =>
        decide_eq_true fun heq => hthere (heq ▸ hother)
    have hstays : ¬(work.isDeleting ∧ (observedFinalizers work).filter (· ≠ finalizer) = []) :=
      fun h => hheld h.1 (hall.symm.trans h.2)
    rw [if_neg hstays, hsame] at houtcome
    refine alike_of_unsent (if_neg (by simpa using hthere)) houtcome (AgreeApartFrom.symm ?_)
    exact Document.agree_withMetadata hone fun key hkey =>
      ObjectMeta.get?_json_versioned work.metadata _ hkey

end

theorem resources_alike {applied : AppliedWork}
    (hstored : w.member.applied? applied.name = some applied) (resources : List TrackedResource) :
    ((Patching.resources applied resources).served next applied.json).Alike
      (w.outcome (.resources applied resources)) := by
  let status : AppliedWorkStatus := ⟨resources⟩
  have hone : (Document.record applied).HasOneMetadata := trivial
  have hreported : (Document.record { applied with status := some status }).HasOneMetadata := trivial
  have hnull : status.json ≠ .null := nofun
  have hreplaced : mergePatch (applied.json.part "status") status.json = status.json := by
    rw [part, Document.get?_record_status]
    exact AppliedWorkStatus.mergePatch_json applied.status status
  refine alike_of_unrelated hone rfl (by simp [metadataFields])
    (World.outcome_resources hstored resources) ?_
  exact status_patched hone _ hreported rfl (Document.agree_record_reported applied _)
    (Document.get?_record_status _) hnull hreplaced fun key hkey =>
      ObjectMeta.get?_json_versioned applied.metadata _ hkey

theorem owners_alike {mapping : ResourceMapping} {live : ApiObject}
    (hstored : w.member.object? (.ofObject mapping live) = some live)
    (hone : (Document.object mapping live).HasOneMetadata) (owners : List OwnerReference) :
    ((Patching.owners mapping live owners).served next live.json).Alike
      (w.outcome (.owners mapping live owners)) := by
  refine alike_of_unrelated hone rfl (by simp [metadataFields])
    (World.outcome_owners hstored owners) ?_
  refine list_patched hone (show "ownerReferences" ≠ "resourceVersion" by decide) _ _
    (fun key hkey => ObjectMeta.get?_json_owned live.metadata (some owners) _ hkey) ?_
  rw [ObjectMeta.get?_json_ownerReferences]
  rfl

/-- What is sent for a call is a merge patch of the observed document, or nothing. If that document is
the one that is stored, and no Work without finalizers that is marked for deletion, then a server comes
to the document to which the call comes in memory, apart from the version, and neither changes anything
that the call is not about. If the observed document has another version, a patch that is sent is
refused by the server, and so is the call in memory. -/
theorem served_as_in_memory (next : Json → String) (w : World) (p : Patching) {stored : Document}
    (hstored : w.document? p.observed = some stored) (hone : stored.HasOneMetadata) :
    (p.exchange = match p.body with
      | some patch => p.send patch
      | none => return) ∧
    (p.observed = stored → stored.IsHeld →
      (p.served next stored.json).Alike (w.outcome p) ∧
      ∀ document, p.served next stored.json = .stored document →
        p.Preserves stored.json document) ∧
    (∀ version, p.observed.metadata.resourceVersion = some version →
      stored.metadata.resourceVersion ≠ some version → ∀ patch, p.body = some patch →
        serve next stored.json patch = .refused ∧
        ∃ failure, w.answer p.call = (.error failure, w) ∧ failure.isConflict) := by
  refine ⟨p.exchange_eq, fun hcurrent hheld => ?_, fun version hobserved hother patch hbody => ?_⟩
  · subst hcurrent
    refine ⟨?_, fun document hserved => preserves_served hone hserved⟩
    cases p with
    | status work status =>
        obtain ⟨_, hwork, ⟨⟩⟩ := Option.map_eq_some_iff.1 hstored
        exact status_alike hwork status
    | addFinalizer work f =>
        obtain ⟨_, hwork, ⟨⟩⟩ := Option.map_eq_some_iff.1 hstored
        exact addFinalizer_alike hwork f
    | removeFinalizer work f =>
        obtain ⟨_, hwork, ⟨⟩⟩ := Option.map_eq_some_iff.1 hstored
        exact removeFinalizer_alike hwork hheld f
    | resources applied resources =>
        obtain ⟨_, happlied, ⟨⟩⟩ := Option.map_eq_some_iff.1 hstored
        exact resources_alike happlied resources
    | owners mapping live owners =>
        obtain ⟨_, hlive, ⟨⟩⟩ := Option.map_eq_some_iff.1 hstored
        exact owners_alike hlive hone owners
  · refine ⟨serve_outdated next hone ?_ hother, World.answer_outdated hstored (hobserved ▸ hother)⟩
    rw [version_body hbody, observedVersion, hobserved]
    rfl

end Http.Patching

/-! ### The last finalizer of a Work -/

namespace InMemory.Leaving

open Http

def deletedAt : Timestamp := ⟨2024, 5, 17, 9, 30, 0, 0, by decide, by decide⟩

def work (version : String) : Work where
  metadata := {
    name := some "demo", «namespace» := some "cluster1", resourceVersion := some version
    deletionTimestamp := some deletedAt, finalizers := some [cleanupFinalizer] }

def world : World := { hub := ({} : Hub).put ⟨"cluster1", "demo"⟩ (work "3") }

def removal (version : String) : Patching := .removeFinalizer (work version) cleanupFinalizer

/-- The Work goes on both sides; a removal by someone who saw it before is refused on both. -/
theorem last_finalizer_removed :
    world.outcome (removal "3") = .removed ∧
    ((removal "3").served (fun _ => "4") (work "3").json).Alike .removed ∧
    ∃ patch, (removal "2").body = some patch ∧
      serve (fun _ => "4") (work "3").json patch = .refused ∧
      ∃ failure, world.answer (removal "2").call = (.error failure, world) := by
  have hwork : world.hub.work? ⟨"cluster1", "demo"⟩ = some (work "3") :=
    (Hub.work?_put ..).trans (if_pos rfl)
  have hstored : ∀ version, world.document? (removal version).observed = some (.work (work "3")) :=
    fun _ => congrArg (Option.map Document.work) hwork
  have hgone : world.outcome (removal "3") = .removed :=
    (World.outcome_removeFinalizer hwork cleanupFinalizer).trans (if_pos ⟨rfl, by decide⟩)
  have hheld : (Document.work (work "3")).IsHeld := fun _ => by decide
  obtain ⟨-, hcurrent, -⟩ :=
    Patching.served_as_in_memory (fun _ => "4") world (removal "3") (hstored "3") trivial
  obtain ⟨-, -, houtdated⟩ :=
    Patching.served_as_in_memory (fun _ => "4") world (removal "2") (hstored "2") trivial
  obtain ⟨hrefused, failure, hanswer, -⟩ := houtdated "2" rfl (by decide) _ rfl
  exact ⟨hgone, hgone ▸ (hcurrent rfl hheld).1, _, rfl, hrefused, failure, hanswer⟩

end InMemory.Leaving

end MemberAgent
