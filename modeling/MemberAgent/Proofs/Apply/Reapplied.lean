import MemberAgent.Proofs.Apply.Restored
import MemberAgent.Proofs.InMemory.Mapper

/-! Applying a Work once more. When every manifest that resolves has its object in place, under its
hash and owned, applying the Work finds nothing to write; and what it reports then is what it has
reported before, with the times of then. -/

namespace MemberAgent

open InMemory World

/-- A condition keeps its time when it is followed by itself. -/
theorem Condition.succeed_again (old new : Condition) (later : Timestamp) :
    (old.succeed new).succeed { new with lastTransitionTime := later } = old.succeed new := by
  unfold Condition.succeed
  split <;> exact if_pos rfl

/-- Setting a condition again, at another time, changes nothing. -/
theorem setCondition_again (new : Condition) (later : Timestamp) (l : List Condition) :
    setCondition { new with lastTransitionTime := later } (setCondition new l) =
      setCondition new l := by
  induction l with
  | nil =>
      have hsame : new.succeed { new with lastTransitionTime := later } = new := if_pos rfl
      simp only [setCondition, if_true, hsame]
  | cons c rest ih =>
      by_cases htype : c.type = new.type
      · simp only [setCondition, if_pos htype, if_pos type_succeed, Condition.succeed_again]
      · simp only [setCondition, if_neg htype, ih]

namespace Apply

variable {previous : WorkStatus} {generation : Option Int} {clock : Nat → Timestamp} {ordinal : Nat}
  {outcomes : List Outcome}

/-- The outcome of a manifest that is found in place the next time. -/
def Outcome.again (o : Outcome) : Outcome :=
  match o.result with
  | .applied _ => { o with result := .applied .unchanged }
  | _ => o

namespace Outcome

theorem identifier_again (o : Outcome) : o.again.identifier = o.identifier := by
  unfold again
  split <;> rfl

theorem failure?_again (o : Outcome) : o.again.result.failure? = o.result.failure? := by
  unfold again
  split
  · next h => rw [h]; rfl
  · rfl

theorem mayClear_again (o : Outcome) : o.again.result.mayClear = o.result.mayClear := by
  unfold again
  split
  · next h => rw [h]; rfl
  · rfl

end Outcome

theorem failed_again (outcomes : List Outcome) :
    failed (outcomes.map Outcome.again) = failed outcomes := by
  rw [failed, List.countP_map]
  exact List.countP_congr fun o _ => by rw [Function.comp_apply, Outcome.failure?_again]

theorem mayRetry_again (outcomes : List Outcome) :
    mayRetry (outcomes.map Outcome.again) = mayRetry outcomes := by
  rw [mayRetry, List.any_map]
  exact congrArg outcomes.any (funext Outcome.mayClear_again)

/-- The conditions of a manifest are found by its ordinal. -/
theorem conditionsOf_eq {status : WorkStatus} {m : ManifestCondition}
    (hnodup : (status.manifestConditions.map fun m => m.identifier.ordinal).Nodup)
    (hm : m ∈ status.manifestConditions) :
    conditionsOf m.identifier.ordinal status = m.conditions := by
  have hsome : (status.manifestConditions.find? fun m' =>
      m'.identifier.ordinal = m.identifier.ordinal).isSome := by
    rw [List.find?_isSome]
    exact ⟨m, hm, decide_eq_true rfl⟩
  obtain ⟨found, hfound⟩ := Option.isSome_iff_exists.1 hsome
  have hordinal := List.find?_some hfound
  simp only [decide_eq_true_eq] at hordinal
  have hsame : found = m :=
    List.inj_on_of_nodup_map hnodup (List.mem_of_find?_eq_some hfound) hm hordinal
  rw [conditionsOf, hfound, hsame]
  rfl

theorem condition_again (o : Outcome) (generation : Option Int) (now later : Timestamp) :
    o.again.result.condition later generation =
      { o.result.condition now generation with lastTransitionTime := later } := by
  rw [Result.condition, Outcome.failure?_again, Result.condition]
  cases o.result.failure? <;> rfl

theorem aggregate_again (outcomes : List Outcome) (generation : Option Int)
    (now later : Timestamp) : aggregate (outcomes.map Outcome.again) generation later =
      { aggregate outcomes generation now with lastTransitionTime := later } := by
  rw [aggregate, failed_again, List.length_map, aggregate]
  split <;> rfl

/-- Where the conditions reported before are found by the ordinals of the outcomes, they are reported
again. -/
theorem manifestConditions_again {status : WorkStatus} {later : Nat → Timestamp}
    (hordinals : outcomes.map (fun o => o.identifier.ordinal) = List.range' ordinal outcomes.length)
    (hreported : ∀ m ∈ manifestConditions previous generation clock ordinal outcomes,
      conditionsOf m.identifier.ordinal status = m.conditions) :
    manifestConditions status generation later ordinal (outcomes.map Outcome.again) =
      manifestConditions previous generation clock ordinal outcomes := by
  induction outcomes generalizing ordinal with
  | nil => rfl
  | cons o rest ih =>
      rw [List.map_cons, List.length_cons, List.range'_succ] at hordinals
      obtain ⟨hordinal, hrest⟩ := List.cons.inj hordinals
      rw [manifestConditions] at hreported
      obtain ⟨hfirst, hlater⟩ := List.forall_mem_cons.1 hreported
      have hsame : conditionsOf ordinal status =
          setCondition (o.result.condition (clock ordinal) generation)
            (conditionsOf ordinal previous) := hordinal ▸ hfirst
      rw [List.map_cons, manifestConditions, manifestConditions, ih hrest hlater,
        Outcome.identifier_again, hsame,
        condition_again o generation (clock ordinal) (later ordinal), setCondition_again]

/-- What is reported again is what has been reported. -/
theorem report_again
    (hordinals : outcomes.map (fun o => o.identifier.ordinal) = List.range' 0 outcomes.length)
    (later : Nat → Timestamp) :
    report (report previous generation clock outcomes) generation later
      (outcomes.map Outcome.again) = report previous generation clock outcomes := by
  have hidentifiers := identifiers_of_tell
    (manifestConditions_tell previous generation clock 0 outcomes)
  have hnodup : ((report previous generation clock outcomes).manifestConditions.map
      fun m => m.identifier.ordinal).Nodup := by
    have hsame := congrArg (List.map ResourceIdentifier.ordinal) hidentifiers
    rw [List.map_map, List.map_map] at hsame
    have hrange := hsame.trans hordinals
    exact hrange ▸ List.nodup_range'
  have hconditions : (report previous generation clock outcomes).conditions =
      setCondition (aggregate outcomes generation (clock outcomes.length)) previous.conditions := rfl
  rw [report, manifestConditions_again hordinals fun m hm => conditionsOf_eq hnodup hm, hconditions,
    aggregate_again outcomes generation (clock outcomes.length), setCondition_again]
  rfl

end Apply

/-! ### Resolving by a mapper -/

namespace Manifest

variable {mapper : Mapper} {ordinal : Nat} {d : Json} {r : Resolved}

/-- What a document resolves to. -/
def resolution (mapper : Mapper) (ordinal : Nat) (document : Json) : Except Unresolved Resolved :=
  match decode ordinal document with
  | .error failure => .error { identifier := { ordinal }, failure }
  | .ok object =>
    let identifier := identify ordinal object
    let types := object.types.getD ⟨"", ""⟩
    match mapper identifier.lookupKind with
    | .error failure => .error { identifier, failure }
    | .ok none => .error { identifier, failure := .unmappable types.apiVersion types.kind }
    | .ok (some mapping) => .ok (place object identifier mapping)

theorem runBy_resolve (w : World) (ordinal : Nat) (d : Json) :
    w.runBy mapper (resolve ordinal d) = (resolution mapper ordinal d, w) := by
  unfold resolve resolution
  cases decode ordinal d with
  | error failure => rfl
  | ok object =>
      dsimp only
      have hfind : ∀ kind, w.runBy mapper (attempt (request (.findMapping kind))) =
          (mapper kind, w) := fun _ => rfl
      rw [runBy_bind_of (hfind _)]
      rcases mapper (identify ordinal object).lookupKind with failure | _ | mapping <;> rfl

/-- A manifest that resolves has its object where its identifier says. -/
theorem place_of_resolution (h : resolution mapper ordinal d = .ok r) :
    ObjectKey.ofObject r.mapping r.object = .ofIdentifier r.identifier := by
  unfold resolution at h
  cases hdecode : decode ordinal d with
  | error failure =>
      rw [hdecode] at h
      cases h
  | ok object =>
      rw [hdecode] at h
      dsimp only at h
      rcases hfound : mapper (identify ordinal object).lookupKind with failure | _ | mapping <;>
        rw [hfound] at h <;> cases h
      exact ofObject_place mapping (name_of_decode hdecode)

/-- The manifests that resolve, of documents numbered from `ordinal` on. -/
def resolvedAmong (mapper : Mapper) (ordinal : Nat) : List Json → List Resolved
  | [] => []
  | d :: rest =>
    (resolution mapper ordinal d).toOption.toList ++ resolvedAmong mapper (ordinal + 1) rest

/-- No two manifests declare one object in different ways. -/
def Agree (l : List Resolved) : Prop :=
  ∀ r ∈ l, ∀ r' ∈ l, ObjectKey.ofIdentifier r.identifier = .ofIdentifier r'.identifier →
    r.object.contentHash = r'.object.contentHash

end Manifest

theorem mergeOwners_eq_none {existing : List OwnerReference} {owner : OwnerReference}
    (h : ∃ r ∈ existing, r.uid = owner.uid) : mergeOwners existing owner = none := by
  obtain ⟨r, hr, huid⟩ := h
  exact if_pos (List.any_eq_true.2 ⟨r, hr, decide_eq_true huid⟩)

namespace Apply

open Manifest

variable {mapper : Mapper} {owner : OwnerReference} {r : Resolved} {l l' : List Resolved}
  {w w' w'' : World}

/-! ### Objects in place -/

/-- The object of a manifest is there, under the hash of the manifest, and is owned. -/
def InPlace (owner : OwnerReference) (r : Resolved) (w : World) : Prop :=
  ∃ live, w.member.object? (.ofIdentifier r.identifier) = some live ∧
    live.metadata.recordedHash = some r.object.contentHash ∧ live.IsOwnedBy owner.uid

/-- What applying manifests does: it brings their objects into place, and those that were in place
stay there unless they are declared in different ways. -/
structure Brings (owner : OwnerReference) (l : List Resolved) (w w' : World) : Prop where
  hub : w'.hub = w.hub
  records : w'.member.applied = w.member.applied
  placed : w'.member.Placed
  inPlace : ∀ r ∈ l, InPlace owner r w'
  kept : ∀ r, (∀ r' ∈ l, ObjectKey.ofIdentifier r.identifier = .ofIdentifier r'.identifier →
    r.object.contentHash = r'.object.contentHash) → InPlace owner r w → InPlace owner r w'

namespace Brings

theorem self (hplaced : w.member.Placed) (h : ∀ r ∈ l, InPlace owner r w) : Brings owner l w w :=
  ⟨rfl, rfl, hplaced, h, fun _ _ => id⟩

theorem append (h : Brings owner l w w') (h' : Brings owner l' w' w'') (hagree : Agree (l ++ l')) :
    Brings owner (l ++ l') w w'' where
  hub := h'.hub.trans h.hub
  records := h'.records.trans h.records
  placed := h'.placed
  inPlace r hr := by
    rcases List.mem_append.1 hr with hfirst | hsecond
    · exact h'.kept r (fun r' hr' => hagree r hr r' (List.mem_append_right l hr'))
        (h.inPlace r hfirst)
    · exact h'.inPlace r hsecond
  kept r hsame hr := by
    refine h'.kept r (fun r' hr' => hsame r' (List.mem_append_right l hr')) ?_
    exact h.kept r (fun r' hr' => hsame r' (List.mem_append_left l' hr')) hr

/-- One object that is written. -/
theorem put {key : ObjectKey} {o' : ApiObject} (hkey : key = .ofIdentifier r.identifier)
    (hplaced : w.member.Placed)
    (hplace : ObjectKey.ofObject r.mapping o' = .ofIdentifier r.identifier)
    (hhash : o'.metadata.recordedHash = some r.object.contentHash)
    (howned : o'.IsOwnedBy owner.uid) (lastUid writes : Nat) : Brings owner [r] w
      { w with member := { w.member.put key o' with lastUid := lastUid, writes := writes } } where
  hub := rfl
  records := rfl
  placed := by
    rw [hkey]
    exact hplaced.put ⟨congrArg ObjectKey.namespace hplace, congrArg ObjectKey.name hplace⟩
  inPlace r' hr' := by
    rw [List.mem_singleton.1 hr']
    exact ⟨o', (Member.object?_put ..).trans (if_pos hkey), hhash, howned⟩
  kept r' hsame hr' := by
    subst hkey
    obtain ⟨live, hlive, hrecorded, howned'⟩ := hr'
    by_cases hkey : ObjectKey.ofIdentifier r'.identifier = .ofIdentifier r.identifier
    · refine ⟨o', (Member.object?_put ..).trans (if_pos hkey.symm), ?_, howned⟩
      rw [hhash, hsame r (List.mem_singleton_self r) hkey]
    · refine ⟨live, (Member.object?_put ..).trans ((if_neg fun e => hkey e.symm).trans hlive), ?_⟩
      exact ⟨hrecorded, howned'⟩

end Brings

/-- A manifest whose object is in place has nothing to write. -/
theorem runBy_manifest_inPlace (mapper : Mapper)
    (hplace : ObjectKey.ofObject r.mapping r.object = .ofIdentifier r.identifier)
    (h : InPlace owner r w) :
    w.runBy mapper (attempt (manifest r owner)) = (.ok .unchanged, w) := by
  obtain ⟨live, hlive, hhash, howned⟩ := h
  unfold manifest attempt
  rw [runBy_request (answer_getObject w hplace), hlive]
  dsimp only
  rw [if_pos hhash, mergeOwners_eq_none howned]
  rfl

theorem Write.answerBy_eq {seen : Option ApiObject} {c : ClientCall} {action : ApplyAction}
    (h : Write r owner seen c action) (mapper : Mapper) (w : World) :
    w.answerBy mapper c = w.answer c := by
  cases h <;> rfl

/-- Applying a manifest brings its object into place. -/
theorem runBy_manifest (mapper : Mapper) (owner : OwnerReference) (hplaced : w.member.Placed)
    (hplace : ObjectKey.ofObject r.mapping r.object = .ofIdentifier r.identifier) :
    ∃ action w', w.runBy mapper (attempt (manifest r owner)) = (.ok action, w') ∧
      Brings owner [r] w w' := by
  obtain ⟨rest, hmanifest, hwrites⟩ := manifest_eq_write r owner
  rw [attempt, hmanifest, runBy_request (answer_getObject w hplace)]
  rcases hwrites (w.member.object? (.ofIdentifier r.identifier)) with
    ⟨live, hlive, hhash, howned, hrest⟩ | ⟨c, action, hwrite, hrest⟩ <;> rw [hrest]
  · have hthere : InPlace owner r w := ⟨live, hlive, hhash, isOwned_of_mergeOwners howned⟩
    exact ⟨_, w, rfl, .self hplaced fun r' hr' => List.mem_singleton.1 hr' ▸ hthere⟩
  -- A write that goes through does not fail, and neither does the application then.
  · obtain ⟨value, w', hperform⟩ := hwrite.exists_performed hplaced hplace
    refine ⟨action, w', ?_, ?_⟩
    · rw [runBy_request ((hwrite.answerBy_eq mapper w).trans (answer_of_perform hperform))]
      rfl
    · obtain ⟨o', lastUid, writes, rfl, hwhere, hrestored⟩ := hwrite.stores hplaced hplace hperform
      exact .put rfl hplaced hwhere hrestored.recorded hrestored.owned lastUid writes

/-- Where these manifests are in place, the program comes to this and changes nothing. -/
def Repeats (mapper : Mapper) (l : List Resolved) (owner : OwnerReference) {α : Type}
    (p : Program clientCalls α) (again : α) : Prop :=
  ∀ w : World, (∀ r ∈ l, InPlace owner r w) → w.runBy mapper p = (again, w)

/-- Applying a document brings the object of its manifest into place, and applying it again finds it
there. -/
theorem runBy_document (mapper : Mapper) (owner : OwnerReference) (ordinal : Nat) (d : Json)
    (hplaced : w.member.Placed) :
    ∃ o w', w.runBy mapper (document owner ordinal d) = (o, w') ∧
      Brings owner (resolution mapper ordinal d).toOption.toList w w' ∧
      Repeats mapper (resolution mapper ordinal d).toOption.toList owner (document owner ordinal d)
        o.again := by
  unfold document Repeats
  simp only [runBy_bind_of (runBy_resolve _ ordinal d)]
  cases hresolution : resolution mapper ordinal d with
  | error u => exact ⟨_, w, rfl, .self hplaced (List.forall_mem_nil _), fun _ _ => rfl⟩
  | ok r =>
      have hplace := place_of_resolution hresolution
      obtain ⟨action, w', hrun, hbrings⟩ := runBy_manifest mapper owner hplaced hplace
      refine ⟨⟨r.identifier, .applied action⟩, w', ?_, hbrings, fun v hthere => ?_⟩
      · dsimp only
        rw [runBy_bind_of hrun]
        rfl
      · have hunchanged := runBy_manifest_inPlace mapper hplace
          (hthere r (List.mem_singleton_self r))
        dsimp only
        rw [runBy_bind_of hunchanged]
        rfl

theorem runBy_documents (owner : OwnerReference) (ordinal : Nat) (l : List Json)
    (hplaced : w.member.Placed) (hagree : Agree (resolvedAmong mapper ordinal l)) :
    ∃ outcomes w', w.runBy mapper (documents owner ordinal l) = (outcomes, w') ∧
      Brings owner (resolvedAmong mapper ordinal l) w w' ∧
      Repeats mapper (resolvedAmong mapper ordinal l) owner (documents owner ordinal l)
        (outcomes.map Outcome.again) := by
  induction l generalizing w ordinal with
  | nil => exact ⟨[], w, rfl, .self hplaced (List.forall_mem_nil _), fun _ _ => rfl⟩
  | cons d rest ih =>
      obtain ⟨o, w', hfirst, hbrings, hagain⟩ := runBy_document mapper owner ordinal d hplaced
      obtain ⟨outcomes, w'', hrest, hbrings', hagain'⟩ := ih (ordinal + 1) hbrings.placed
        fun r hr r' hr' => hagree r (List.mem_append_right _ hr) r' (List.mem_append_right _ hr')
      refine ⟨o :: outcomes, w'', ?_, hbrings.append hbrings' hagree, fun v hthere => ?_⟩
      · rw [documents, runBy_bind_of hfirst, runBy_bind_of hrest]
        rfl
      · have hhead := hagain v fun r hr => hthere r (List.mem_append_left _ hr)
        have htail := hagain' v fun r hr => hthere r (List.mem_append_right _ hr)
        rw [documents, runBy_bind_of hhead, runBy_bind_of htail]
        rfl

/-! ### Whole Works -/

/-- What a reconcile asks for after these outcomes. -/
def verdict (settings : Settings) (outcomes : List Outcome) : Action :=
  if 0 < failed outcomes ∧ !mayRetry outcomes then .awaitChange
  else .requeue settings.resyncSeconds

theorem verdict_again (settings : Settings) (outcomes : List Outcome) :
    verdict settings (outcomes.map Outcome.again) = verdict settings outcomes := by
  rw [verdict, failed_again, mayRetry_again, verdict]

variable {work : Work} {applied : AppliedWork} {outcomes : List Outcome} {settings : Settings}

theorem runBy_owningRecord (mapper : Mapper) (w : World) (work : Work) :
    w.runBy mapper (owningRecord work).run = ((w.member.applied? work.name).elim
      (.error (.consistency work.name "work controller didn't create the appliedWork")) .ok, w) := by
  have hget : w.answerBy mapper (.getAppliedWork work.name) =
      (.ok (w.member.applied? work.name), w) := rfl
  rw [owningRecord, runBy_request hget]
  cases w.member.applied? work.name <;> rfl

/-- A Work is left alone, or it is one to be applied. -/
theorem idle_or_applicable (mapper : Mapper) (settings : Settings) (work : Work) (w : World) :
    (∃ result, ∀ clock, w.runBy mapper (reconcile settings clock work).run = (result, w)) ∨
      ∃ applied owner, IsApplicable work applied w ∧ applied.ownerReference = some owner := by
  unfold reconcile
  cases hdeleting : work.isDeleting with
  | true => exact .inl ⟨.ok .awaitChange, fun _ => rfl⟩
  | false =>
    cases hfinalizer : work.hasFinalizer with
    | false => exact .inl ⟨.ok (.requeue finalizerWaitSeconds), fun _ => rfl⟩
    | true =>
      simp only [Bool.false_eq_true, if_false, Bool.not_true]
      have hrecord := runBy_owningRecord mapper w work
      cases hthere : w.member.applied? work.name with
      | none =>
          rw [hthere] at hrecord
          exact .inl ⟨_, fun _ => runBy_bind_of hrecord _⟩
      | some applied =>
          rw [hthere] at hrecord
          simp only [runBy_andThen (show _ = (Except.ok applied, w) from hrecord)]
          cases hgoing : applied.isDeleting with
          | true => exact .inl ⟨.ok .awaitChange, fun _ => rfl⟩
          | false =>
            cases howner : applied.ownerReference with
            | none => exact .inl ⟨_, fun _ => rfl⟩
            | some owner =>
                exact .inr ⟨applied, owner, ⟨hfinalizer, hdeleting, hthere, hgoing⟩, howner⟩

/-- A Work is reported on after its documents have been applied. -/
theorem runBy_reconcile (clock : Nat → Timestamp) (happlicable : IsApplicable work applied w)
    (howner : applied.ownerReference = some owner)
    (hdocuments : w.runBy mapper (documents owner 0 work.manifests) = (outcomes, w')) :
    let status := report work.currentStatus work.metadata.generation clock outcomes
    w.runBy mapper (reconcile settings clock work).run = w'.runBy mapper
      (do if work.status ≠ some status then request (.patchWorkStatus work status)
          return verdict settings outcomes : Reconcile Action).run := by
  intro status
  have hrecord : w.runBy mapper (owningRecord work).run = (.ok applied, w) := by
    rw [runBy_owningRecord, happlicable.recordThere]
    rfl
  have hwork : w.runBy mapper (ExceptT.lift (Apply.work clock work owner) : Reconcile _).run =
      (.ok (outcomes, status), w') := by
    refine runBy_lift ?_
    rw [Apply.work, runBy_bind_of hdocuments]
    rfl
  unfold reconcile verdict
  rw [happlicable.workStays, happlicable.finalizer]
  simp only [Bool.false_eq_true, if_false, Bool.not_true]
  rw [runBy_andThen hrecord, happlicable.recordStays, howner]
  simp only [Bool.false_eq_true, if_false]
  rw [runBy_andThen hwork]
  dsimp only
  split <;> split <;> rfl

/-- Where everything is in place and the report of that is in the status, there is nothing to do. -/
theorem runBy_reconcile_settled (work : Work) {current : Work} (earlier clock : Nat → Timestamp)
    (happlicable : IsApplicable current applied w)
    (howner : applied.ownerReference = some owner)
    (hdocuments : w.runBy mapper (documents owner 0 current.manifests) =
      (outcomes.map Outcome.again, w))
    (hordinals : outcomes.map (fun o => o.identifier.ordinal) = List.range' 0 outcomes.length)
    (hstatus : current.status =
      some (report work.currentStatus current.metadata.generation earlier outcomes)) :
    w.runBy mapper (reconcile settings clock current).run =
      (.ok (verdict settings outcomes), w) := by
  have hsame : report current.currentStatus current.metadata.generation clock
      (outcomes.map Outcome.again) =
        report work.currentStatus current.metadata.generation earlier outcomes := by
    rw [Work.currentStatus, hstatus]
    exact report_again hordinals clock
  rw [runBy_reconcile clock happlicable howner hdocuments, hsame, hstatus, verdict_again]
  simp only [ne_eq, not_true_eq_false, if_false]
  rfl

/-- A report that goes through changes the hub only. -/
theorem reported_of_runBy {status : WorkStatus} {action action' : Action}
    (hrun : w.runBy mapper (do request (.patchWorkStatus work status); return action :
      Reconcile Action).run = (.ok action', w')) :
    ∃ hub, w.hub.patchStatus work status = .ok hub ∧ action = action' ∧ { w with hub } = w' := by
  rcases answer_cases w (.patchWorkStatus work status) with
    ⟨failure, -, hanswer⟩ | ⟨value, v, hperform, hanswer⟩
  · have hfails : w.runBy mapper (request (.patchWorkStatus work status)).run =
        (.error failure, w) := hanswer
    have hrun' := (runBy_bind_of hfails _).symm.trans hrun
    cases hrun'
  · have hgoes : w.answerBy mapper (.patchWorkStatus work status) = (.ok value, v) := hanswer
    rw [runBy_request hgoes] at hrun
    obtain ⟨hub, hpatched, rfl⟩ := onHub_eq_ok hperform
    cases hrun
    exact ⟨hub, hpatched, rfl, rfl⟩

/-- When applying the current copy of a Work succeeds, applying the copy that is current then changes
nothing at all, at whatever time, and comes to the same action; with manifests among them that cannot
be decoded or resolved, but with none that declare one object in different ways. -/
theorem reapplied_unchanged {clock : Nat → Timestamp} {action : Action}
    (hplaced : w.member.Placed) (hcurrent : w.hub.work? (.ofWork work) = some work)
    (hagree : Agree (resolvedAmong mapper 0 work.manifests))
    (hrun : w.runBy mapper (reconcile settings clock work).run = (.ok action, w')) :
    ∃ work', w'.hub.work? (.ofWork work) = some work' ∧ ∀ later : Nat → Timestamp,
      w'.runBy mapper (reconcile settings later work').run = (.ok action, w') := by
  rcases idle_or_applicable mapper settings work w with
    ⟨result, hidle⟩ | ⟨applied, owner, happlicable, howner⟩
  · cases (hidle clock).symm.trans hrun
    exact ⟨work, hcurrent, hidle⟩
  obtain ⟨outcomes, v, hdocuments, hbrings, hrepeats⟩ :=
    runBy_documents owner 0 work.manifests hplaced hagree
  have hordinals : outcomes.map (fun o => o.identifier.ordinal) = List.range' 0 outcomes.length := by
    have hyields := yields_runBy mapper w
      (documents_ordinals owner 0 work.manifests)
    rw [hdocuments] at hyields
    have hlength : outcomes.length = work.manifests.length := by
      simpa using congrArg List.length hyields
    rw [hlength]
    exact hyields
  have hthere : v.member.applied? work.name = some applied := by
    rw [Member.applied?, hbrings.records]
    exact happlicable.recordThere
  rw [runBy_reconcile clock happlicable howner hdocuments] at hrun
  by_cases hsame : work.status =
      some (report work.currentStatus work.metadata.generation clock outcomes)
  · simp only [hsame, ne_eq, not_true_eq_false, if_false] at hrun
    cases hrun
    refine ⟨work, hbrings.hub ▸ hcurrent, fun later => ?_⟩
    exact runBy_reconcile_settled work clock later
      { happlicable with recordThere := hthere } howner
      (hrepeats w' hbrings.inPlace) hordinals hsame
  · simp only [ne_eq, hsame, not_false_eq_true, if_true] at hrun
    obtain ⟨hub, hpatched, rfl, rfl⟩ := reported_of_runBy hrun
    obtain ⟨stored, hstored, -, rfl⟩ := (Hub.write_eq_ok_iff _).1 hpatched
    cases (hbrings.hub ▸ hstored).symm.trans hcurrent
    refine ⟨_, (Hub.work?_put ..).trans (if_pos rfl), fun later => ?_⟩
    exact runBy_reconcile_settled work clock later
      { happlicable with recordThere := hthere } howner
      (hrepeats { v with hub := _ } hbrings.inPlace) hordinals rfl

end Apply

/-! ### Manifests of which some fail -/

namespace InMemory.Failing

open Manifest

def secret : Json :=
  .obj [("apiVersion", .str "v1"), ("kind", .str "Secret"), ("metadata", .obj [("name", .str "m2")])]

/-- Looking up secrets fails. -/
def mapper : Mapper := fun kind =>
  if kind.kind = "Secret" then .error (.timeout "discovery" 10) else .ok (Demo.start.mapping? kind)

def work : Work := { Demo.work with manifests := [.null, secret, Demo.configMap "m1"] }

def start : World := { Demo.start with hub := ({} : Hub).put Demo.name work }

def apply (w : World) (clock : Nat → Timestamp) (work : Work) : Except Failure Action × World :=
  w.runBy mapper (Apply.reconcile {} clock work).run

theorem agree_manifests : Agree (resolvedAmong mapper 0 work.manifests) := by
  let object : ApiObject := {
    types := some ⟨"v1", "ConfigMap"⟩
    metadata := { name := some "m1", «namespace» := some "default" } }
  have hobject : ∀ r ∈ resolvedAmong mapper 0 work.manifests, r.object = object :=
    List.forall_mem_cons.2 ⟨rfl, List.forall_mem_nil _⟩
  intro r hr r' hr' _
  rw [hobject r hr, hobject r' hr']

/-- The second time, the failures are met again, and nothing is written. -/
theorem reapplied_after_failures : let w := (apply start (fun _ => Demo.epoch) work).2
    w.member.writes = 1 ∧ ∃ work', w.hub.work? Demo.name = some work' ∧
      ∀ later, apply w later work' = (.ok (.requeue 60), w) := by
  intro w
  have hrun : apply start (fun _ => Demo.epoch) work = (.ok (.requeue 60), w) := Prod.ext rfl rfl
  have hplaced : start.member.Placed := by rintro key o ⟨⟩
  exact ⟨rfl, Apply.reapplied_unchanged hplaced rfl agree_manifests hrun⟩

end InMemory.Failing

end MemberAgent
