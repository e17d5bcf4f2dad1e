import MemberAgent.Proofs.Apply.Accounting
import MemberAgent.Proofs.Apply.Reapplied

/-! When a Work whose manifests have been applied is looked at again without having changed, whatever
is replied. It is not if all manifests that failed are given up: documents that are none, and kinds
whose lookup failed in a way that is taken to be final. -/

namespace MemberAgent

open Reconcile

/-- Decoding fails for the document alone. -/
theorem Manifest.decode_error {ordinal : Nat} {d : Json} {failure : Failure}
    (h : decode ordinal d = .error failure) : ∃ message, failure = .decode ordinal message := by
  unfold decode at h
  cases hdecode : decode? d with
  | error fault =>
      rw [hdecode] at h
      cases h
      exact ⟨_, rfl⟩
  | ok object => rw [hdecode] at h; cases h

namespace Apply

/-- A document that is no manifest, and what is reported of it. -/
structure Undecodable (ordinal : Nat) (d : Json) (r : Result) : Prop where
  decode : ∃ message, Manifest.decode ordinal d = .error (.decode ordinal message) ∧
    r = .unresolved (.decode ordinal message)
  reason : r.failure?.map Failure.reason = some "ManifestDecodeFailed"

/-- A manifest that failed and is not tried again before it changes: it is none, or the lookup of its
kind was answered by a failure that is taken to be final. -/
inductive GivenUp (ordinal : Nat) (d : Json) (calls : List Exchange) : Result → Prop where
  | undecodable (r : Result) (h : Undecodable ordinal d r) : GivenUp ordinal d calls r
  | refused (object : ApiObject) (failure : Failure)
      (hdecode : Manifest.decode ordinal d = .ok object)
      (hlookup : ⟨.findMapping (Manifest.identify ordinal object).lookupKind, .error failure⟩ ∈ calls)
      (hfinal : failure.retryable = false) : GivenUp ordinal d calls (.unresolved failure)

/-- Whether every manifest that failed did so in some way. -/
def EachFailed (P : Nat → Json → Result → Prop) (l : List Json) (outcomes : List Outcome) : Prop :=
  ∀ i d o, l[i]? = some d → outcomes[i]? = some o → o.isApplied = false → P i d o.result

theorem EachFailed.mono {P Q : Nat → Json → Result → Prop} {l : List Json} {outcomes : List Outcome}
    (h : EachFailed P l outcomes) (himp : ∀ i d r, P i d r → Q i d r) : EachFailed Q l outcomes :=
  fun i d o hd ho hfailed => himp i d o.result (h i d o hd ho hfailed)

/-! ### One manifest -/

variable {owner : OwnerReference} {ordinal : Nat} {d : Json} {calls log : List Exchange}
  {outcomes : List Outcome} {o : Outcome} {r : Result}

theorem undecodable_of_decode {failure : Failure} (h : Manifest.decode ordinal d = .error failure) :
    Undecodable ordinal d (.unresolved failure) := by
  obtain ⟨message, rfl⟩ := Manifest.decode_error h
  exact ⟨⟨message, h, rfl⟩, rfl⟩

theorem GivenUp.mono (h : GivenUp ordinal d calls r) (hsub : calls ⊆ log) :
    GivenUp ordinal d log r := by
  cases h with
  | undecodable _ h => exact .undecodable _ h
  | refused object failure hdecode hlookup hfinal =>
      exact .refused object failure hdecode (hsub hlookup) hfinal

/-- Nothing that is given up may go away by itself. -/
theorem GivenUp.mayClear_eq (h : GivenUp ordinal d calls r) : r.mayClear = false := by
  cases h with
  | undecodable _ h =>
      obtain ⟨message, -, rfl⟩ := h.decode
      rfl
  | refused object failure hdecode hlookup hfinal => exact hfinal

/-- Where no lookup fails for good, only documents that are no manifests are given up. -/
theorem GivenUp.undecodable_of (h : GivenUp ordinal d calls r)
    (hlookups : ∀ kind failure, (⟨.findMapping kind, .error failure⟩ : Exchange) ∈ calls →
      failure.retryable = true) : Undecodable ordinal d r := by
  cases h with
  | undecodable _ h => exact h
  | refused object failure hdecode hlookup hfinal =>
      rw [hlookups _ failure hlookup] at hfinal
      cases hfinal

/-- A manifest that failed is given up, or it may go through some time. -/
theorem Treated.givenUp (h : Treated owner ordinal d calls o) (hfailed : o.isApplied = false)
    (hfinal : o.result.mayClear = false) : GivenUp ordinal d calls o.result := by
  cases h with
  | unresolved u hlookup =>
      cases hlookup with
      | undecodable failure hdecode => exact .undecodable _ (undecodable_of_decode hdecode)
      | refused object hdecode failure =>
          exact .refused object failure hdecode (List.mem_singleton.2 rfl) hfinal
      | unmapped object types hdecode htypes => cases hfinal
  | applied resolved action hlookup happly => cases hfailed
  | rejected resolved failure hlookup happly => cases hfinal

/-! ### All manifests -/

/-- What became of one manifest of many. -/
theorem TreatedEach.treated {l : List Json} (h : TreatedEach owner ordinal l log outcomes) {i : Nat}
    (hd : l[i]? = some d) (ho : outcomes[i]? = some o) :
    ∃ calls, calls ⊆ log ∧ Treated owner (ordinal + i) d calls o := by
  induction h generalizing i with
  | nil => cases hd
  | @cons ordinal d' rest first others o' outcomes h _ ih =>
      cases i with
      | zero =>
          cases hd
          cases ho
          exact ⟨first, List.subset_append_left first others, h⟩
      | succ i =>
          obtain ⟨calls, hsub, htreated⟩ := ih hd ho
          rw [Nat.add_right_comm] at htreated
          exact ⟨calls, fun e he => List.mem_append_right first (hsub he), htreated⟩

theorem mayClear_of_applied (h : o.isApplied = true) : o.result.mayClear = false := by
  unfold Outcome.isApplied at h
  cases hresult : o.result with
  | applied action => rfl
  | unresolved failure | rejected failure => rw [hresult] at h; cases h

/-- Nothing is to be tried again if and only if all that failed is given up. -/
theorem mayRetry_eq_false_iff {l : List Json} (h : TreatedEach owner 0 l log outcomes) :
    mayRetry outcomes = false ↔ EachFailed (fun i d r => GivenUp i d log r) l outcomes := by
  rw [mayRetry, List.any_eq_false]
  constructor
  · intro hfinal i d o hd ho hfailed
    obtain ⟨calls, hsub, htreated⟩ := h.treated hd ho
    rw [Nat.zero_add] at htreated
    have hclear := Bool.eq_false_iff.2 (hfinal o (List.mem_of_getElem? ho))
    exact (htreated.givenUp hfailed hclear).mono hsub
  · intro hgiven o ho
    refine Bool.eq_false_iff.1 ?_
    cases hfailed : o.isApplied with
    | true => exact mayClear_of_applied hfailed
    | false =>
        -- There are as many outcomes as documents, so the outcome is that of a document.
        obtain ⟨i, hi⟩ := List.getElem?_of_mem ho
        have hlt : i < l.length := h.length_eq ▸ (List.getElem?_eq_some_iff.1 hi).1
        exact (hgiven i l[i] o (List.getElem?_eq_getElem hlt) hi hfailed).mayClear_eq

theorem verdict_eq_awaitChange_iff (settings : Settings) (outcomes : List Outcome) :
    verdict settings outcomes = .awaitChange ↔ 0 < failed outcomes ∧ mayRetry outcomes = false := by
  rw [← Bool.not_eq_true']
  unfold verdict
  split
  · next h => exact iff_of_true rfl h
  · next h => exact iff_of_false nofun h

theorem verdict_cases (settings : Settings) (outcomes : List Outcome) :
    verdict settings outcomes = .awaitChange ∨
      verdict settings outcomes = .requeue settings.resyncSeconds := by
  unfold verdict
  split
  · exact Or.inl rfl
  · exact Or.inr rfl

/-! ### Whole Works -/

variable {settings : Settings} {clock : Nat → Timestamp} {w : Work} {applied : AppliedWork}
  {action : Action}

/-- Whether a status is stored, by the last of these calls or before any. -/
def IsStored (w : Work) (status : WorkStatus) (calls : List Exchange) : Prop :=
  calls = [] ∧ w.status = some status ∨ calls = [⟨.patchWorkStatus w status, .ok ()⟩]

theorem owningRecord_transcript (h : Transcript (owningRecord w) log (.ok applied)) :
    log = [⟨.getAppliedWork w.name, .ok (some applied)⟩] := by
  obtain ⟨_, -, hresult⟩ | ⟨found, first, rest, hfirst, hrest, rfl⟩ := Transcript.bind_iff.1 h
  · cases hresult
  obtain rfl := Transcript.request_iff.1 hfirst
  cases found with
  | none =>
      obtain ⟨-, hresult⟩ := Transcript.throw_iff.1 hrest
      cases hresult
  | some found =>
      obtain ⟨rfl, hresult⟩ := Transcript.pure_iff.1 hrest
      cases hresult
      rfl

/-- Reporting, where it goes through: the status is written unless it is the one that is stored. -/
theorem report_transcript {status : WorkStatus} {reported : Action}
    (h : Transcript (do
      if w.status ≠ some status then request (.patchWorkStatus w status)
      return reported) log (.ok action)) :
    IsStored w status log ∧ action = reported := by
  split at h
  · obtain ⟨_, -, hresult⟩ | ⟨_, first, rest, hfirst, hrest, rfl⟩ := Transcript.bind_iff.1 h
    · cases hresult
    obtain rfl := Transcript.request_iff.1 hfirst
    obtain ⟨rfl, hresult⟩ := Transcript.pure_iff.1 hrest
    cases hresult
    exact ⟨Or.inr rfl, rfl⟩
  · next hsame =>
      obtain ⟨rfl, hresult⟩ := Transcript.pure_iff.1 h
      cases hresult
      exact ⟨Or.inl ⟨rfl, Decidable.not_not.1 hsame⟩, rfl⟩

/-- The end of a reconcile, with what it asks for put in one place. -/
theorem reconcile_end (settings : Settings) (w : Work) (outcomes : List Outcome)
    (status : WorkStatus) :
    (do if w.status ≠ some status then request (.patchWorkStatus w status)
        if 0 < failed outcomes ∧ !mayRetry outcomes then return .awaitChange
        return .requeue settings.resyncSeconds : Reconcile Action) =
      (do if w.status ≠ some status then request (.patchWorkStatus w status)
          return verdict settings outcomes) := by
  unfold verdict
  split <;> rfl

/-- What a reconcile that goes through consists of, for a Work that is to be applied. -/
theorem reconcile_transcript (hstays : w.isDeleting = false) (hfinalizer : w.hasFinalizer = true)
    (hrecord : applied.isDeleting = false)
    (h : Transcript (reconcile settings clock w)
      (⟨.getAppliedWork w.name, .ok (some applied)⟩ :: log) (.ok action)) :
    ∃ owner calls reports outcomes status, applied.ownerReference = some owner ∧
      log = calls ++ reports ∧ (work clock w owner).Transcript calls (outcomes, status) ∧
      IsStored w status reports ∧ action = verdict settings outcomes := by
  unfold reconcile at h
  rw [hstays, hfinalizer] at h
  simp only [Bool.false_eq_true, if_false, Bool.not_true] at h
  obtain ⟨_, -, hresult⟩ | ⟨found, first, rest, hfound, hgoes, hlog⟩ := Transcript.bind_iff.1 h
  · cases hresult
  cases owningRecord_transcript hfound
  cases hlog
  rw [hrecord] at hgoes
  simp only [Bool.false_eq_true, if_false] at hgoes
  cases howner : applied.ownerReference with
  | none =>
      rw [howner] at hgoes
      obtain ⟨-, hresult⟩ := Transcript.throw_iff.1 hgoes
      cases hresult
  | some owner =>
      rw [howner] at hgoes
      obtain ⟨_, -, hresult⟩ | ⟨⟨outcomes, status⟩, calls, reports, hwork, hreport, rfl⟩ :=
        Transcript.bind_iff.1 hgoes
      · cases hresult
      obtain ⟨_, hwork, hresult⟩ := Transcript.lift_iff.1 hwork
      cases hresult
      rw [reconcile_end] at hreport
      obtain ⟨hstored, haction⟩ := report_transcript hreport
      exact ⟨owner, calls, reports, outcomes, status, rfl, rfl, hwork, hstored, haction⟩

/-- How applying a Work ends: its status accounts for all manifests, and it waits for its next change
if some of them failed and all that failed are given up. Otherwise it is looked at again. -/
structure Concludes (settings : Settings) (w : Work) (owner : OwnerReference)
    (calls : List Exchange) (outcomes : List Outcome) (status : WorkStatus) (action : Action) :
    Prop where
  treated : TreatedEach owner 0 w.manifests calls outcomes
  accounts : Accounts w.currentStatus w.metadata.generation w.manifests outcomes status
  actions : action = .awaitChange ∨ action = .requeue settings.resyncSeconds
  waits : action = .awaitChange ↔
    0 < failed outcomes ∧ EachFailed (fun i d r => GivenUp i d calls r) w.manifests outcomes

theorem verdict_concludes (settings : Settings) {calls : List Exchange} {status : WorkStatus}
    (hwork : (work clock w owner).Transcript calls (outcomes, status)) :
    Concludes settings w owner calls outcomes status (verdict settings outcomes) := by
  obtain ⟨htreated, haccounts⟩ := work_accounts hwork
  refine ⟨htreated, haccounts, verdict_cases settings outcomes, ?_⟩
  rw [verdict_eq_awaitChange_iff, mayRetry_eq_false_iff htreated]

/-- Where no lookup fails for good, a Work waits for its next change only on account of documents that
are no manifests. -/
theorem Concludes.waits_iff {calls : List Exchange} {status : WorkStatus}
    (h : Concludes settings w owner calls outcomes status action)
    (hlookups : ∀ kind failure, (⟨.findMapping kind, .error failure⟩ : Exchange) ∈ calls →
      failure.retryable = true) :
    action = .awaitChange ↔ 0 < failed outcomes ∧ EachFailed Undecodable w.manifests outcomes := by
  rw [h.waits]
  refine and_congr_right fun _ => ⟨fun hgiven => ?_, fun hmalformed => ?_⟩
  · exact hgiven.mono fun i d r hr => hr.undecodable_of hlookups
  · exact hmalformed.mono fun i d r hr => .undecodable r hr

/-- A Work that has been applied waits for its next change if and only if some manifest failed and all
that failed are given up; and these are all undecodable unless the lookup of a kind failed for good. -/
theorem waits_iff_given_up (hstays : w.isDeleting = false) (hfinalizer : w.hasFinalizer = true)
    (hrecord : applied.isDeleting = false)
    (h : Transcript (reconcile settings clock w)
      (⟨.getAppliedWork w.name, .ok (some applied)⟩ :: log) (.ok action)) :
    ∃ owner calls reports outcomes status, applied.ownerReference = some owner ∧
      log = calls ++ reports ∧ IsStored w status reports ∧
      Concludes settings w owner calls outcomes status action ∧
      ((∀ kind failure, (⟨.findMapping kind, .error failure⟩ : Exchange) ∈ calls →
          failure.retryable = true) →
        (action = .awaitChange ↔
          0 < failed outcomes ∧ EachFailed Undecodable w.manifests outcomes)) := by
  obtain ⟨owner, calls, reports, outcomes, status, howner, hlog, hwork, hstored, rfl⟩ :=
    reconcile_transcript hstays hfinalizer hrecord h
  have hconcludes := verdict_concludes settings hwork
  exact ⟨owner, calls, reports, outcomes, status, howner, hlog, hstored, hconcludes,
    hconcludes.waits_iff⟩

end Apply

/-! ### A kind that cannot be looked up for a while -/

namespace InMemory.Throttled

open Apply Demo

def throttled : Failure := .refused 429 "TooManyRequests" "too many requests"

/-- A Work of these manifests, which has never been applied. -/
def declaring (manifests : List Json) : Work := { Demo.work with manifests }

def malformed : Outcome :=
  ⟨{ ordinal := 0 }, .unresolved (.decode 0 "manifest must be an object, found null")⟩

def refused (ordinal : Nat) : Outcome :=
  ⟨{ ordinal, version := "v1", kind := "ConfigMap", «namespace» := "default", name := "m1" },
    .unresolved throttled⟩

/-- The only lookup is refused, and these outcomes are reported. -/
def calls (manifests : List Json) (outcomes : List Outcome) : List Exchange :=
  [⟨.findMapping ⟨"", "v1", "ConfigMap"⟩, .error throttled⟩,
    ⟨.patchWorkStatus (declaring manifests) (report {} none (fun _ => epoch) outcomes), .ok ()⟩]

theorem run_half_malformed : Transcript
    (reconcile {} (fun _ => epoch) (declaring [.null, configMap "m1"]))
    (⟨.getAppliedWork "demo", .ok (some record)⟩ ::
      calls [.null, configMap "m1"] [malformed, refused 1]) (.ok .awaitChange) :=
  .call _ (.call _ (.call _ (.done _)))

/-- One manifest is none and the kind of the other one cannot be looked up: both are given up. -/
theorem half_malformed_given_up : ∃ owner log outcomes status,
    record.ownerReference = some owner ∧
      Concludes {} (declaring [.null, configMap "m1"]) owner log outcomes status .awaitChange ∧
      EachFailed (fun i d r => GivenUp i d log r) [.null, configMap "m1"] outcomes := by
  obtain ⟨owner, log, reports, outcomes, status, howner, -, -, hconcludes, -⟩ :=
    waits_iff_given_up rfl rfl rfl run_half_malformed
  exact ⟨owner, log, outcomes, status, howner, hconcludes, (hconcludes.waits.1 rfl).2⟩

/-- Nobody looks at the Work again, though its manifest is one and the lookup may succeed next time. -/
theorem waits_when_throttled : ¬ ∀ log action, Transcript
    (reconcile {} (fun _ => epoch) (declaring [configMap "m1"]))
    (⟨.getAppliedWork "demo", .ok (some record)⟩ :: log) (.ok action) → action = .awaitChange →
    ∃ i d failure, [configMap "m1"][i]? = some d ∧ Manifest.decode i d = .error failure := by
  intro hclaim
  have hrun : Transcript (reconcile {} (fun _ => epoch) (declaring [configMap "m1"]))
      (⟨.getAppliedWork "demo", .ok (some record)⟩ :: calls [configMap "m1"] [refused 0])
      (.ok .awaitChange) := .call _ (.call _ (.call _ (.done _)))
  obtain ⟨i, d, failure, hd, hdecode⟩ := hclaim _ _ hrun rfl
  cases i with
  | zero => cases hd; cases hdecode
  | succ i => cases hd

end InMemory.Throttled

end MemberAgent
