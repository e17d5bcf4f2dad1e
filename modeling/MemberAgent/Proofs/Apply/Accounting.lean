import MemberAgent.Proofs.Apply.Truthful
import MemberAgent.Proofs.Program.Transcript

/-! What applying a Work asks for and what it reports, whatever is replied. Every manifest is resolved
once and in order, those that resolve are applied, and the status accounts for each of them under its
ordinal. What others have said about the Work stays in the status. -/

namespace MemberAgent

open Reconcile

/-- Setting a condition leaves those of other types as they are. -/
theorem filter_setCondition (new : Condition) (l : List Condition) :
    ((setCondition new l).filter fun c => c.type ≠ new.type) =
      l.filter fun c => c.type ≠ new.type := by
  induction l with
  | nil => exact List.filter_cons_of_neg (by simp)
  | cons c rest ih =>
      unfold setCondition
      by_cases htype : c.type = new.type
      · rw [if_pos htype, List.filter_cons_of_neg (by simp [type_succeed]),
          List.filter_cons_of_neg (by simp [htype])]
      · rw [if_neg htype, List.filter_cons_of_pos (by simp [htype]),
          List.filter_cons_of_pos (by simp [htype]), ih]

namespace Apply

/-! ### What is asked -/

/-- One manifest being resolved: what is asked, what is replied, and how it ends. A document that
cannot be decoded asks for nothing. -/
inductive Lookup (ordinal : Nat) (d : Json) :
    List Exchange → Except Manifest.Unresolved Manifest.Resolved → Prop where
  | undecodable (failure : Failure) (hdecode : Manifest.decode ordinal d = .error failure) :
      Lookup ordinal d [] (.error ⟨{ ordinal }, failure⟩)
  | refused (object : ApiObject) (hdecode : Manifest.decode ordinal d = .ok object)
      (failure : Failure) :
      Lookup ordinal d [⟨.findMapping (Manifest.identify ordinal object).lookupKind, .error failure⟩]
        (.error ⟨Manifest.identify ordinal object, failure⟩)
  | unmapped (object : ApiObject) (types : TypeMeta)
      (hdecode : Manifest.decode ordinal d = .ok object)
      (htypes : object.types.getD ⟨"", ""⟩ = types) :
      Lookup ordinal d [⟨.findMapping (Manifest.identify ordinal object).lookupKind, .ok none⟩]
        (.error ⟨Manifest.identify ordinal object, .unmappable types.apiVersion types.kind⟩)
  | mapped (object : ApiObject) (hdecode : Manifest.decode ordinal d = .ok object)
      (mapping : ResourceMapping) :
      Lookup ordinal d
        [⟨.findMapping (Manifest.identify ordinal object).lookupKind, .ok (some mapping)⟩]
        (.ok (Manifest.place object (Manifest.identify ordinal object) mapping))

/-- What is written over an object of other content: the declared object, in the same version. -/
def replacement (resolved : Manifest.Resolved) (owner : OwnerReference) (live : ApiObject) :
    ApiObject :=
  let stamped := stamp resolved.object resolved.object.contentHash
    (withOwner live.metadata.owners owner)
  { stamped with
    metadata := { stamped.metadata with resourceVersion := live.metadata.resourceVersion } }

/-- The write that a resolved manifest comes to, when its object has been looked at. -/
inductive Write (resolved : Manifest.Resolved) (owner : OwnerReference) :
    Option ApiObject → ClientCall → ApplyAction → Prop where
  | create : Write resolved owner none
      (.createObject resolved.mapping (stamp resolved.object resolved.object.contentHash
        (withOwner resolved.object.metadata.owners owner))) .created
  | addOwner (live : ApiObject) (owners : List OwnerReference)
      (hsame : live.metadata.recordedHash = some resolved.object.contentHash)
      (howners : mergeOwners live.metadata.owners owner = some owners) :
      Write resolved owner (some live) (.patchOwners resolved.mapping live owners) .ownerAdded
  | replace (live : ApiObject)
      (hother : live.metadata.recordedHash ≠ some resolved.object.contentHash) :
      Write resolved owner (some live)
        (.replaceObject resolved.mapping (replacement resolved owner live)) .updated

/-- One resolved manifest being applied: its object is looked at, and written at most once. -/
inductive Application (resolved : Manifest.Resolved) (owner : OwnerReference) :
    List Exchange → Except Failure ApplyAction → Prop where
  | unread (failure : Failure) :
      Application resolved owner
        [⟨.getObject resolved.mapping resolved.identifier.namespace resolved.identifier.name,
          .error failure⟩] (.error failure)
  | unchanged (live : ApiObject)
      (hsame : live.metadata.recordedHash = some resolved.object.contentHash)
      (howned : mergeOwners live.metadata.owners owner = none) :
      Application resolved owner
        [⟨.getObject resolved.mapping resolved.identifier.namespace resolved.identifier.name,
          .ok (some live)⟩] (.ok .unchanged)
  | written (seen : Option ApiObject) (c : ClientCall) (action : ApplyAction)
      (hwrite : Write resolved owner seen c action) (reply : Except Failure c.Value) :
      Application resolved owner
        [⟨.getObject resolved.mapping resolved.identifier.namespace resolved.identifier.name,
          .ok seen⟩, ⟨c, reply⟩] (reply.map fun _ => action)

/-- One manifest from beginning to end: one that does not resolve makes no call but to resolve it. -/
inductive Treated (owner : OwnerReference) (ordinal : Nat) (d : Json) :
    List Exchange → Outcome → Prop where
  | unresolved {log : List Exchange} (u : Manifest.Unresolved)
      (hlookup : Lookup ordinal d log (.error u)) :
      Treated owner ordinal d log ⟨u.identifier, .unresolved u.failure⟩
  | applied {log calls : List Exchange} (resolved : Manifest.Resolved) (action : ApplyAction)
      (hlookup : Lookup ordinal d log (.ok resolved))
      (happly : Application resolved owner calls (.ok action)) :
      Treated owner ordinal d (log ++ calls) ⟨resolved.identifier, .applied action⟩
  | rejected {log calls : List Exchange} (resolved : Manifest.Resolved) (failure : Failure)
      (hlookup : Lookup ordinal d log (.ok resolved))
      (happly : Application resolved owner calls (.error failure)) :
      Treated owner ordinal d (log ++ calls) ⟨resolved.identifier, .rejected failure⟩

/-- All manifests, each treated once and in order, whatever becomes of the others. -/
inductive TreatedEach (owner : OwnerReference) :
    Nat → List Json → List Exchange → List Outcome → Prop where
  | nil (ordinal : Nat) : TreatedEach owner ordinal [] [] []
  | cons {ordinal : Nat} {d : Json} {rest : List Json} {log logs : List Exchange} {o : Outcome}
      {outcomes : List Outcome} (h : Treated owner ordinal d log o)
      (hrest : TreatedEach owner (ordinal + 1) rest logs outcomes) :
      TreatedEach owner ordinal (d :: rest) (log ++ logs) (o :: outcomes)

variable {owner : OwnerReference} {ordinal : Nat} {d : Json} {log : List Exchange}

theorem resolve_lookup {result : Except Manifest.Unresolved Manifest.Resolved}
    (h : (Manifest.resolve ordinal d).Transcript log result) : Lookup ordinal d log result := by
  unfold Manifest.resolve at h
  cases hdecode : Manifest.decode ordinal d with
  | error failure =>
      rw [hdecode] at h
      obtain ⟨rfl, rfl⟩ := Program.Transcript.done_iff.1 h
      exact .undecodable failure hdecode
  | ok object =>
      rw [hdecode] at h
      obtain ⟨reply, first, rest, hfirst, hrest, rfl⟩ := Program.Transcript.bind_iff.1 h
      obtain rfl := Transcript.request_iff.1 hfirst
      rcases reply with failure | _ | mapping <;>
        obtain ⟨rfl, rfl⟩ := Program.Transcript.done_iff.1 hrest
      · exact .refused object hdecode failure
      · exact .unmapped object _ hdecode rfl
      · exact .mapped object hdecode mapping

/-- A call whose value does not matter, at the end of a program. -/
theorem request_map_transcript {c : ClientCall} {action : ApplyAction}
    {result : Except Failure ApplyAction}
    (h : Transcript (request c >>= fun _ => pure action) log result) :
    ∃ reply : Except Failure c.Value, log = [⟨c, reply⟩] ∧ result = reply.map fun _ => action := by
  rcases Transcript.bind_iff.1 h with ⟨failure, hcall, rfl⟩ | ⟨value, first, rest, hcall, hend, rfl⟩
  · exact ⟨.error failure, Transcript.request_iff.1 hcall, rfl⟩
  · obtain ⟨rfl, rfl⟩ := Transcript.pure_iff.1 hend
    obtain rfl := Transcript.request_iff.1 hcall
    exact ⟨.ok value, rfl, rfl⟩

/-- After the look at the object, there is nothing to do or one write to make. -/
theorem manifest_eq_write (r : Manifest.Resolved) (owner : OwnerReference) :
    ∃ rest, manifest r owner = request (.getObject r.mapping r.identifier.namespace
        r.identifier.name) >>= rest ∧
      ∀ seen, (∃ live, seen = some live ∧
          live.metadata.recordedHash = some r.object.contentHash ∧
          mergeOwners live.metadata.owners owner = none ∧ rest seen = pure .unchanged) ∨
        ∃ c action, Write r owner seen c action ∧
          rest seen = request c >>= fun _ => pure action := by
  refine ⟨_, rfl, ?_⟩
  rintro (_ | live)
  · exact Or.inr ⟨_, _, .create, rfl⟩
  · dsimp only
    split
    · next hsame =>
        cases howners : mergeOwners live.metadata.owners owner with
        | none => exact Or.inl ⟨live, rfl, hsame, howners, rfl⟩
        | some owners => exact Or.inr ⟨_, _, .addOwner live owners hsame howners, rfl⟩
    · next hother => exact Or.inr ⟨_, _, .replace live hother, rfl⟩

theorem manifest_application {resolved : Manifest.Resolved} {result : Except Failure ApplyAction}
    (h : Transcript (manifest resolved owner) log result) : Application resolved owner log result := by
  obtain ⟨goesOn, hmanifest, hwrites⟩ := manifest_eq_write resolved owner
  rw [hmanifest] at h
  rcases Transcript.bind_iff.1 h with ⟨failure, hget, rfl⟩ | ⟨seen, first, rest, hget, hgoes, rfl⟩
  · obtain rfl := Transcript.request_iff.1 hget
    exact .unread failure
  obtain rfl := Transcript.request_iff.1 hget
  rcases hwrites seen with ⟨live, rfl, hsame, howned, hends⟩ | ⟨c, action, hwrite, hends⟩ <;>
    rw [hends] at hgoes
  · obtain ⟨rfl, rfl⟩ := Transcript.pure_iff.1 hgoes
    exact .unchanged live hsame howned
  · obtain ⟨reply, rfl, rfl⟩ := request_map_transcript hgoes
    exact .written seen c action hwrite reply

theorem document_treated {o : Outcome} (h : (document owner ordinal d).Transcript log o) :
    Treated owner ordinal d log o := by
  obtain ⟨resolved, first, rest, hfirst, hrest, rfl⟩ := Program.Transcript.bind_iff.1 h
  have hlookup := resolve_lookup hfirst
  cases resolved with
  | error u =>
      obtain ⟨rfl, rfl⟩ := Program.Transcript.done_iff.1 hrest
      rw [List.append_nil]
      exact .unresolved u hlookup
  | ok resolved =>
      obtain ⟨result, calls, last, hcalls, hlast, rfl⟩ := Program.Transcript.bind_iff.1 hrest
      have happly := manifest_application hcalls
      cases result <;> obtain ⟨rfl, rfl⟩ := Program.Transcript.done_iff.1 hlast <;>
        rw [List.append_nil]
      · exact .rejected resolved _ hlookup happly
      · exact .applied resolved _ hlookup happly

theorem documents_treated {l : List Json} {outcomes : List Outcome}
    (h : (documents owner ordinal l).Transcript log outcomes) :
    TreatedEach owner ordinal l log outcomes := by
  induction l generalizing ordinal log outcomes with
  | nil =>
      obtain ⟨rfl, rfl⟩ := Program.Transcript.done_iff.1 h
      exact .nil ordinal
  | cons d rest ih =>
      obtain ⟨o, first, tail, hfirst, htail, rfl⟩ := Program.Transcript.bind_iff.1 h
      obtain ⟨others, second, last, hsecond, hlast, rfl⟩ := Program.Transcript.bind_iff.1 htail
      obtain ⟨rfl, rfl⟩ := Program.Transcript.done_iff.1 hlast
      rw [List.append_nil]
      exact .cons (document_treated hfirst) (ih hsecond)

theorem Lookup.ordinal_eq {u : Manifest.Unresolved} (h : Lookup ordinal d log (.error u)) :
    u.identifier.ordinal = ordinal := by
  cases h <;> rfl

theorem Lookup.ordinal_eq_of_ok {resolved : Manifest.Resolved}
    (h : Lookup ordinal d log (.ok resolved)) : resolved.identifier.ordinal = ordinal := by
  cases h with
  | mapped object hdecode mapping =>
      unfold Manifest.place
      split <;> rfl

theorem Treated.ordinal_eq {o : Outcome} (h : Treated owner ordinal d log o) :
    o.identifier.ordinal = ordinal := by
  cases h with
  | unresolved u hlookup => exact hlookup.ordinal_eq
  | applied resolved action hlookup | rejected resolved failure hlookup =>
      exact hlookup.ordinal_eq_of_ok

namespace TreatedEach

variable {l : List Json} {outcomes : List Outcome}

theorem length_eq (h : TreatedEach owner ordinal l log outcomes) : outcomes.length = l.length := by
  induction h with
  | nil => rfl
  | cons _ _ ih => rw [List.length_cons, List.length_cons, ih]

theorem ordinal_eq (h : TreatedEach owner ordinal l log outcomes) {i : Nat} {o : Outcome}
    (ho : outcomes[i]? = some o) : o.identifier.ordinal = ordinal + i := by
  induction h generalizing i with
  | nil => cases ho
  | cons h _ ih =>
      cases i with
      | zero => cases ho; exact h.ordinal_eq
      | succ i => rw [ih ho]; omega

end TreatedEach

/-! ### What is reported -/

variable {previous : WorkStatus} {generation : Option Int} {clock : Nat → Timestamp}
  {outcomes : List Outcome}

/-- What an `Applied` condition says of the outcome of a manifest. -/
structure Says (generation : Option Int) (r : Result) (c : Condition) : Prop where
  stamped : c.observedGeneration = generation
  success : c.status = .isTrue ↔ r.failure? = none
  failure : ∀ failure, r.failure? = some failure →
    c.status = .isFalse ∧ c.reason = failure.reason ∧ c.message = failure.message

theorem says_condition (r : Result) (now time : Timestamp) :
    Says generation r { r.condition now generation with lastTransitionTime := time } := by
  unfold Result.condition
  cases hresult : r.failure? with
  | none => exact ⟨rfl, iff_of_true rfl hresult, fun _ h => by rw [hresult] at h; cases h⟩
  | some failure =>
      refine ⟨rfl, iff_of_false nofun (by rw [hresult]; nofun), fun _ h => ?_⟩
      cases hresult.symm.trans h
      exact ⟨rfl, rfl, rfl⟩

/-- The entry of a manifest in a new status, after the outcome that it had. -/
structure Entry (previous : WorkStatus) (generation : Option Int) (ordinal : Nat) (o : Outcome)
    (m : ManifestCondition) : Prop where
  identifier : m.identifier = o.identifier
  applied : ∃ c, findCondition appliedCondition m.conditions = some c ∧ Says generation o.result c
  others : (m.conditions.filter fun c => c.type ≠ appliedCondition) =
    (conditionsOf ordinal previous).filter fun c => c.type ≠ appliedCondition

theorem manifestConditions_entry {i : Nat} {m : ManifestCondition}
    (hm : (manifestConditions previous generation clock ordinal outcomes)[i]? = some m) :
    ∃ o, outcomes[i]? = some o ∧ Entry previous generation (ordinal + i) o m := by
  induction outcomes generalizing ordinal i with
  | nil => cases hm
  | cons o rest ih =>
      cases i with
      | zero =>
          cases hm
          let new := o.result.condition (clock ordinal) generation
          have htype : new.type = appliedCondition := type_condition _ _
          obtain ⟨time, hfound⟩ := findCondition_setCondition_eq new (conditionsOf ordinal previous)
          refine ⟨o, rfl, rfl, ⟨{ new with lastTransitionTime := time }, ?_, says_condition ..⟩, ?_⟩
          · rw [← htype]
            exact hfound
          · rw [← htype]
            exact filter_setCondition new _
      | succ i =>
          obtain ⟨o', ho', hentry⟩ := ih hm
          rw [Nat.add_right_comm] at hentry
          exact ⟨o', ho', hentry⟩

theorem failed_eq_countP {l : List ManifestCondition}
    (h : List.Forall₂ (Tells generation) outcomes l) :
    failed outcomes = l.countP fun m => !isConditionTrue appliedCondition m.conditions := by
  induction h with
  | nil => rfl
  | cons htells _ ih =>
      rw [failed, List.countP_cons, List.countP_cons, ← ih, htells.applied, Outcome.isApplied, failed]
      congr 2
      rw [Option.not_isNone]

/-- How a new status accounts for the outcomes of the manifests: an entry for each under its ordinal,
the number of those that failed, and the whole. Conditions of other types are carried over. -/
structure Accounts (previous : WorkStatus) (generation : Option Int) (manifests : List Json)
    (outcomes : List Outcome) (status : WorkStatus) : Prop where
  entries : status.manifestConditions.length = manifests.length
  ordinals : ∀ (i : Nat) m, status.manifestConditions[i]? = some m → m.identifier.ordinal = i
  entry : ∀ (i : Nat) m, status.manifestConditions[i]? = some m →
    ∃ o, outcomes[i]? = some o ∧ Entry previous generation i o m
  failures : failed outcomes =
    status.manifestConditions.countP fun m => !isConditionTrue appliedCondition m.conditions
  whole : ∃ c, findCondition appliedCondition status.conditions = some c ∧
    c.observedGeneration = generation ∧
    c.status = if failed outcomes = 0 then .isTrue else .isFalse
  others : (status.conditions.filter fun c => c.type ≠ appliedCondition) =
    previous.conditions.filter fun c => c.type ≠ appliedCondition

theorem report_accounts {manifests : List Json}
    (htreated : TreatedEach owner 0 manifests log outcomes) :
    Accounts previous generation manifests outcomes (report previous generation clock outcomes) := by
  have htell := manifestConditions_tell previous generation clock 0 outcomes
  let whole := aggregate outcomes generation (clock outcomes.length)
  have htype : whole.type = appliedCondition := type_aggregate _
  have hentry : ∀ i m, (report previous generation clock outcomes).manifestConditions[i]? = some m →
      ∃ o, outcomes[i]? = some o ∧ Entry previous generation i o m := by
    intro i m hm
    have h := manifestConditions_entry hm
    rwa [Nat.zero_add] at h
  refine ⟨htell.length_eq.symm.trans htreated.length_eq, fun i m hm => ?_, hentry,
    failed_eq_countP htell, ?_, ?_⟩
  · obtain ⟨o, ho, hm⟩ := hentry i m hm
    rw [hm.identifier, htreated.ordinal_eq ho, Nat.zero_add]
  · obtain ⟨time, hfound⟩ := findCondition_setCondition_eq whole previous.conditions
    refine ⟨{ whole with lastTransitionTime := time }, ?_, ?_⟩
    · rw [← htype]
      exact hfound
    show whole.observedGeneration = _ ∧ whole.status = _
    unfold whole aggregate
    split <;> exact ⟨rfl, rfl⟩
  · rw [← htype]
    exact filter_setCondition whole _

/-- Whatever is replied, applying a Work treats every manifest once and in order, each in the same way
whatever becomes of the others, and its report accounts for all of them. -/
theorem work_accounts {clock : Nat → Timestamp} {w : Work} {owner : OwnerReference}
    {log : List Exchange} {outcomes : List Outcome} {status : WorkStatus}
    (h : (work clock w owner).Transcript log (outcomes, status)) :
    TreatedEach owner 0 w.manifests log outcomes ∧
      Accounts w.currentStatus w.metadata.generation w.manifests outcomes status := by
  obtain ⟨outcomes', first, rest, hfirst, hrest, rfl⟩ := Program.Transcript.bind_iff.1 h
  obtain ⟨rfl, hresult⟩ := Program.Transcript.done_iff.1 hrest
  cases hresult
  have htreated := documents_treated hfirst
  rw [List.append_nil]
  exact ⟨htreated, report_accounts htreated⟩

end Apply

/-! ### A Work that others have reported on as well -/

namespace InMemory.Demo

open Apply

def healthy : Condition := ⟨"Healthy", .isTrue, "Probed", "", none, epoch⟩

/-- A Work with a manifest that is none, and one that is. -/
def probed : Work where
  metadata := { work.metadata with generation := some 3 }
  manifests := [.null, configMap "m1"]
  status := some {
    conditions := [healthy]
    manifestConditions := [{ identifier := { ordinal := 1 }, conditions := [healthy] }] }

def probedOwner : OwnerReference := ⟨workApiVersion, "AppliedWork", "demo", "aw-1", none, none⟩

/-- The one manifest fails, the other one is created; the reports of others stay. -/
theorem probed_accounts : ∃ log,
    let (outcomes, status) := (start.run (Apply.work (fun _ => epoch) probed probedOwner)).1
    failed outcomes = 1 ∧ TreatedEach probedOwner 0 probed.manifests log outcomes ∧
      Accounts probed.currentStatus (some 3) probed.manifests outcomes status := by
  obtain ⟨n, hrun⟩ := World.exists_attempt_eq_run start
    (Apply.work (fun _ => epoch) probed probedOwner)
  obtain ⟨log, h⟩ := Program.Transcript.of_against hrun
  exact ⟨log, rfl, work_accounts h⟩

end InMemory.Demo

end MemberAgent
