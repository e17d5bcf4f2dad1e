import MemberAgent.Proofs.InMemory.Lookups
import MemberAgent.Proofs.InMemory.Reaches
import MemberAgent.Proofs.Program.Transcript

/-! What a sync asks for, whatever is replied. Every stale entry is attempted once and in order, also
after failures, and the record is written only when none has failed. -/

namespace MemberAgent

open Reconcile

namespace Tracking

/-- The owners of an object but this one. -/
def othersThan (owner : String) (live : ApiObject) : List OwnerReference :=
  live.metadata.owners.filter fun o => o.uid ≠ owner

/-- Whether a live object is another one than an entry means. -/
def IsReplaced (r : TrackedResource) (live : ApiObject) : Prop :=
  r.uid.isSome ∧ live.metadata.uid ≠ r.uid

/-- One attempt to release an entry: what it asks, what is replied, and how it ends. The object is
looked at, and then deleted, given up or left alone. -/
inductive Attempt (owner : String) (r : TrackedResource) :
    List Exchange → Except Failure Release → Prop where
  | unread (failure : Failure) : Attempt owner r [⟨.getTracked r, .error failure⟩] (.error failure)
  | absent : Attempt owner r [⟨.getTracked r, .ok none⟩] (.ok (.deleted .alreadyGone))
  | replaced (live : ApiObject) (hreplaced : IsReplaced r live) :
      Attempt owner r [⟨.getTracked r, .ok (some live)⟩] (.ok (.deleted .alreadyGone))
  | deleted (live : ApiObject) (hmeant : ¬IsReplaced r live) (halone : othersThan owner live = [])
      (reply : Except Failure Deletion) :
      Attempt owner r [⟨.getTracked r, .ok (some live)⟩, ⟨.deleteTracked r, reply⟩]
        (reply.map .deleted)
  | notOwned (live : ApiObject) (hmeant : ¬IsReplaced r live)
      (hnone : (othersThan owner live).length = live.metadata.owners.length) :
      Attempt owner r [⟨.getTracked r, .ok (some live)⟩] (.ok .notOwned)
  | withdrawn (live : ApiObject) (hmeant : ¬IsReplaced r live)
      (hothers : othersThan owner live ≠ []) (reply : Except Failure Unit) :
      Attempt owner r
        [⟨.getTracked r, .ok (some live)⟩,
          ⟨.patchOwners (.ofTracked r) live (othersThan owner live), reply⟩]
        (reply.map fun _ => .ownerRemoved (othersThan owner live).length)

/-- What is said about an entry that could not be released. -/
def failureText (r : TrackedResource) (failure : Failure) : String :=
  s!"{r.key.text}: {failure.message}"

/-- One attempt for each entry, in order, with the texts of the failures. -/
inductive AttemptEach (owner : String) :
    List TrackedResource → List Exchange → List String → Prop where
  | nil : AttemptEach owner [] [] []
  | released {r : TrackedResource} {rest : List TrackedResource} {log logs : List Exchange}
      {failures : List String} (outcome : Release) (h : Attempt owner r log (.ok outcome))
      (hrest : AttemptEach owner rest logs failures) :
      AttemptEach owner (r :: rest) (log ++ logs) failures
  | failed {r : TrackedResource} {rest : List TrackedResource} {log logs : List Exchange}
      {failures : List String} (failure : Failure) (h : Attempt owner r log (.error failure))
      (hrest : AttemptEach owner rest logs failures) :
      AttemptEach owner (r :: rest) (log ++ logs) (failureText r failure :: failures)

variable {owner : String} {log : List Exchange}

theorem release_attempt {r : TrackedResource} {result : Except Failure Release}
    (h : Transcript (release owner r) log result) : Attempt owner r log result := by
  rcases Transcript.bind_iff.1 h with ⟨failure, hget, rfl⟩ | ⟨live?, first, rest, hget, hgoes, rfl⟩
  · rw [Transcript.request_iff] at hget
    subst hget
    exact .unread failure
  rw [Transcript.request_iff] at hget
  subst hget
  cases live? with
  | none =>
      obtain ⟨rfl, rfl⟩ := Transcript.pure_iff.1 hgoes
      exact .absent
  | some live =>
      dsimp only at hgoes
      split at hgoes
      · next hreplaced =>
          obtain ⟨rfl, rfl⟩ := Transcript.pure_iff.1 hgoes
          exact .replaced live hreplaced
      next hmeant =>
      split at hgoes
      · next halone =>
          have halone : othersThan owner live = [] := List.isEmpty_iff.1 halone
          rcases Transcript.bind_iff.1 hgoes with ⟨failure, hdelete, rfl⟩ |
              ⟨outcome, first, rest, hdelete, hend, rfl⟩
          · rw [Transcript.request_iff] at hdelete
            subst hdelete
            exact .deleted live hmeant halone (.error failure)
          · rw [Transcript.request_iff] at hdelete
            subst hdelete
            obtain ⟨rfl, rfl⟩ := Transcript.pure_iff.1 hend
            exact .deleted live hmeant halone (.ok outcome)
      next hothers =>
      have hothers : othersThan owner live ≠ [] := fun e => hothers (List.isEmpty_iff.2 e)
      split at hgoes
      · next hnone =>
          obtain ⟨rfl, rfl⟩ := Transcript.pure_iff.1 hgoes
          exact .notOwned live hmeant hnone
      · rcases Transcript.bind_iff.1 hgoes with ⟨failure, hpatch, rfl⟩ |
            ⟨_, first, rest, hpatch, hend, rfl⟩
        · rw [Transcript.request_iff] at hpatch
          subst hpatch
          exact .withdrawn live hmeant hothers (.error failure)
        · rw [Transcript.request_iff] at hpatch
          subst hpatch
          obtain ⟨rfl, rfl⟩ := Transcript.pure_iff.1 hend
          exact .withdrawn live hmeant hothers (.ok ())

theorem releaseEach_attempts {stale : List TrackedResource} {failures : List String}
    (h : (releaseEach owner stale).Transcript log failures) :
    AttemptEach owner stale log failures := by
  induction stale generalizing log failures with
  | nil =>
      obtain ⟨rfl, rfl⟩ := Program.Transcript.done_iff.1 h
      exact .nil
  | cons r rest ih =>
      obtain ⟨result, first, tail, hfirst, htail, rfl⟩ := Program.Transcript.bind_iff.1 h
      obtain ⟨others, second, last, hsecond, hlast, rfl⟩ := Program.Transcript.bind_iff.1 htail
      cases result with
      | ok outcome =>
          obtain ⟨rfl, rfl⟩ := Program.Transcript.done_iff.1 hlast
          rw [List.append_nil]
          exact .released outcome (release_attempt hfirst) (ih hsecond)
      | error failure =>
          obtain ⟨rfl, rfl⟩ := Program.Transcript.done_iff.1 hlast
          rw [List.append_nil]
          exact .failed failure (release_attempt hfirst) (ih hsecond)

/-! ### Whole syncs -/

/-- The pair that a sync aligns, when there is one. -/
def readPair («namespace» name : String) (work : Option Work) (applied : Option AppliedWork) :
    Reconcile (Option (Work × AppliedWork)) := do
  let work ← givenOr work (request (.getWork «namespace» name))
  let applied ← givenOr applied (request (.getAppliedWork name))
  ExceptT.mk (.done (consistentPair name work applied))

/-- Aligns a pair, when there is one. -/
def alignPair : Option (Work × AppliedWork) → Reconcile Unit
  | none => pure ()
  | some (work, applied) => align work applied

theorem sync_eq («namespace» name : String) (work : Option Work) (applied : Option AppliedWork) :
    sync «namespace» name work applied =
      readPair «namespace» name work applied >>= alignPair := by
  rw [sync, readPair, bind_assoc]
  congr 1
  funext work
  rw [bind_assoc]
  congr 1
  funext applied
  rcases consistentPair name work applied with failure | _ | pair <;> rfl

/-- The calls of reading a pair. -/
def ReadCall : ClientCall → Prop
  | .getWork .. | .getAppliedWork .. => True
  | _ => False

theorem readPair_onlyCalls («namespace» name : String) (work : Option Work)
    (applied : Option AppliedWork) :
    OnlyCalls ReadCall (readPair «namespace» name work applied) := by
  refine OnlyCalls.bind (givenOr_onlyCalls work (OnlyCalls.request trivial)) fun work => ?_
  exact OnlyCalls.bind (givenOr_onlyCalls applied (OnlyCalls.request trivial)) fun _ => trivial

/-- The calls after the last attempt: retained entries are looked at, and the record is written. -/
def FinishCall (retained : List TrackedResource) (applied : AppliedWork) (c : ClientCall) : Prop :=
  (∃ r ∈ retained, c = .getTracked r) ∨ ∃ resources, c = .updateResources applied resources

/-- Whether a record is written. -/
def Commits (log : List Exchange) : Prop :=
  ∃ e ∈ log, ∃ applied resources, e.1 = .updateResources applied resources

theorem releaseAll_attempts {stale : List TrackedResource} {result : Except Failure Unit}
    (h : Transcript (releaseAll owner stale) log result) :
    ∃ failures, AttemptEach owner stale log failures ∧
      result = if failures = [] then .ok () else .error (.deletion failures) := by
  rcases Transcript.bind_iff.1 h with ⟨failure, hlift, rfl⟩ | ⟨failures, first, rest, hlift, hend, rfl⟩
  · obtain ⟨failures, -, he⟩ := Transcript.lift_iff.1 hlift
    cases he
  · obtain ⟨failures, heach, he⟩ := Transcript.lift_iff.1 hlift
    cases he
    refine ⟨failures, ?_, ?_⟩
    · cases failures with
      | nil =>
          obtain ⟨rfl, -⟩ := Transcript.pure_iff.1 hend
          rw [List.append_nil]
          exact releaseEach_attempts heach
      | cons =>
          obtain ⟨rfl, -⟩ := Transcript.throw_iff.1 hend
          rw [List.append_nil]
          exact releaseEach_attempts heach
    · cases failures with
      | nil => exact (Transcript.pure_iff.1 hend).2
      | cons => exact (Transcript.throw_iff.1 hend).2

theorem align_attempts {work : Work} {applied : AppliedWork} {result : Except Failure Unit}
    (h : Transcript (align work applied) log result) :
    ∃ attempts failures finish,
      AttemptEach (applied.metadata.uid.getD "")
        (diff work.currentStatus.declared applied.resources).stale attempts failures ∧
      log = attempts ++ finish ∧
      (∀ e ∈ finish, FinishCall
        (diff work.currentStatus.declared applied.resources).retainedOrNew applied e.1) ∧
      (failures ≠ [] → result = .error (.deletion failures) ∧ finish = []) := by
  rcases Transcript.bind_iff.1 h with ⟨failure, hrelease, rfl⟩ |
      ⟨_, attempts, finish, hrelease, hfinish, rfl⟩
  · obtain ⟨failures, heach, he⟩ := releaseAll_attempts hrelease
    refine ⟨log, failures, [], heach, (List.append_nil log).symm, by rintro e ⟨⟩, fun hfailed => ?_⟩
    rw [if_neg hfailed] at he
    cases he
    exact ⟨rfl, rfl⟩
  · obtain ⟨failures, heach, he⟩ := releaseAll_attempts hrelease
    have hnone : failures = [] := by
      cases failures with
      | nil => rfl
      | cons => cases he
    refine ⟨attempts, failures, finish, heach, rfl, ?_, fun hfailed => absurd hnone hfailed⟩
    refine Program.Transcript.mem_of_onlyCalls ?_ hfinish
    refine OnlyCalls.bind (Program.OnlyCalls.mono (fun c => Or.inl) (refreshUids_onlyCalls _))
      fun resources => ?_
    split
    · exact OnlyCalls.request (Or.inr ⟨_, rfl⟩)
    · exact OnlyCalls.pure _

theorem Attempt.releaseCall {r : TrackedResource} {result : Except Failure Release}
    (h : Attempt owner r log result) : ∀ e ∈ log, ReleaseCall e.1 := by
  have hget : ∀ {reply : Except Failure (Option ApiObject)} {e : Exchange} {log : List Exchange},
      (∀ e ∈ log, ReleaseCall e.1) → e ∈ ⟨.getTracked r, reply⟩ :: log → ReleaseCall e.1 := by
    intro reply e log hlog he
    rcases List.mem_cons.1 he with rfl | he
    · trivial
    · exact hlog e he
  cases h with
  | unread | absent | replaced | notOwned => exact fun e he => hget (by rintro e ⟨⟩) he
  | deleted | withdrawn =>
      refine fun e he => hget (fun e he => ?_) he
      rw [List.mem_singleton.1 he]
      trivial

theorem AttemptEach.releaseCall {stale : List TrackedResource} {failures : List String}
    (h : AttemptEach owner stale log failures) : ∀ e ∈ log, ReleaseCall e.1 := by
  induction h with
  | nil => rintro e ⟨⟩
  | released outcome h _ ih | failed failure h _ ih =>
      intro e he
      rcases List.mem_append.1 he with he | he
      · exact h.releaseCall e he
      · exact ih e he

/-! ### Records after a failure -/

section Records

open InMemory World

variable {α β : Type}

/-- Reading, releasing and looking at objects change no record. -/
theorem readCall_keepsRecords (c : ClientCall) (hc : ReadCall c) : KeepsRecords c := by
  cases c <;> first | exact hc | trivial

theorem releaseCall_keepsRecords (c : ClientCall) (hc : ReleaseCall c) : KeepsRecords c := by
  cases c <;> first | exact hc | trivial

theorem refreshUids_keepsRecords (l : List TrackedResource) :
    OnlyCalls KeepsRecords (refreshUids l) := by
  refine (refreshUids_onlyCalls l).mono ?_
  rintro c ⟨r, -, rfl⟩
  trivial

theorem records_kept {possible : Fate → Prop} {p : Program clientCalls α}
    (hp : p.OnlyCalls (I := clientCalls) KeepsRecords) (w : World) :
    Reaches possible w p fun _ w' => w'.member.applied = w.member.applied := by
  refine Reaches.of_onlyCalls (fun v fate c _ hc hv => ?_) hp rfl
  rcases meet_world v fate c with h | h <;> rw [h]
  · exact hv
  rcases answer_cases v c with ⟨_, -, h⟩ | ⟨_, v', hperform, h⟩ <;> rw [h]
  · exact hv
  · exact (applied_perform hc hperform).trans hv

/-- Where calls that fail have no effect, no record changes in a run that fails. -/
def FailsClean (r : Reconcile α) : Prop :=
  ∀ w : World, Reaches (fun fate => ¬fate.IsLost) w r.run fun result w' =>
    ∀ failure, result = some (.error failure) → w'.member.applied = w.member.applied

theorem FailsClean.pure (a : α) : FailsClean (Pure.pure a : Reconcile α) :=
  fun _ => Reaches.done fun _ he => by cases he

theorem FailsClean.request (c : ClientCall) : FailsClean (MemberAgent.request c) := by
  intro w
  refine Reaches.request (fun _ he => by cases he) fun fate hkept failure he => ?_
  rw [meet_error hkept (Option.some.inj he)]

theorem FailsClean.bind {x : Reconcile α} {f : α → Reconcile β} (hx : OnlyCalls KeepsRecords x)
    (hf : ∀ a, FailsClean (f a)) : FailsClean (x >>= f) := by
  intro w
  refine Reaches.andThen (records_kept hx w) (fun _ _ _ he => by cases he) (fun _ _ h _ _ => h) ?_
  intro a w' h
  exact (hf a w').mono fun result w'' hresult failure he => (hresult failure he).trans h

theorem align_failsClean (work : Work) (applied : AppliedWork) : FailsClean (align work applied) := by
  refine FailsClean.bind ((releaseAll_onlyCalls _ _).mono releaseCall_keepsRecords) fun _ => ?_
  refine FailsClean.bind (refreshUids_keepsRecords _) fun resources => ?_
  split
  · exact FailsClean.request _
  · exact FailsClean.pure _

theorem sync_failsClean («namespace» name : String) (work : Option Work)
    (applied : Option AppliedWork) : FailsClean (sync «namespace» name work applied) := by
  rw [sync_eq]
  refine FailsClean.bind ((readPair_onlyCalls _ _ _ _).mono readCall_keepsRecords) fun pair => ?_
  cases pair with
  | none => exact FailsClean.pure _
  | some pair => exact align_failsClean _ _

end Records

/-- Once the pair is read, every stale entry is attempted once and in order. If an attempt fails, the
sync fails with the texts of all that did, and it asks for no write of the record. And where calls
that fail have no effect, no failed sync changes a record. -/
theorem failed_sync_never_commits («namespace» name : String) (given : Option Work)
    (record : Option AppliedWork) :
    (∀ log result, Transcript (sync «namespace» name given record) log result →
      ∃ reading pair, Transcript (readPair «namespace» name given record) reading pair ∧
        match pair with
        | .error failure => log = reading ∧ result = .error failure
        | .ok none => log = reading ∧ result = .ok ()
        | .ok (some (work, applied)) => ∃ attempts failures finish,
          AttemptEach (applied.metadata.uid.getD "")
            (diff work.currentStatus.declared applied.resources).stale attempts failures ∧
          log = reading ++ attempts ++ finish ∧
          (∀ e ∈ finish, FinishCall
            (diff work.currentStatus.declared applied.resources).retainedOrNew applied e.1) ∧
          (failures ≠ [] → result = .error (.deletion failures) ∧ finish = [] ∧ ¬Commits log)) ∧
    ∀ (w : InMemory.World) fates, (∀ fate ∈ fates, ¬fate.IsLost) → ∀ failure,
      (w.attempt fates (sync «namespace» name given record).run).1 = some (.error failure) →
      (w.attempt fates (sync «namespace» name given record).run).2.1.member.applied =
        w.member.applied := by
  refine ⟨fun log result h => ?_, fun w fates hkept => sync_failsClean _ _ _ _ w fates hkept⟩
  rw [sync_eq] at h
  rcases Transcript.bind_iff.1 h with ⟨failure, hread, rfl⟩ | ⟨pair, reading, after, hread, hgoes, rfl⟩
  · exact ⟨log, .error failure, hread, rfl, rfl⟩
  refine ⟨reading, .ok pair, hread, ?_⟩
  cases pair with
  | none =>
      obtain ⟨rfl, rfl⟩ := Transcript.pure_iff.1 hgoes
      exact ⟨List.append_nil reading, rfl⟩
  | some pair =>
      obtain ⟨attempts, failures, finish, heach, rfl, hfinish, hfailed⟩ := align_attempts hgoes
      refine ⟨attempts, failures, finish, heach, (List.append_assoc ..).symm, hfinish, fun hany => ?_⟩
      obtain ⟨hresult, hnone⟩ := hfailed hany
      refine ⟨hresult, hnone, ?_⟩
      subst hnone
      rintro ⟨e, he, a, resources, hcall⟩
      rw [List.append_nil] at he
      rcases List.mem_append.1 he with he | he
      · have hreadCall := Program.Transcript.mem_of_onlyCalls (readPair_onlyCalls _ _ _ _) hread e he
        rw [hcall] at hreadCall
        exact hreadCall
      · have hreleaseCall := heach.releaseCall e he
        rw [hcall] at hreleaseCall
        exact hreleaseCall

/-- A record of which nothing is declared any more, with an object that it owns alone and one that it
shares. -/
def leftover : InMemory.World where
  hub := ({} : InMemory.Hub).put ⟨"cluster1", "demo"⟩
    { metadata := {
        name := some "demo", «namespace» := some "cluster1", finalizers := some [cleanupFinalizer] } }
  member := ((({} : InMemory.Member).put ⟨"configmaps", "default", "own"⟩ (held "own" ["aw-1"])).put
      ⟨"configmaps", "default", "shared"⟩ (held "shared" ["aw-1", "aw-2"])).putApplied "demo"
    { metadata := { name := some "demo", uid := some "aw-1", resourceVersion := some "1" }
      spec := ⟨"demo", "cluster1"⟩
      status := some { appliedResources := [entry "own", entry "shared"] } }
where
  held (name : String) (owners : List String) : ApiObject :=
    { metadata := {
        name := some name, «namespace» := some "default", resourceVersion := some "1"
        ownerReferences := some (owners.map fun uid =>
          ⟨workApiVersion, "AppliedWork", "demo", uid, none, none⟩) } }
  entry (name : String) : TrackedResource := ⟨"", "v1", "configmaps", "default", name, none⟩

/-- The object that is not shared cannot be deleted, so the record stays as it is. -/
theorem leftover_kept_when_deletion_refused :
    let failure := Failure.refused 500 "InternalError" "request timed out"
    let ended := leftover.attempt
      [.answered, .answered, .answered, .refused failure, .answered, .answered]
      (sync "cluster1" "demo" none none).run
    ended.1 = some (.error (.deletion [failureText (leftover.entry "own") failure])) ∧
      ended.2.1.member.applied = leftover.member.applied := by
  intro failure ended
  have hkept : ∀ fate ∈ [InMemory.Fate.answered, .answered, .answered, .refused failure, .answered,
      .answered], ¬fate.IsLost := by
    simp [InMemory.Fate.IsLost]
  exact ⟨rfl, (failed_sync_never_commits "cluster1" "demo" none none).2 leftover _ hkept _ rfl⟩

end Tracking

end MemberAgent
