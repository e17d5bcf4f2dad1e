import MemberAgent.Proofs.InMemory.Interleaved
import MemberAgent.Proofs.Ownership.Shared

/-! A release beside an application of the same object for another owner, call by call. A release that
has found its record alone deletes the object later, whatever has become of its owners meanwhile. So
the object outlives both, with its new owner, unless such a deletion comes last; and that takes an
object that nobody else owned when the two began. -/

namespace MemberAgent

open InMemory Tracking

namespace InMemory.World

variable {α β : Type} {w w' : World}

/-- Whether the last of all calls has deleted an object. -/
def EndsInDeletion (log : List Exchange) : Prop :=
  ∃ r uid, log.getLast? = some ⟨.deleteTracked r, .ok (.deleted uid)⟩

theorem not_endsInDeletion_nil : ¬EndsInDeletion [] := fun ⟨_, _, hlast⟩ => by cases hlast

theorem not_endsInDeletion_of_manifestCalls {log : List Exchange}
    (h : ∀ e ∈ log, Apply.ManifestCall e.1) : ¬EndsInDeletion log := by
  rintro ⟨r, uid, hlast⟩
  exact h _ (List.mem_of_getLast? hlast)

/-- What comes before the last call does not matter. -/
theorem endsInDeletion_cons {e : Exchange} {log : List Exchange} (h : log ≠ []) :
    EndsInDeletion (e :: log) ↔ EndsInDeletion log := by
  obtain ⟨e', rest, rfl⟩ := List.exists_cons_of_ne_nil h
  simp only [EndsInDeletion, List.getLast?_cons_cons]

/-- A call that cannot delete does not matter either. -/
theorem endsInDeletion_cons_of_ne {c : ClientCall} {reply : Except Failure c.Value}
    {log : List Exchange} (h : ∀ r, c ≠ .deleteTracked r) :
    EndsInDeletion (⟨c, reply⟩ :: log) ↔ EndsInDeletion log := by
  cases log with
  | nil =>
      refine iff_of_false (fun ⟨r, _, hlast⟩ => ?_) not_endsInDeletion_nil
      exact h r (congrArg Sigma.fst (Option.some.inj hlast))
  | cons => exact endsInDeletion_cons (List.cons_ne_nil _ _)

end InMemory.World

theorem run_request_bind {α : Type} (c : ClientCall) (f : c.Value → Reconcile α) :
    (request c >>= f).run = .call c fun
      | .ok value => (f value).run
      | .error failure => .done (.error failure) :=
  congrArg (Program.call (I := clientCalls) c) (funext fun reply => by cases reply <;> rfl)

theorem run_request_map {α : Type} (c : ClientCall) (f : c.Value → α) :
    (do return f (← request c) : Reconcile α).run = .call c fun reply => .done (reply.map f) :=
  congrArg (Program.call (I := clientCalls) c) (funext fun reply => by cases reply <;> rfl)

namespace Tracking

open World

/-- What is left of a release that has looked at its object. -/
inductive ReleaseLeft (owner : String) (r : TrackedResource) :
    Option ApiObject → Program clientCalls (Except Failure Release) → Prop where
  | ended (seen : Option ApiObject) (outcome : Release) :
      ReleaseLeft owner r seen (.done (.ok outcome))
  | deleting (live : ApiObject) (halone : othersThan owner live = []) :
      ReleaseLeft owner r (some live) (.call (.deleteTracked r) fun reply =>
        .done (reply.map .deleted))
  | withdrawing (live : ApiObject) :
      ReleaseLeft owner r (some live)
        (.call (.patchOwners (.ofTracked r) live (othersThan owner live)) fun reply =>
          .done (reply.map fun _ => .ownerRemoved (othersThan owner live).length))

/-- A release makes no more than one call after it has looked at its object. -/
theorem ReleaseLeft.next_done {owner : String} {r : TrackedResource} {seen : Option ApiObject}
    {c : ClientCall} {next : Except Failure c.Value → Program clientCalls (Except Failure Release)}
    (h : ReleaseLeft owner r seen (.call c next)) (reply : Except Failure c.Value) :
    ∃ outcome, next reply = .done outcome := by
  cases h with
  | deleting | withdrawing => exact ⟨_, rfl⟩

theorem release_run (owner : String) (r : TrackedResource) :
    ∃ next, (release owner r).run = .call (.getTracked r) next ∧
      ∀ seen, ReleaseLeft owner r seen (next (.ok seen)) := by
  refine ⟨_, rfl, ?_⟩
  rintro (_ | live)
  · exact .ended none _
  · show ReleaseLeft owner r (some live) (ite _ _ _ : Reconcile Release).run
    split
    · exact .ended _ _
    split
    · next halone =>
        rw [run_request_map]
        exact .deleting live (List.isEmpty_iff.1 halone)
    split
    · exact .ended _ _
    · rw [run_request_map]
      exact .withdrawing live

end Tracking

namespace InMemory.World

variable {w w' : World} {owner new : String} {r : TrackedResource} {log : List Exchange}

/-- Deleting takes the object away and says so, or it does nothing. -/
theorem answer_deleteTracked (w : World) (r : TrackedResource) :
    (∃ uid, (w.answer (.deleteTracked r)).1 = .ok (.deleted uid) ∧
      (w.answer (.deleteTracked r)).2.member.object? (.ofTracked r) = none) ∨
    (∀ uid, (w.answer (.deleteTracked r)).1 ≠ .ok (.deleted uid)) ∧
      (w.answer (.deleteTracked r)).2 = w := by
  rcases answer_cases w (.deleteTracked r) with ⟨failure, -, h⟩ | ⟨value, w', hperform, h⟩ <;> rw [h]
  · exact .inr ⟨fun _ => nofun, rfl⟩
  obtain ⟨member, hdelete, rfl⟩ := onMember_eq_ok hperform
  unfold Member.deleteTracked at hdelete
  dsimp only at hdelete
  split at hdelete
  · cases hdelete
  split at hdelete
  · cases hdelete
    exact .inr ⟨fun _ => nofun, rfl⟩
  split at hdelete
  · cases hdelete
    exact .inr ⟨fun _ => nofun, rfl⟩
  · cases hdelete
    exact .inl ⟨_, rfl, (w.member.object?_removeObject _ _).trans (if_pos rfl)⟩

/-- Withdrawing with a copy of the object leaves it to its other owners; with an outdated copy nothing
happens. -/
theorem holds_withdrawn {live o : ApiObject} (hnew : new ≠ owner)
    (hlive : ObjectKey.ofObject (.ofTracked r) live = .ofTracked r)
    (ho : w.member.Holds new (.ofTracked r) o)
    (hseen : o = live ∨ o.metadata.resourceVersion ≠ live.metadata.resourceVersion) :
    ∃ o', (w.answer (.patchOwners (.ofTracked r) live (othersThan owner live))).2.member.Holds new
      (.ofTracked r) o' := by
  rcases answer_cases w (.patchOwners (.ofTracked r) live (othersThan owner live)) with
    ⟨failure, -, h⟩ | ⟨value, w', hperform, h⟩ <;> rw [h]
  · exact ⟨o, ho⟩
  obtain ⟨member, hpatch, rfl⟩ := onMember_map_eq_ok hperform
  obtain ⟨_, hpatched⟩ := Member.patchOwners_eq_ok_iff.1 hpatch
  obtain ⟨stored, hstored, hversion, -, rfl⟩ := Member.write_eq_ok_iff.1 hpatched
  rw [hlive] at hstored
  cases ho.1.symm.trans hstored
  cases hseen.resolve_right fun hne => hne hversion
  obtain ⟨reference, hmem, huid⟩ := ho.2
  have hother : reference ∈ othersThan owner live :=
    Member.mem_othersThan.2 ⟨hmem, fun he => hnew (huid.symm.trans he)⟩
  refine ⟨_, (Member.object?_put ..).trans (if_pos hlive), reference, hother, huid⟩

/-- A write that succeeds takes the object over. -/
theorem takenOver_of_ok {resolved : Manifest.Resolved} {newOwner : OwnerReference}
    {seen : Option ApiObject} {c : ClientCall} {action action' : ApplyAction}
    (hwrites : ∀ v value v', v.perform c = .ok (value, v') →
      Apply.Writing newOwner resolved seen v v')
    (hok : (w.answer c).1.map (fun _ => action) = .ok action') :
    Apply.TakenOver (.ofIdentifier resolved.identifier) newOwner.uid w (w.answer c).2 := by
  rcases answer_cases w c with ⟨failure, -, h⟩ | ⟨value, v, hperform, h⟩ <;> rw [h] at hok ⊢
  · cases hok
  · exact (hwrites w value v hperform).takenOver

/-- Applying a manifest starts with a look at the object that the entry means. -/
theorem manifest_run {resolved : Manifest.Resolved} (newOwner : OwnerReference)
    (hobject : ObjectKey.ofObject resolved.mapping resolved.object =
      .ofIdentifier resolved.identifier)
    (hentry : ObjectKey.ofIdentifier resolved.identifier = .ofTracked r) :
    ∃ c next, (Apply.manifest resolved newOwner).run = .call c next ∧ Apply.ManifestCall c ∧
      ∀ {v : World}, v.member.Placed → ∃ rest : Reconcile ApplyAction,
        next (v.answer c).1 = rest.run ∧ (v.answer c).2 = v ∧
          Apply.ManifestLeft newOwner resolved (v.member.object? (.ofTracked r)) rest := by
  obtain ⟨rest, hmanifest, hrest⟩ := Apply.manifest_eq newOwner hobject
  refine ⟨_, _, (congrArg ExceptT.run hmanifest).trans (run_request_bind _ rest), trivial, ?_⟩
  intro v hv
  rw [Apply.answer_getObject v hobject, hentry]
  refine ⟨rest (v.member.object? (.ofTracked r)), rfl, rfl, hrest _ fun live hlive => ?_⟩
  rw [hentry]
  exact hv.ofObject_eq hlive (hentry ▸ congrArg ObjectKey.resource hobject)

/-- An application beside a release that is done with the object leaves it with the new owner. -/
theorem manifest_alone {resolved : Manifest.Resolved} {newOwner : OwnerReference} {a a' : α}
    {result : Except Failure ApplyAction} {action : ApplyAction} (hplaced : w.member.Placed)
    (hobject : ObjectKey.ofObject resolved.mapping resolved.object =
      .ofIdentifier resolved.identifier)
    (h : Interleaved w (.done a) (Apply.manifest resolved newOwner).run log a' result w')
    (hok : result = .ok action) :
    (∃ o, w'.member.Holds newOwner.uid (.ofIdentifier resolved.identifier) o) ∧ log ≠ [] ∧
      ∀ e ∈ log, Apply.ManifestCall e.1 := by
  obtain ⟨hrun, hlog⟩ := h.right_alone
  have hends : Ends (fun _ => True) w (Apply.manifest resolved newOwner)
      (fun v => v = w ∨ Apply.Adopting newOwner resolved w v)
      fun _ v => Apply.Adopting newOwner resolved w v :=
    Apply.manifest_ends newOwner hplaced hobject
  have hrun' := Reaches.run hends trivial
  rw [hrun] at hrun'
  obtain ⟨-, hadopts⟩ := hrun'.2 action (congrArg some hok)
  refine ⟨hadopts.holds, ?_, hlog.mem_of_onlyCalls (Apply.manifest_onlyCalls _ _)⟩
  rintro rfl
  cases hlog

/-- What becomes of an object for a new owner, when the release has seen it so. -/
structure TakeoverEnd (owner new : String) (r : TrackedResource) (seen : Option ApiObject)
    (log : List Exchange) (w' : World) : Prop where
  held_iff : (∃ o, w'.member.Holds new (.ofTracked r) o) ↔ ¬EndsInDeletion log
  alone : EndsInDeletion log → ∃ live, seen = some live ∧ othersThan owner live = []

namespace TakeoverEnd

variable {seen : Option ApiObject}

theorem of_held {o : ApiObject} (ho : w'.member.Holds new (.ofTracked r) o)
    (hkept : ¬EndsInDeletion log) : TakeoverEnd owner new r seen log w' :=
  ⟨iff_of_true ⟨o, ho⟩ hkept, fun h => absurd h hkept⟩

theorem cons_of_ne {c : ClientCall} {reply : Except Failure c.Value}
    (h : TakeoverEnd owner new r seen log w') (hc : ∀ r, c ≠ .deleteTracked r) :
    TakeoverEnd owner new r seen (⟨c, reply⟩ :: log) w' :=
  ⟨h.held_iff.trans (not_congr (endsInDeletion_cons_of_ne hc).symm), fun hends =>
    h.alone ((endsInDeletion_cons_of_ne hc).1 hends)⟩

/-- What the release sees in the hands of the new owner it does not take away. -/
theorem of_seen_owned {o : ApiObject} (h : TakeoverEnd owner new r (some o) log w')
    (hnew : new ≠ owner) (howned : o.IsOwnedBy new) : TakeoverEnd owner new r seen log w' := by
  refine ⟨h.held_iff, fun hends => ?_⟩
  obtain ⟨live, hlive, halone⟩ := h.alone hends
  cases hlive
  exact absurd halone (Member.othersThan_ne_nil hnew howned)

/-- A release that has looked deletes the object under its new owner, if it saw its record alone, or
leaves it to that one. -/
theorem of_releaseLeft {p : Program clientCalls (Except Failure Release)}
    {x : Except Failure Release} {b b' : β} {o : ApiObject} (hleft : ReleaseLeft owner r seen p)
    (hnew : new ≠ owner) (ho : w.member.Holds new (.ofTracked r) o)
    (hseen : ∀ live, seen = some live → ObjectKey.ofObject (.ofTracked r) live = .ofTracked r ∧
      (o = live ∨ o.metadata.resourceVersion ≠ live.metadata.resourceVersion))
    (h : Interleaved w p (.done b) log x b' w') : TakeoverEnd owner new r seen log w' := by
  cases hleft with
  | ended outcome =>
      cases h
      exact .of_held ho not_endsInDeletion_nil
  | deleting live halone =>
      cases h with
      | left h =>
          cases h
          refine ⟨?_, fun _ => ⟨live, rfl, halone⟩⟩
          rcases answer_deleteTracked w r with ⟨uid, hdeleted, hgone⟩ | ⟨hkept, hsame⟩
          · refine iff_of_false (fun ⟨o', ho'⟩ => ?_) (not_not_intro ⟨r, uid, ?_⟩)
            · cases hgone.symm.trans ho'.1
            · rw [hdeleted]
              rfl
          · rw [hsame]
            refine iff_of_true ⟨o, ho⟩ fun ⟨_, uid, hlast⟩ => ?_
            injection Option.some.inj hlast with hcall hreply
            cases hcall
            exact hkept uid hreply
  | withdrawing live =>
      cases h with
      | left h =>
          cases h
          obtain ⟨hlive, hsame⟩ := hseen live rfl
          obtain ⟨o', ho'⟩ := holds_withdrawn hnew hlive ho hsame
          exact .of_held ho' fun ⟨_, _, hlast⟩ => by cases hlast

/-- A release that only looks when the object has its new owner leaves it to that one. -/
theorem of_release {x : Except Failure Release} {b b' : β} {o : ApiObject}
    (hplaced : w.member.Placed) (hnew : new ≠ owner) (ho : w.member.Holds new (.ofTracked r) o)
    (h : Interleaved w (release owner r).run (.done b) log x b' w') :
    TakeoverEnd owner new r seen log w' := by
  obtain ⟨next, hrun, hleft⟩ := release_run owner r
  rw [hrun] at h
  cases h with
  | left h =>
      change Interleaved w (next (.ok (w.member.object? (.ofTracked r)))) _ _ _ _ _ at h
      rw [ho.1] at h
      have hlooked : TakeoverEnd owner new r (some o) _ w' :=
        of_releaseLeft (hleft (some o)) hnew ho (fun live hseen => by
          cases hseen
          exact ⟨hplaced.ofObject_eq ho.1 rfl, .inl rfl⟩) h
      exact (hlooked.of_seen_owned hnew ho.2).cons_of_ne fun _ he => by cases he

/-- When both have looked at the same object, the first write to it makes the copy of the other one
outdated. -/
theorem of_both_looked {p : Program clientCalls (Except Failure Release)}
    {rest : Reconcile ApplyAction} {resolved : Manifest.Resolved} {newOwner : OwnerReference}
    {x : Except Failure Release} {result : Except Failure ApplyAction} {action : ApplyAction}
    (hplaced : w.member.Placed) (hentry : ObjectKey.ofIdentifier resolved.identifier = .ofTracked r)
    (hnew : newOwner.uid ≠ owner)
    (hp : ReleaseLeft owner r (w.member.object? (.ofTracked r)) p)
    (hrest : Apply.ManifestLeft newOwner resolved (w.member.object? (.ofTracked r)) rest)
    (h : Interleaved w p rest.run log x result w') (hok : result = .ok action) :
    TakeoverEnd owner newOwner.uid r (w.member.object? (.ofTracked r)) log w' := by
  have hwhere : ∀ live, w.member.object? (.ofTracked r) = some live →
      ObjectKey.ofObject (.ofTracked r) live = .ofTracked r :=
    fun live hlive => hplaced.ofObject_eq hlive rfl
  cases hrest with
  | ended action hlive howned =>
      have ho : w.member.Holds newOwner.uid (.ofTracked r) _ := ⟨hlive, isOwned_of_mergeOwners howned⟩
      refine of_releaseLeft hp hnew ho (fun live hseen => ?_) h
      exact ⟨hwhere live hseen, .inl (Option.some.inj (hlive.symm.trans hseen))⟩
  | writing c action hcall hwrites =>
      rw [run_request_map c fun _ => action] at h
      cases h with
      | left h =>
          -- The release is done with its call, so the write comes last.
          obtain ⟨outcome, hdone⟩ := hp.next_done _
          rw [hdone] at h
          cases h with
          | right h =>
              cases h
              obtain ⟨o, ho, -⟩ := hentry ▸ takenOver_of_ok hwrites hok
              refine .of_held ho ?_
              rw [endsInDeletion_cons (List.cons_ne_nil _ _),
                endsInDeletion_cons_of_ne hcall.ne_deleteTracked]
              exact not_endsInDeletion_nil
      | right h =>
          obtain ⟨o, ho, hversion⟩ :=
            hentry ▸ takenOver_of_ok hwrites (h.right_done.symm.trans hok)
          refine (of_releaseLeft hp hnew ho (fun live hseen => ?_) h).cons_of_ne hcall.ne_deleteTracked
          exact ⟨hwhere live hseen, .inr (hversion live hseen)⟩

section

variable {resolved : Manifest.Resolved} {newOwner : OwnerReference} {x : Except Failure Release}
  {result : Except Failure ApplyAction} {action : ApplyAction}

/-- The release looks before the application does. -/
theorem of_release_first {p : Program clientCalls (Except Failure Release)}
    (hplaced : w.member.Placed) (hobject : ObjectKey.ofObject resolved.mapping resolved.object =
      .ofIdentifier resolved.identifier)
    (hentry : ObjectKey.ofIdentifier resolved.identifier = .ofTracked r)
    (hnew : newOwner.uid ≠ owner) (hp : ReleaseLeft owner r (w.member.object? (.ofTracked r)) p)
    (h : Interleaved w p (Apply.manifest resolved newOwner).run log x result w')
    (hok : result = .ok action) :
    TakeoverEnd owner newOwner.uid r (w.member.object? (.ofTracked r)) log w' := by
  obtain ⟨c, next, happly, hcall, hlooked⟩ := manifest_run newOwner hobject hentry
  rw [happly] at h
  cases h with
  | left h =>
      -- The release is done before the application begins.
      obtain ⟨outcome, hdone⟩ := hp.next_done _
      rw [hdone, ← happly] at h
      obtain ⟨⟨o, ho⟩, hmore, hcalls⟩ := manifest_alone (placed_answer hplaced _) hobject h hok
      refine .of_held (hentry ▸ ho) ?_
      rw [endsInDeletion_cons hmore]
      exact not_endsInDeletion_of_manifestCalls hcalls
  | right h =>
      obtain ⟨rest, hrest, hsame, hleft⟩ := hlooked hplaced
      rw [hrest, hsame] at h
      exact (of_both_looked hplaced hentry hnew hp hleft h hok).cons_of_ne hcall.ne_deleteTracked

/-- The application looks before the release does. -/
theorem of_application_first {rest : Reconcile ApplyAction} (hplaced : w.member.Placed)
    (hentry : ObjectKey.ofIdentifier resolved.identifier = .ofTracked r)
    (hnew : newOwner.uid ≠ owner)
    (hrest : Apply.ManifestLeft newOwner resolved (w.member.object? (.ofTracked r)) rest)
    (h : Interleaved w (release owner r).run rest.run log x result w') (hok : result = .ok action) :
    TakeoverEnd owner newOwner.uid r (w.member.object? (.ofTracked r)) log w' := by
  obtain ⟨nextRelease, hrelease, hleft⟩ := release_run owner r
  cases hrest with
  | ended action hlive howned =>
      have ho : w.member.Holds newOwner.uid (.ofTracked r) _ := ⟨hlive, isOwned_of_mergeOwners howned⟩
      exact of_release hplaced hnew ho h
  | writing c action hcall hwrites =>
      have hwrite := run_request_map c fun _ => action
      rw [hrelease, hwrite] at h
      cases h with
      | left h =>
          refine cons_of_ne ?_ fun _ he => by cases he
          exact of_both_looked hplaced hentry hnew (hleft _) (.writing c action hcall hwrites)
            (hwrite ▸ h) hok
      | right h =>
          -- The application is done before the release begins.
          obtain ⟨o, ho, -⟩ := hentry ▸ takenOver_of_ok hwrites (h.right_done.symm.trans hok)
          refine cons_of_ne ?_ hcall.ne_deleteTracked
          exact of_release (placed_answer hplaced _) hnew ho (hrelease ▸ h)

end

end TakeoverEnd

/-- Of a release and an application that succeeds, the object is left with its new owner, unless the
last of their calls has deleted it; and then nobody but the releasing record owned it before. -/
theorem taken_over_iff_not_deleted_last {resolved : Manifest.Resolved} {newOwner : OwnerReference}
    {x : Except Failure Release} {action : ApplyAction} (hplaced : w.member.Placed)
    (hobject : ObjectKey.ofObject resolved.mapping resolved.object =
      .ofIdentifier resolved.identifier)
    (hentry : ObjectKey.ofIdentifier resolved.identifier = .ofTracked r)
    (hnew : newOwner.uid ≠ owner)
    (h : Interleaved w (release owner r).run (Apply.manifest resolved newOwner).run log x
      (.ok action) w') :
    TakeoverEnd owner newOwner.uid r (w.member.object? (.ofTracked r)) log w' := by
  obtain ⟨nextRelease, hrelease, hleft⟩ := release_run owner r
  obtain ⟨c, next, happly, hcall, hlooked⟩ := manifest_run newOwner hobject hentry
  rw [hrelease, happly] at h
  generalize hok : Except.ok action = result at h
  cases h with
  | left h =>
      refine TakeoverEnd.cons_of_ne ?_ fun _ he => by cases he
      exact .of_release_first hplaced hobject hentry hnew (hleft _) (happly ▸ h) hok.symm
  | right h =>
      obtain ⟨rest, hrest, hsame, hleft⟩ := hlooked hplaced
      rw [hrest, hsame] at h
      refine TakeoverEnd.cons_of_ne ?_ hcall.ne_deleteTracked
      exact .of_application_first hplaced hentry hnew hleft (hrelease ▸ h) hok.symm

end InMemory.World

/-! ### An object taken over while it is released -/

namespace InMemory.Racing

open Member World

def entry : TrackedResource := ⟨"", "v1", "configmaps", "default", "m1", some "obj-3"⟩

def resolved : Manifest.Resolved where
  object := {
    types := some ⟨"v1", "ConfigMap"⟩
    metadata := { name := some "m1", «namespace» := some "default" } }
  mapping := ⟨"", "v1", "v1", "ConfigMap", "configmaps", true⟩
  identifier := {
    ordinal := 0, group := "", version := "v1", kind := "ConfigMap"
    resource := "configmaps", «namespace» := "default", name := "m1" }

/-- A world with the object, in the hands of these owners. -/
def world (owners : List OwnerReference) : World where
  member := ({} : Member).put (.ofTracked entry) {
    metadata := {
      name := some "m1", «namespace» := some "default", uid := some "obj-3"
      ownerReferences := some owners, resourceVersion := some "1" } }

theorem placed_world (owners : List OwnerReference) : (world owners).member.Placed :=
  Placed.put (m := {}) placed_empty ⟨rfl, rfl⟩

/-- The release looks first, and has the older copy of the object when it withdraws. -/
theorem taken_over_between_look_and_patch : ∃ log x w',
    Interleaved (world [Shared.owner "demo" "aw-1", Shared.owner "other" "aw-2"])
      (release "aw-1" entry).run (Apply.manifest resolved (Shared.owner "third" "aw-3")).run log x
      (.ok .updated) w' ∧
    ¬EndsInDeletion log ∧ ∃ o, w'.member.Holds "aw-3" (.ofTracked entry) o := by
  have hrun : ∃ log x w', Interleaved
      (world [Shared.owner "demo" "aw-1", Shared.owner "other" "aw-2"]) (release "aw-1" entry).run
      (Apply.manifest resolved (Shared.owner "third" "aw-3")).run log x (.ok .updated) w' ∧
      ¬EndsInDeletion log :=
    ⟨_, _, _, .left (.right (.right (.left (.done _ _ _)))), fun ⟨_, _, hlast⟩ => by cases hlast⟩
  obtain ⟨log, x, w', h, hkept⟩ := hrun
  have hend := taken_over_iff_not_deleted_last (placed_world _) rfl rfl (by decide) h
  exact ⟨log, x, w', h, hkept, hend.held_iff.2 hkept⟩

/-- A release that has found its record alone deletes the object under its new owner. -/
theorem deleted_after_takeover : ¬∀ (w w' : World) (owner : String) (r : TrackedResource)
    (resolved : Manifest.Resolved) (newOwner : OwnerReference) (log : List Exchange)
    (x : Except Failure Release) (action : ApplyAction), w.member.Placed →
      ObjectKey.ofObject resolved.mapping resolved.object = .ofIdentifier resolved.identifier →
      ObjectKey.ofIdentifier resolved.identifier = .ofTracked r → newOwner.uid ≠ owner →
      Interleaved w (release owner r).run (Apply.manifest resolved newOwner).run log x
        (.ok action) w' →
      ∃ o, w'.member.Holds newOwner.uid (.ofTracked r) o := by
  intro hclaim
  have hrun : ∃ log x w', Interleaved (world [Shared.owner "demo" "aw-1"])
      (release "aw-1" entry).run (Apply.manifest resolved (Shared.owner "other" "aw-2")).run log x
      (.ok .updated) w' ∧ w'.member.object? (.ofTracked entry) = none :=
    ⟨_, _, _, .left (.right (.right (.left (.done _ _ _)))), rfl⟩
  obtain ⟨log, x, w', h, hgone⟩ := hrun
  obtain ⟨o, ho, -⟩ := hclaim _ _ _ _ _ _ _ _ _ (placed_world _) rfl rfl (by decide) h
  cases hgone.symm.trans ho

end InMemory.Racing

end MemberAgent
