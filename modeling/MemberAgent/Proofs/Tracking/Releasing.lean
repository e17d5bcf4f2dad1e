import MemberAgent.Proofs.Tracking.Released

/-! The release of an entry, call by call. It looks at the object and makes one more call at most,
which releases the entry or fails, also when others release the same object in between. -/

namespace MemberAgent

open InMemory

namespace InMemory.World

open Tracking

/-- Releases an entry on the member cluster. -/
def released (owner : String) (w : World) (r : TrackedResource) : World :=
  { w with member := w.member.released owner r }

def releasedAll (owner : String) (w : World) (l : List TrackedResource) : World :=
  { w with member := w.member.releasedAll owner l }

variable {possible : Fate → Prop} {w : World} {owner : String} {r : TrackedResource}

theorem answer_getTracked (w : World) (r : TrackedResource) :
    w.answer (.getTracked r) = (.ok (w.member.object? (.ofTracked r)), w) := rfl

/-- Whether deleting the object of an entry is what its release comes to, and is set to fail. -/
structure Blocked (owner : String) (w : World) (r : TrackedResource) : Prop where
  failing : w.member.failingDeletes.contains (.ofTracked r)
  there : (w.member.object? (.ofTracked r)).isSome
  deleted : (w.member.leftUnder owner r).1 = none

theorem not_blocked_of_healthy (hhealthy : w.member.failingDeletes = []) : ¬Blocked owner w r := by
  intro h
  have hfailing := h.failing
  rw [hhealthy] at hfailing
  cases hfailing

/-- What is blocked after another release was blocked before it. -/
theorem Blocked.of_released {r' : TrackedResource} (h : Blocked owner (w.released owner r') r) :
    Blocked owner w r := by
  obtain ⟨hfailing, hthere, hdeleted⟩ := h
  have hsame : (w.released owner r').member.failingDeletes = w.member.failingDeletes :=
    Member.failingDeletes_released
  rw [hsame] at hfailing
  rw [released, Member.object?_released] at hthere
  by_cases hkey : ObjectKey.ofTracked r' = .ofTracked r
  · rw [if_pos hkey] at hthere
    have hleft := (Member.leftUnder_released_same owner w.member hkey).1.symm.trans hdeleted
    unfold Member.leftUnder at hthere
    rw [hkey] at hleft hthere
    cases hlive : w.member.object? (.ofTracked r) with
    | none => rw [hlive] at hthere; cases hthere
    | some live =>
        rw [hlive] at hleft hthere
        refine ⟨hfailing, by rw [hlive]; rfl, ?_⟩
        rw [Member.leftUnder, hlive]
        exact remainder_eq_none_of_two hthere hleft
  · rw [if_neg hkey] at hthere
    rw [released, Member.leftUnder_released_other hkey] at hdeleted
    exact ⟨hfailing, hthere, hdeleted⟩

/-- Whether the object of an entry is as it was, or as releases for the owner leave it. -/
def LeftSince (owner : String) (r : TrackedResource) (w w' : World) : Prop :=
  w'.member.object? (.ofTracked r) = w.member.object? (.ofTracked r) ∨
    w'.member.object? (.ofTracked r) =
      (w.member.object? (.ofTracked r)).bind fun live => (afterRelease owner live).1

/-- Whether a call releases an entry. -/
def Releases (owner : String) (r : TrackedResource) (c : ClientCall) (w : World) : Prop :=
  ∃ value, w.answer c = (.ok value, w.released owner r)

/-- What is left of a release once the object has been looked at: nothing, where there is nothing to
release, or one call. Also when others have released the object meanwhile, the call releases the entry
or it fails; when they have not, it fails only if deleting is set to fail. -/
inductive Releasing (owner : String) (w : World) (r : TrackedResource) : Reconcile Release → Prop where
  | nothing (outcome : Release) (hkept : w.released owner r = w) :
      Releasing owner w r (pure outcome)
  | call (c : ClientCall) (f : c.Value → Release)
      (hlater : ∀ w', w'.member.Placed → LeftSince owner r w w' →
        Releases owner r c w' ∨ ∃ failure, w'.answer c = (.error failure, w'))
      (hfree : ¬Blocked owner w r → Releases owner r c w) :
      Releasing owner w r (do return f (← request c))

/-- Deleting releases an entry that nobody else owns, unless it is set to fail. -/
theorem releases_delete
    (halone : ∀ live, w.member.object? (.ofTracked r) = some live → othersThan owner live = []) :
    Releases owner r (.deleteTracked r) w ∨
      w.member.failingDeletes.contains (.ofTracked r) ∧
        ∃ failure, w.answer (.deleteTracked r) = (.error failure, w) := by
  by_cases hfailing : w.member.failingDeletes.contains (ObjectKey.ofTracked r)
  · refine Or.inr ⟨hfailing, .refused 500 "InternalError" "etcdserver: request timed out",
      answer_of_perform_error ?_⟩
    rw [perform, Member.deleteTracked, if_pos hfailing]
    rfl
  refine Or.inl ?_
  have hgone : w.member.deleteTracked r = .ok (.alreadyGone, w.member) →
      w.member.released owner r = w.member → Releases owner r (.deleteTracked r) w := by
    intro hdelete hkept
    refine ⟨.alreadyGone, answer_of_perform ?_⟩
    rw [perform, hdelete, released, hkept]
    rfl
  cases hlive : w.member.object? (.ofTracked r) with
  | none =>
      refine hgone ?_ (Member.released_eq_self ?_)
      · rw [Member.deleteTracked, if_neg hfailing, hlive]
      · rw [Member.leftUnder, hlive]
  | some live =>
      by_cases hreplaced : IsReplaced r live
      · refine hgone ?_ (Member.released_of_kept hlive (if_pos hreplaced))
        rw [Member.deleteTracked, if_neg hfailing, hlive]
        exact if_pos ⟨hreplaced.1, Ne.symm hreplaced.2⟩
      · refine ⟨.deleted live.metadata.uid, answer_of_perform ?_⟩
        rw [perform, Member.deleteTracked_eq_released hlive hreplaced (halone live hlive) hfailing]
        rfl

/-- Withdrawing releases an entry that others own as well, if the object is as it was seen. -/
theorem releases_withdraw {live : ApiObject} (hplaced : w.member.Placed)
    (hlive : w.member.object? (.ofTracked r) = some live) (hmeant : ¬IsReplaced r live)
    (hothers : othersThan owner live ≠ [])
    (howned : (othersThan owner live).length ≠ live.metadata.owners.length) :
    Releases owner r (.patchOwners (.ofTracked r) live (othersThan owner live)) w := by
  refine ⟨(), answer_of_perform ?_⟩
  rw [perform, Member.patchOwners_eq_released hlive hplaced hmeant hothers howned]
  rfl

/-- A release looks at the object, and goes on from what it sees. -/
theorem release_eq (owner : String) (r : TrackedResource) :
    ∃ goOn : Option ApiObject → Reconcile Release,
    release owner r = request (.getTracked r) >>= goOn ∧ ∀ w : World, w.member.Placed →
      Releasing owner w r (goOn (w.member.object? (.ofTracked r))) := by
  refine ⟨_, rfl, fun w hplaced => ?_⟩
  have hnothing : ∀ outcome, w.member.released owner r = w.member →
      Releasing owner w r (pure outcome) := by
    intro outcome hkept
    exact .nothing outcome (by rw [released, hkept])
  cases hlive : w.member.object? (.ofTracked r) with
  | none =>
      refine hnothing _ (Member.released_eq_self ?_)
      rw [Member.leftUnder, hlive]
  | some live =>
      dsimp only
      split
      · next hreplaced => exact hnothing _ (Member.released_of_kept hlive (if_pos hreplaced))
      next hmeant =>
      have hmeant : ¬IsReplaced r live := hmeant
      split
      · next halone =>
          have halone : othersThan owner live = [] := List.isEmpty_iff.1 halone
          refine .call (.deleteTracked r) .deleted (fun w' _ hsince => ?_) fun hfree => ?_
          · refine (releases_delete fun live' hlive' => ?_).imp_right And.right
            rcases hsince with hsame | hreleased
            · rw [hsame, hlive] at hlive'
              cases hlive'
              exact halone
            · -- a release for the same owner takes the object away
              rw [hreleased, hlive, Option.bind_some, afterRelease, if_pos halone] at hlive'
              cases hlive'
          · refine (releases_delete fun live' hlive' => ?_).resolve_right fun h => hfree ?_
            · rw [hlive] at hlive'
              cases hlive'
              exact halone
            · refine ⟨h.1, by rw [hlive]; rfl, ?_⟩
              rw [Member.leftUnder, hlive]
              show (remainder owner r live).1 = none
              rw [remainder, if_neg hmeant, afterRelease, if_pos halone]
      next hothers =>
      have hothers : othersThan owner live ≠ [] := fun e => hothers (List.isEmpty_iff.2 e)
      split
      · next hnone =>
          refine hnothing _ (Member.released_of_kept hlive ?_)
          rw [remainder, if_neg hmeant, afterRelease, if_neg hothers, if_pos]
          exact hnone
      · next howned =>
          have howned : (othersThan owner live).length ≠ live.metadata.owners.length := howned
          refine .call (.patchOwners (.ofTracked r) live (othersThan owner live))
            (fun _ => .ownerRemoved _) (fun w' hplaced' hsince => ?_) fun _ =>
              releases_withdraw hplaced hlive hmeant hothers howned
          rcases hsince with hsame | hreleased
          · exact Or.inl (releases_withdraw hplaced' (hsame.trans hlive) hmeant hothers howned)
          · -- others have withdrawn the owner, and the version has moved on
            rw [hlive, Option.bind_some, afterRelease, if_neg hothers, if_neg howned] at hreleased
            have hkey : ObjectKey.ofObject (.ofTracked r) live = .ofTracked r :=
              hplaced.ofObject_eq hlive rfl
            rw [← hkey] at hreleased
            refine Or.inr ⟨outdated "object", answer_of_perform_error ?_⟩
            rw [perform, Member.patchOwners_withdrawn hreleased]
            rfl

/-- An attempt to release an entry does it or does nothing, and it does it if it succeeds. -/
theorem release_ends (owner : String) (r : TrackedResource) (hplaced : w.member.Placed) :
    Ends possible w (release owner r) (fun w' => w' = w ∨ w' = w.released owner r)
      fun _ w' => w' = w.released owner r := by
  obtain ⟨goOn, hrelease, hgoOn⟩ := release_eq owner r
  rw [hrelease]
  refine Ends.andThen (Ends.request_read (answer_getTracked w r)) (fun _ => Or.inl) ?_
  rintro _ _ rfl rfl
  have hrest := hgoOn _ hplaced
  generalize goOn (_ : Option ApiObject) = rest at hrest
  cases hrest with
  | nothing outcome hkept => exact Ends.pure (Or.inl rfl) hkept.symm
  | call c f hlater _ =>
      rcases hlater _ hplaced (Or.inl rfl) with ⟨value, hanswer⟩ | ⟨failure, hanswer⟩
      · refine Ends.andThen (Ends.request_of_answer hanswer) (fun _ h => h) fun reply v h hreply => ?_
        exact Ends.pure h hreply.2
      · refine Ends.andThen (Ends.request_of_error hanswer) (fun _ => Or.inl) ?_
        intro _ _ _ hnever
        exact hnever.elim

/-- Undisturbed, an entry is released, unless deleting is set to fail. -/
theorem run_release (owner : String) (r : TrackedResource) (hplaced : w.member.Placed)
    (hfree : ¬Blocked owner w r) :
    ∃ outcome, w.run (release owner r).run = (.ok outcome, w.released owner r) := by
  obtain ⟨goOn, hrelease, hgoOn⟩ := release_eq owner r
  rw [hrelease, run_request_andThen (answer_getTracked w r)]
  have hrest := hgoOn w hplaced
  generalize goOn (w.member.object? (.ofTracked r)) = rest at hrest
  cases hrest with
  | nothing outcome hkept => exact ⟨outcome, by rw [hkept]; rfl⟩
  | call c f _ hanswers =>
      obtain ⟨value, hanswer⟩ := hanswers hfree
      refine ⟨f value, ?_⟩
      rw [run_request_andThen hanswer]
      rfl

end InMemory.World

end MemberAgent
