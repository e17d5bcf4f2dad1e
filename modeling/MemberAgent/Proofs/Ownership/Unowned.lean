import MemberAgent.Proofs.Ownership.Takeover

/-! The release of an entry whose object the record does not own. There is nothing to withdraw, so the
object is left alone or deleted. It is deleted when nobody but the record owns it, and that is so
without any owners as well: a record can take away an object that it has never owned. -/

namespace MemberAgent

open InMemory Tracking

namespace Tracking

variable {owner : String} {r : TrackedResource} {live : ApiObject}

theorem othersThan_of_unowned (h : ¬live.IsOwnedBy owner) :
    othersThan owner live = live.metadata.owners :=
  List.filter_eq_self.2 fun o ho => decide_eq_true fun huid => h ⟨o, ho, huid⟩

/-- What is left of a release that has looked at its object and has not found the record among the
owners. -/
inductive UnownedLeft (r : TrackedResource) : Option ApiObject → Reconcile Release → Prop where
  | leaving (seen : Option ApiObject) (outcome : Release)
      (hkept : ∀ live, seen = some live → live.metadata.owners ≠ [] ∨ IsReplaced r live) :
      UnownedLeft r seen (pure outcome)
  | deleting (live : ApiObject) (hnobody : live.metadata.owners = []) (hmeant : ¬IsReplaced r live) :
      UnownedLeft r (some live) (do return .deleted (← request (.deleteTracked r)))

theorem release_unowned (owner : String) (r : TrackedResource) :
    ∃ goOn, release owner r = request (.getTracked r) >>= goOn ∧
      ∀ seen : Option ApiObject, (∀ live, seen = some live → ¬live.IsOwnedBy owner) →
        UnownedLeft r seen (goOn seen) := by
  refine ⟨_, rfl, fun seen hunowned => ?_⟩
  cases seen with
  | none => exact .leaving none _ fun _ hlive => by cases hlive
  | some live =>
      have hall := othersThan_of_unowned (hunowned live rfl)
      dsimp only
      split
      · next hreplaced =>
          refine .leaving _ _ fun _ hlive => ?_
          cases hlive
          exact Or.inr hreplaced
      next hmeant =>
      split
      · next halone =>
          have halone : othersThan owner live = [] := List.isEmpty_iff.1 halone
          exact .deleting live (hall.symm.trans halone) hmeant
      next hothers =>
      split
      · refine .leaving _ _ fun _ hlive => ?_
        cases hlive
        exact Or.inl fun hnobody => hothers (List.isEmpty_iff.2 (hall.trans hnobody))
      · next howned => exact absurd (congrArg List.length hall) howned

end Tracking

namespace InMemory.World

open Tracking

variable {w : World} {owner : String} {r : TrackedResource}

/-- Whether a release for a record that does not own the object of an entry has to leave it alone: it
has owners, it is not the object that the entry means, or deleting it is set to fail. -/
def Spared (w : World) (r : TrackedResource) : Prop :=
  ∀ live, w.member.object? (.ofTracked r) = some live →
    live.metadata.owners ≠ [] ∨ IsReplaced r live ∨
      w.member.failingDeletes.contains (.ofTracked r)

/-- The world without the object of an entry. -/
def without (w : World) (r : TrackedResource) : World :=
  { w with member := w.member.removeObject (.ofTracked r) }

theorem without_ne {live : ApiObject} (hlive : w.member.object? (.ofTracked r) = some live) :
    w.without r ≠ w := by
  intro h
  have hgone : (w.without r).member.object? (.ofTracked r) = none := by
    show (w.member.objects.erase _).get? _ = none
    rw [Table.get?_erase, if_pos rfl]
  rw [h, hlive] at hgone
  cases hgone

/-- Deleting an object that nobody owns. -/
theorem answer_deleteTracked_unowned {live : ApiObject}
    (hlive : w.member.object? (.ofTracked r) = some live) (hnobody : live.metadata.owners = [])
    (hmeant : ¬IsReplaced r live) :
    (w.Spared r ∧ ∃ failure, w.answer (.deleteTracked r) = (.error failure, w)) ∨
      ¬w.Spared r ∧ ∃ deletion, w.answer (.deleteTracked r) = (.ok deletion, w.without r) := by
  by_cases hfailing : w.member.failingDeletes.contains (ObjectKey.ofTracked r)
  · refine Or.inl ⟨fun _ _ => Or.inr (Or.inr hfailing), .refused 500 "InternalError"
      "etcdserver: request timed out", answer_of_perform_error ?_⟩
    rw [perform, Member.deleteTracked, if_pos hfailing]
    rfl
  · have hsame : ¬(r.uid.isSome ∧ r.uid ≠ live.metadata.uid) := by
      rintro ⟨hseen, hother⟩
      exact hmeant ⟨hseen, Ne.symm hother⟩
    refine Or.inr ⟨fun hspared => ?_, .deleted live.metadata.uid, answer_of_perform ?_⟩
    · rcases hspared live hlive with howned | hreplaced | hfails
      · exact howned hnobody
      · exact hmeant hreplaced
      · exact hfailing hfails
    · rw [perform, Member.deleteTracked, if_neg hfailing, hlive]
      dsimp only
      rw [if_neg hsame]
      rfl

/-- Whatever becomes of the calls of such a release, it does nothing or it takes the object away, and
an object that is spared stays. -/
theorem release_unowned_ends {possible : Fate → Prop}
    (hunowned : ∀ live, w.member.object? (.ofTracked r) = some live → ¬live.IsOwnedBy owner) :
    Ends possible w (release owner r) (fun w' => w' = w ∨ ¬w.Spared r ∧ w' = w.without r)
      fun _ _ => True := by
  obtain ⟨goOn, hrelease, hgoOn⟩ := release_unowned owner r
  have hrest := hgoOn _ hunowned
  rw [hrelease]
  refine Ends.andThen (Ends.request_read (answer_getTracked w r)) (fun _ => Or.inl) ?_
  rintro _ w' hsame rfl
  rw [hsame]
  generalize hseen : w.member.object? (.ofTracked r) = seen at hrest ⊢
  generalize goOn seen = rest at hrest ⊢
  cases hrest with
  | leaving => exact Ends.pure (Or.inl rfl) trivial
  | deleting live hnobody hmeant =>
      rcases answer_deleteTracked_unowned hseen hnobody hmeant with
        ⟨-, failure, hanswer⟩ | ⟨hnot, deletion, hanswer⟩
      · refine Ends.andThen (Ends.request_of_error hanswer) (fun _ => Or.inl) ?_
        exact fun _ _ _ hnever => hnever.elim
      · have heither : ∀ w', w' = w ∨ w' = w.without r →
            w' = w ∨ ¬w.Spared r ∧ w' = w.without r :=
          fun _ h => h.imp_right fun hgone => ⟨hnot, hgone⟩
        refine Ends.andThen (Ends.request_of_answer hanswer) heither fun _ w' h _ => ?_
        exact Ends.pure (heither w' h) trivial

/-- Undisturbed, it takes away an object that is not spared. -/
theorem run_release_of_not_spared
    (hunowned : ∀ live, w.member.object? (.ofTracked r) = some live → ¬live.IsOwnedBy owner)
    (hnot : ¬w.Spared r) :
    ∃ deletion, w.run (release owner r).run = (.ok (.deleted deletion), w.without r) := by
  obtain ⟨goOn, hrelease, hgoOn⟩ := release_unowned owner r
  have hrest := hgoOn _ hunowned
  rw [hrelease, run_request_andThen (answer_getTracked w r)]
  generalize hseen : w.member.object? (.ofTracked r) = seen at hrest ⊢
  generalize goOn seen = rest at hrest ⊢
  cases hrest with
  | leaving _ _ hkept =>
      exact absurd (fun live hlive => (hkept live (hseen.symm.trans hlive)).imp_right Or.inl) hnot
  | deleting live hnobody hmeant =>
      obtain ⟨deletion, hanswer⟩ :=
        ((answer_deleteTracked_unowned hseen hnobody hmeant).resolve_left fun h => hnot h.1).2
      exact ⟨deletion, run_request_andThen hanswer _⟩

/-- A release for a record that does not own the object of its entry changes nothing, exactly if the
object is spared. Whatever becomes of its calls, it does no more than take that object away. -/
theorem unowned_untouched_iff (w : World) (owner : String) (r : TrackedResource)
    (hunowned : ∀ live, w.member.object? (.ofTracked r) = some live → ¬live.IsOwnedBy owner) :
    ((w.run (release owner r).run).2 = w ↔ w.Spared r) ∧
      ∀ fates, (w.attempt fates (release owner r).run).2.1 = w ∨
        ¬w.Spared r ∧ (w.attempt fates (release owner r).run).2.1 = w.without r := by
  have hends : Ends (fun _ => True) w (release owner r) _ _ := release_unowned_ends hunowned
  refine ⟨⟨fun hsame => ?_, fun hspared => ?_⟩, fun fates => ?_⟩
  · by_contra hnot
    obtain ⟨deletion, hrun⟩ := run_release_of_not_spared hunowned hnot
    obtain ⟨live, hlive⟩ := not_forall.1 hnot
    have hlive := (Classical.not_imp.1 hlive).1
    exact without_ne hlive ((congrArg Prod.snd hrun).symm.trans hsame)
  · exact (Reaches.run hends trivial).1.resolve_right fun h => h.1 hspared
  · exact (hends fates fun _ _ => trivial).1

end InMemory.World

/-! ### An object without owners -/

namespace InMemory.Racing

open World

/-- The object of another record is left to it. -/
theorem object_of_other_untouched :
    ((world [Shared.owner "demo" "aw-1"]).run (release "aw-3" entry).run).2 =
      world [Shared.owner "demo" "aw-1"] := by
  have hlive : ∀ live, (world [Shared.owner "demo" "aw-1"]).member.object? (.ofTracked entry) =
      some live → live.metadata.owners = [Shared.owner "demo" "aw-1"] := by
    rintro live h
    cases h
    rfl
  refine (unowned_untouched_iff _ "aw-3" entry ?_).1.2 ?_
  · rintro live h ⟨o, ho, huid⟩
    rw [hlive live h, List.mem_singleton] at ho
    subst ho
    revert huid
    decide
  · exact fun live h => Or.inl (by rw [hlive live h]; exact List.cons_ne_nil _ _)

/-- An object that nobody owns is deleted by any record that has an entry for it. -/
theorem ownerless_object_deleted : ¬∀ (w : World) (owner : String) (r : TrackedResource),
    (∀ live, w.member.object? (.ofTracked r) = some live → ¬live.IsOwnedBy owner) →
      (w.run (release owner r).run).2 = w := by
  intro hclaim
  have hlive : (world []).member.object? (.ofTracked entry) ≠ none := by decide
  have hsame := hclaim (world []) "aw-1" entry (by
    rintro live h ⟨o, ho, -⟩
    cases h
    cases ho)
  have hgone : ((world []).run (release "aw-1" entry).run).2.member.object? (.ofTracked entry) =
      none := by decide
  rw [hsame] at hgone
  exact hlive hgone

end InMemory.Racing

end MemberAgent
