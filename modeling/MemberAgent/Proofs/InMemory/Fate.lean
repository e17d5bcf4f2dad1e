import MemberAgent.InMemory.World
import MemberAgent.Proofs.Program.Environment

/-! What may become of a client call, and runs in which it becomes of some. A run meets one fate
after another and is cut off when there are none left, so a list of fates stands for a run with any
failures, before or after their effect, that ends at any call. -/

namespace MemberAgent.InMemory

/-- A call is answered, or it fails without effect, or it takes effect and fails all the same. -/
inductive Fate where
  | answered
  | refused (failure : Failure)
  | lost (failure : Failure)
  deriving DecidableEq

/-- Whether a call fails although it takes effect. -/
def Fate.IsLost : Fate → Prop
  | .lost _ => True
  | _ => False

namespace World

def meet (w : World) (fate : Fate) (c : ClientCall) : Except Failure c.Value × World :=
  match fate with
  | .answered => w.answer c
  | .refused failure => (.error failure, w)
  | .lost failure => (.error failure, (w.answer c).2)

theorem meet_world (w : World) (fate : Fate) (c : ClientCall) :
    (w.meet fate c).2 = w ∨ (w.meet fate c).2 = (w.answer c).2 := by
  cases fate with
  | answered => exact Or.inr rfl
  | refused => exact Or.inl rfl
  | lost => exact Or.inr rfl

/-- A call that succeeds has been answered. -/
theorem meet_ok {w : World} {fate : Fate} {c : ClientCall} {value : c.Value}
    (he : (w.meet fate c).1 = .ok value) : w.meet fate c = w.answer c := by
  cases fate with
  | answered => rfl
  | refused | lost => cases he

/-- Unless a call is lost, it fails without effect. -/
theorem meet_error {w : World} {fate : Fate} {c : ClientCall} {failure : Failure}
    (hkept : ¬fate.IsLost) (he : (w.meet fate c).1 = .error failure) : (w.meet fate c).2 = w := by
  cases fate with
  | lost => exact absurd trivial hkept
  | refused => rfl
  | answered =>
      rw [meet, answer] at he ⊢
      cases hc : w.perform c with
      | error => rfl
      | ok => rw [hc] at he; cases he

/-- Replies by the next fate; there is no reply without one. -/
def meetNext : World × List Fate → (c : ClientCall) →
    Option (Except Failure c.Value) × World × List Fate
  | (w, []), _ => (none, w, [])
  | (w, fate :: rest), c => (some (w.meet fate c).1, (w.meet fate c).2, rest)

/-- A run under fates: its result, unless it was cut off, and the world that it leaves. -/
def attempt {α : Type} (w : World) (fates : List Fate) (p : Program clientCalls α) :
    Option α × World × List Fate :=
  Program.against meetNext (w, fates) p

/-- An undisturbed run is a run under enough fates that are all answers. -/
theorem exists_attempt_eq_run {α : Type} (w : World) (p : Program clientCalls α) :
    ∃ n, w.attempt (List.replicate n .answered) p = (some (w.run p).1, (w.run p).2, []) := by
  induction p generalizing w with
  | done a => exact ⟨0, rfl⟩
  | call c next ih =>
      obtain ⟨n, hn⟩ := ih (w.answer c).1 (w.answer c).2
      exact ⟨n + 1, hn⟩

end World

end MemberAgent.InMemory
