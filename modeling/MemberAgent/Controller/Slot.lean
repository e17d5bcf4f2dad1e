import MemberAgent.Failure

/-! When an object is reconciled next. An object has one run at a time, and one run to come. A
change during a run leads to one more run as soon as that one ends, however many changes there are,
and then it does not matter when the ended run wanted the next. -/

namespace MemberAgent.Controller

/-- The state of an object between two instants, if it is running or to run. `ρ` is what a run still
has to do; `due` is when something happens next. -/
inductive Slot (ρ : Type) where
  | scheduled (due : Nat)
  | running (due : Nat) (again : Bool) (rest : ρ)

namespace Slot

variable {ρ : Type}

def due : Slot ρ → Nat
  | scheduled due => due
  | running due .. => due

/-- The slot after a change at an instant. -/
def trigger (now : Nat) : Option (Slot ρ) → Slot ρ
  | none => scheduled now
  | some (scheduled due) => scheduled (min due now)
  | some (running due _ rest) => running due true rest

/-- The slot of an object whose run has ended without a change during it. -/
def afterRun (now : Nat) : Action → Option (Slot ρ)
  | .awaitChange => none
  | .requeue seconds => some (scheduled (now + seconds))

/-- A change is never lost: something is due at once, or the run that is under way is followed by
another. -/
theorem trigger_due (now : Nat) (s : Option (Slot ρ)) :
    (trigger now s).due ≤ now ∨ ∃ due rest, trigger now s = running due true rest := by
  cases s with
  | none => exact .inl (Nat.le_refl now)
  | some s =>
    cases s with
    | scheduled due => exact .inl (Nat.min_le_right due now)
    | running due again rest => exact .inr ⟨due, rest, rfl⟩

/-- A second change at the same instant adds nothing to the first. -/
theorem trigger_trigger (now : Nat) (s : Option (Slot ρ)) :
    trigger now (some (trigger now s)) = trigger now s := by
  cases s with
  | none => exact congrArg scheduled (Nat.min_self now)
  | some s =>
    cases s with
    | scheduled due =>
      exact congrArg scheduled ((Nat.min_assoc due now now).trans (congrArg _ (Nat.min_self now)))
    | running due again rest => rfl

end Slot

end MemberAgent.Controller
