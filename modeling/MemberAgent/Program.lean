/-! Programs that call on a world outside. A program is a tree: it is done, or it makes a call and
goes on with any reply. Running it is recursion on the tree (`Program.run`), so a run can be cut
off, replayed or interleaved with others call by call. -/

namespace MemberAgent

/-- What a program may call, and the type of the reply to each call. -/
structure Interface where
  Call : Type
  Reply : Call → Type

inductive Program (I : Interface) (α : Type) where
  | done (a : α)
  | call (c : I.Call) (next : I.Reply c → Program I α)

namespace Program

variable {I J : Interface} {α β : Type}

def bind : Program I α → (α → Program I β) → Program I β
  | done a, f => f a
  | call c next, f => call c fun r => (next r).bind f

instance : Monad (Program I) where
  pure := done
  bind := bind

@[simp] theorem bind_done (a : α) (f : α → Program I β) : (done a >>= f) = f a := rfl

@[simp] theorem bind_call (c : I.Call) (next : I.Reply c → Program I α) (f : α → Program I β) :
    (call c next >>= f) = call c fun r => next r >>= f := rfl

@[simp] theorem pure_eq_done (a : α) : (pure a : Program I α) = done a := rfl

theorem bind_pure' (p : Program I α) : p >>= done = p := by
  induction p with
  | done a => rfl
  | call c next ih => exact congrArg (call c) (funext ih)

theorem bind_assoc' {γ : Type} (p : Program I α) (f : α → Program I β) (g : β → Program I γ) :
    p >>= f >>= g = p >>= fun a => f a >>= g := by
  induction p with
  | done a => rfl
  | call c next ih => exact congrArg (call c) (funext ih)

instance : LawfulMonad (Program I) :=
  LawfulMonad.mk' _ bind_pure' (fun _ _ => rfl) bind_assoc' (fun _ _ => rfl) (fun _ _ => rfl)
    (fun _ _ => rfl) (fun _ _ => rfl)

/-- The program that makes one call and answers with the reply. -/
def perform (c : I.Call) : Program I (I.Reply c) := call c done

/-- Answers every call. -/
def run {m : Type → Type} [Monad m] (answer : (c : I.Call) → m (I.Reply c)) : Program I α → m α
  | done a => pure a
  | call c next => do run answer (next (← answer c))

/-- Replaces every call by a program over another interface. -/
def interpret (answer : (c : I.Call) → Program J (I.Reply c)) : Program I α → Program J α :=
  run answer

end Program

end MemberAgent
