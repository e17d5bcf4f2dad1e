import MemberAgent.Client

/-! Runs of a program against an environment. The environment has a state of its own: it replies to
a call, or it cuts the run off there. Every way in which a program is run is of this kind, so what a
run does is worked out once, by `against_bind`. -/

namespace MemberAgent

namespace Program

variable {I : Interface} {α β σ : Type}

/-- Runs a program against an environment; no result means that the run was cut off. -/
def against (reply : σ → (c : I.Call) → Option (I.Reply c) × σ) : σ → Program I α → Option α × σ
  | s, done a => (some a, s)
  | s, call c next => match reply s c with
    | (none, s') => (none, s')
    | (some r, s') => against reply s' (next r)

/-- Goes on with the result of a run, unless there is none. -/
def resume (f : α → σ → Option β × σ) : Option α × σ → Option β × σ
  | (none, s) => (none, s)
  | (some a, s) => f a s

variable {reply : σ → (c : I.Call) → Option (I.Reply c) × σ}

theorem against_call (s : σ) (c : I.Call) (next : I.Reply c → Program I α) :
    against reply s (call c next) = resume (fun r s' => against reply s' (next r)) (reply s c) := by
  rw [against]
  rcases reply s c with ⟨_ | r, s'⟩ <;> rfl

theorem against_bind (s : σ) (p : Program I α) (f : α → Program I β) :
    against reply s (p >>= f) = resume (fun a s' => against reply s' (f a)) (against reply s p) := by
  induction p generalizing s with
  | done a => rfl
  | call c next ih =>
      rw [bind_call, against_call, against_call]
      rcases reply s c with ⟨_ | r, s'⟩
      · rfl
      · exact ih r s'

end Program

end MemberAgent
