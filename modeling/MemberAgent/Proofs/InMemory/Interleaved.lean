import Mathlib.Order.Defs.Unbundled
import MemberAgent.Proofs.InMemory.Reaches
import MemberAgent.Proofs.Program.Transcript

/-! Programs side by side, call by call. What each of them does beside others is worked out on its
own, from how the others may move the world (`Beside`); two programs that move it only so keep what
has been worked out of the other one (`Interleaved.ends`). -/

namespace MemberAgent.InMemory.World

variable {α β : Type} {w w' : World}

/-- Two programs side by side. Their calls are answered one at a time, in any order; the log holds all
of them. -/
inductive Interleaved : World → Program clientCalls α → Program clientCalls β → List Exchange →
    α → β → World → Prop where
  | done (w : World) (a : α) (b : β) : Interleaved w (.done a) (.done b) [] a b w
  | left {w w' : World} {c : ClientCall} {next : Except Failure c.Value → Program clientCalls α}
      {q : Program clientCalls β} {log : List Exchange} {a : α} {b : β}
      (h : Interleaved (w.answer c).2 (next (w.answer c).1) q log a b w') :
      Interleaved w (.call c next) q (⟨c, (w.answer c).1⟩ :: log) a b w'
  | right {w w' : World} {p : Program clientCalls α} {c : ClientCall}
      {next : Except Failure c.Value → Program clientCalls β} {log : List Exchange} {a : α} {b : β}
      (h : Interleaved (w.answer c).2 p (next (w.answer c).1) log a b w') :
      Interleaved w p (.call c next) (⟨c, (w.answer c).1⟩ :: log) a b w'

/-- Beside a program that is done, the other one runs as it does alone. -/
theorem Interleaved.right_alone {a a' : α} {b : β} {q : Program clientCalls β} {log : List Exchange}
    (h : Interleaved w (.done a) q log a' b w') : w.run q = (b, w') ∧ q.Transcript log b := by
  generalize hp : Program.done (I := clientCalls) a = p at h
  induction h with
  | done w _ b => exact ⟨rfl, .done b⟩
  | left => cases hp
  | right _ ih =>
      obtain ⟨hrun, hlog⟩ := ih hp
      exact ⟨hrun, .call _ hlog⟩

theorem Interleaved.right_done {a : α} {b b' : β} {p : Program clientCalls α} {log : List Exchange}
    (h : Interleaved w p (.done b) log a b' w') : b' = b := by
  generalize hq : Program.done (I := clientCalls) b = q at h
  induction h with
  | done => exact (Program.done.inj hq).symm
  | left _ ih => exact ih hq
  | right => cases hq

theorem Interleaved.left_yields {p : Program clientCalls α} {q : Program clientCalls β}
    {log : List Exchange} {a : α} {b : β} {post : α → Prop} (h : Interleaved w p q log a b w')
    (hp : p.Yields (I := clientCalls) post) : post a := by
  induction h with
  | done => exact hp
  | left _ ih => exact ih (hp _)
  | right _ ih => exact ih hp

theorem Interleaved.right_yields {p : Program clientCalls α} {q : Program clientCalls β}
    {log : List Exchange} {a : α} {b : β} {post : β → Prop} (h : Interleaved w p q log a b w')
    (hq : q.Yields (I := clientCalls) post) : post b := by
  induction h with
  | done => exact hq
  | left _ ih => exact ih hq
  | right _ ih => exact ih (hq _)

/-! ### Beside others -/

/-- However others move the world before each call and after the last, the program moves it no
further than they may, and it ends as the condition says. -/
def Beside (may : World → World → Prop) (w : World) :
    Program clientCalls α → (α → World → Prop) → Prop
  | .done a, post => ∀ w', may w w' → post a w'
  | .call c next, post => ∀ v, may w v →
      may v (v.answer c).2 ∧ Beside may (v.answer c).2 (next (v.answer c).1) post

/-- Beside others, the program moves the world no further than they may; and if it succeeds, the
condition holds with its value. -/
def Succeeds (may : World → World → Prop) (w : World) (x : Reconcile α)
    (success : α → World → Prop) : Prop :=
  Beside may w x.run fun result w' => ∀ a, result = .ok a → success a w'

variable {may : World → World → Prop} {post success : α → World → Prop} {goal : β → World → Prop}

theorem Beside.mono {p : Program clientCalls α} {post' : α → World → Prop} (hp : Beside may w p post)
    (hpost : ∀ a w', post a w' → post' a w') : Beside may w p post' := by
  induction p generalizing w with
  | done a => exact fun w' hw' => hpost a w' (hp w' hw')
  | call c next ih => exact fun v hv => ⟨(hp v hv).1, ih _ (hp v hv).2⟩

/-- A program moves the world no further than its calls do. -/
theorem Beside.of_onlyCalls {allowed : ClientCall → Prop}
    (hstep : ∀ v c, allowed c → may v (v.answer c).2) {p : Program clientCalls α}
    (hp : p.OnlyCalls (I := clientCalls) allowed) : Beside may w p fun _ _ => True := by
  induction p generalizing w with
  | done a => exact fun _ _ => trivial
  | call c next ih => exact fun v _ => ⟨hstep v c hp.1, ih _ (hp.2 _)⟩

theorem Succeeds.pure {a : α} (h : ∀ w', may w w' → success a w') :
    Succeeds may w (Pure.pure a) success := by
  rintro w' hw' _ ⟨⟩
  exact h w' hw'

theorem Succeeds.fail (failure : Failure) :
    Succeeds may w (ExceptT.mk (.done (.error failure))) success := by
  rintro w' - _ ⟨⟩

theorem Succeeds.request {c : ClientCall} {success : c.Value → World → Prop}
    (h : ∀ v, may w v → may v (v.answer c).2 ∧ ∀ value, (v.answer c).1 = .ok value →
      ∀ w', may (v.answer c).2 w' → success value w') :
    Succeeds may w (MemberAgent.request c) success := by
  intro v hv
  obtain ⟨hmoved, hnext⟩ := h v hv
  exact ⟨hmoved, fun w' hw' value hvalue => hnext value hvalue w' hw'⟩

/-- A call, and what depends on its reply. -/
theorem Succeeds.request_andThen {c : ClientCall} {f : c.Value → Reconcile β}
    (h : ∀ v, may w v → may v (v.answer c).2 ∧ ∀ value, (v.answer c).1 = .ok value →
      Succeeds may (v.answer c).2 (f value) goal) :
    Succeeds may w (MemberAgent.request c >>= f) goal := by
  intro v hv
  obtain ⟨hmoved, hnext⟩ := h v hv
  refine ⟨hmoved, ?_⟩
  cases hreply : (v.answer c).1 with
  | error failure => exact fail failure
  | ok value => exact hnext value hreply

variable [IsPreorder World may]

namespace Beside

/-- What holds of a program still holds when others have moved the world. -/
theorem later {p : Program clientCalls α} (hp : Beside may w p post) (h : may w w') :
    Beside may w' p post := by
  cases p with
  | done a => exact fun v hv => hp v (trans_of may h hv)
  | call c next => exact fun v hv => hp v (trans_of may h hv)

theorem bind {p : Program clientCalls α} {f : α → Program clientCalls β}
    (hp : Beside may w p post)
    (hf : ∀ a w', may w w' → post a w' → Beside may w' (f a) goal) : Beside may w (p >>= f) goal := by
  induction p generalizing w with
  | done a => exact hf a w (refl_of may w) (hp w (refl_of may w))
  | call c next ih =>
      intro v hv
      obtain ⟨hmoved, hnext⟩ := hp v hv
      refine ⟨hmoved, ih _ hnext fun a w' hw' => hf a w' ?_⟩
      exact trans_of may hv (trans_of may hmoved hw')

/-- Where others cannot move the world any more, and the program does not move it wherever it is cut
off, it is left as it is. -/
theorem of_fixed {p : Program clientCalls α} (hfixed : ∀ w', may w w' → w' = w)
    (hp : Reaches (fun fate => fate = .answered) w p fun _ w' => w' = w) :
    Beside may w p fun _ w' => w' = w := by
  induction p with
  | done a => exact hfixed
  | call c next ih =>
      intro v hv
      cases hfixed v hv
      have hgoes : ∀ fates, w.attempt (.answered :: fates) (.call c next) =
          (w.answer c).2.attempt fates (next (w.answer c).1) := fun _ => rfl
      -- the run that is cut off after the first call
      have hkept : (w.answer c).2 = w := by
        have hcut := hp [.answered] fun _ hfate => List.mem_singleton.1 hfate
        rw [hgoes] at hcut
        cases hnext : next (w.answer c).1 <;> rw [hnext] at hcut <;> exact hcut
      rw [hkept]
      refine ⟨refl_of may w, ih _ fun fates hfates => ?_⟩
      have hrest := hp (.answered :: fates) fun fate hfate =>
        (List.mem_cons.1 hfate).elim id (hfates fate)
      rw [hgoes, hkept] at hrest
      exact hrest

end Beside

/-- Two programs, each of which has been worked out beside others that move the world as the other one
does. -/
theorem Interleaved.ends {p : Program clientCalls α} {q : Program clientCalls β} {log : List Exchange}
    {a : α} {b : β} (h : Interleaved w p q log a b w') (hp : Beside may w p post)
    (hq : Beside may w q goal) : may w w' ∧ post a w' ∧ goal b w' := by
  induction h with
  | done w a b => exact ⟨refl_of may w, hp w (refl_of may w), hq w (refl_of may w)⟩
  | left h ih =>
      obtain ⟨hmoved, hnext⟩ := hp _ (refl_of may _)
      obtain ⟨hmay, hends⟩ := ih hnext (hq.later hmoved)
      exact ⟨trans_of may hmoved hmay, hends⟩
  | right h ih =>
      obtain ⟨hmoved, hnext⟩ := hq _ (refl_of may _)
      obtain ⟨hmay, hends⟩ := ih (hp.later hmoved) hnext
      exact ⟨trans_of may hmoved hmay, hends⟩

namespace Succeeds

theorem andThen {x : Reconcile α} {f : α → Reconcile β} (hx : Succeeds may w x success)
    (hf : ∀ a w', may w w' → success a w' → Succeeds may w' (f a) goal) :
    Succeeds may w (x >>= f) goal := by
  refine Beside.bind hx fun result w' hw' hsuccess => ?_
  cases result with
  | error failure => exact fail failure
  | ok a => exact hf a w' hw' (hsuccess a rfl)

/-- A program that does not fail, and what depends on its result. -/
theorem lift_andThen {p : Program clientCalls α} {f : α → Reconcile β} (hp : Beside may w p post)
    (hf : ∀ a w', may w w' → post a w' → Succeeds may w' (f a) goal) :
    Succeeds may w (ExceptT.lift p >>= f) goal := by
  have hrun : (ExceptT.lift p >>= f : Reconcile β).run = p >>= fun a => (f a).run :=
    Program.bind_assoc' p (fun a => .done (Except.ok a)) _
  rw [Succeeds, hrun]
  exact Beside.bind hp hf

/-- A call that only reads, and what depends on what it reads. -/
theorem request_read {c : ClientCall} {value : World → c.Value} {f : c.Value → Reconcile β}
    (hanswer : ∀ v : World, v.answer c = (.ok (value v), v))
    (hf : ∀ v, may w v → Succeeds may v (f (value v)) goal) :
    Succeeds may w (MemberAgent.request c >>= f) goal := by
  refine request_andThen fun v hv => ?_
  rw [hanswer v]
  refine ⟨refl_of may v, ?_⟩
  rintro _ ⟨⟩
  exact hf v hv

end Succeeds

end MemberAgent.InMemory.World
