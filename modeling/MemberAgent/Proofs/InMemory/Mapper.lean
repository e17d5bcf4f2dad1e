import MemberAgent.Proofs.InMemory.Reaches

/-! Undisturbed runs in which kinds are looked up elsewhere, by whatever gives the same reply every
time; the reply may be a failure. The table of kinds of a world is one such mapper
(`run_eq_runBy`). -/

namespace MemberAgent.InMemory.World

/-- The reply to each lookup of a kind. -/
abbrev Mapper := Kind → Except Failure (Option ResourceMapping)

variable {α β : Type} {mapper : Mapper} {w w' : World}

def answerBy (mapper : Mapper) (w : World) : (c : ClientCall) → Except Failure c.Value × World
  | .findMapping kind => (mapper kind, w)
  | c => w.answer c

def runBy (mapper : Mapper) (w : World) : Program clientCalls α → α × World
  | .done a => (a, w)
  | .call c next => runBy mapper (w.answerBy mapper c).2 (next (w.answerBy mapper c).1)

theorem runBy_bind (w : World) (p : Program clientCalls α) (f : α → Program clientCalls β) :
    w.runBy mapper (p >>= f) = (w.runBy mapper p).2.runBy mapper (f (w.runBy mapper p).1) := by
  induction p generalizing w with
  | done a => rfl
  | call c next ih => exact ih _ _

theorem runBy_bind_of {p : Program clientCalls α} {a : α} (hp : w.runBy mapper p = (a, w'))
    (f : α → Program clientCalls β) : w.runBy mapper (p >>= f) = w'.runBy mapper (f a) := by
  rw [runBy_bind, hp]

theorem runBy_andThen {x : Reconcile α} {a : α} (hx : w.runBy mapper x.run = (.ok a, w'))
    (f : α → Reconcile β) : w.runBy mapper (x >>= f).run = w'.runBy mapper (f a).run :=
  runBy_bind_of hx _

theorem runBy_request {c : ClientCall} {value : c.Value}
    (hanswer : w.answerBy mapper c = (.ok value, w')) (f : c.Value → Reconcile β) :
    w.runBy mapper (request c >>= f).run = w'.runBy mapper (f value).run :=
  runBy_andThen (x := request c) hanswer f

theorem runBy_lift {p : Program clientCalls α} {a : α} (hp : w.runBy mapper p = (a, w')) :
    w.runBy mapper (ExceptT.lift p : Reconcile α).run = (.ok a, w') :=
  runBy_bind_of hp _

/-- Whatever is replied, a run comes to nothing else than its program does. -/
theorem yields_runBy (mapper : Mapper) (w : World) {post : α → Prop} {p : Program clientCalls α}
    (hp : p.Yields (I := clientCalls) post) : post (w.runBy mapper p).1 := by
  induction p generalizing w with
  | done a => exact hp
  | call c next ih => exact ih _ _ (hp _)

/-! ### The table of kinds as a mapper -/

theorem kinds_perform {c : ClientCall} {value : c.Value} (he : w.perform c = .ok (value, w')) :
    w'.kinds = w.kinds := by
  cases c with
  | getWork | getAppliedWork | getObject | getTracked | findMapping | deleteAppliedWork =>
      cases he
      rfl
  | patchWorkStatus | addFinalizer | removeFinalizer =>
      obtain ⟨_, -, rfl⟩ := onHub_eq_ok he
      rfl
  | createAppliedWork | createObject | replaceObject | deleteTracked =>
      obtain ⟨_, -, rfl⟩ := onMember_eq_ok he
      rfl
  | updateResources | patchOwners =>
      obtain ⟨_, -, rfl⟩ := onMember_map_eq_ok he
      rfl

theorem kinds_answer (w : World) (c : ClientCall) : (w.answer c).2.kinds = w.kinds := by
  rcases answer_cases w c with ⟨failure, -, h⟩ | ⟨value, w', hperform, h⟩ <;> rw [h]
  exact kinds_perform hperform

theorem run_eq_runBy (w : World) (p : Program clientCalls α) :
    w.run p = w.runBy (fun kind => .ok (w.mapping? kind)) p := by
  induction p generalizing w with
  | done a => rfl
  | call c next ih =>
      have hanswer : w.answerBy (fun kind => .ok (w.mapping? kind)) c = w.answer c := by
        cases c <;> rfl
      have hsame : (w.answer c).2.mapping? = w.mapping? := by
        funext kind
        rw [mapping?, kinds_answer]
        rfl
      rw [runBy, hanswer, ← hsame]
      exact ih _ _

end MemberAgent.InMemory.World
