import MemberAgent.Proofs.InMemory.Fate
import MemberAgent.Proofs.InMemory.Lookups
import MemberAgent.Proofs.Program.Calls

/-! What programs come to, whatever becomes of their calls: rules for programs, one for each way to
put them together. The same rules without disturbance are equations (`run_bind`). -/

namespace MemberAgent.InMemory

namespace World

variable {α β : Type} {possible : Fate → Prop} {w : World}

/-- Every run whose calls meet possible fates ends, with its result or cut off, in a world as the
condition says. -/
def Reaches (possible : Fate → Prop) (w : World) (p : Program clientCalls α)
    (post : Option α → World → Prop) : Prop :=
  ∀ fates, (∀ fate ∈ fates, possible fate) →
    post (w.attempt fates p).1 (w.attempt fates p).2.1

/-- The fates that a run leaves are among those that it had. -/
theorem mem_of_mem_attempt {p : Program clientCalls α} {fates : List Fate} {fate : Fate}
    (h : fate ∈ (w.attempt fates p).2.2) : fate ∈ fates := by
  induction p generalizing w fates with
  | done a => exact h
  | call c next ih =>
      cases fates with
      | nil => exact h
      | cons first rest => exact List.mem_cons_of_mem _ (ih _ h)

namespace Reaches

variable {post post' : Option α → World → Prop}

theorem mono {p : Program clientCalls α} (hp : Reaches possible w p post)
    (hpost : ∀ result w', post result w' → post' result w') : Reaches possible w p post' :=
  fun fates hfates => hpost _ _ (hp fates hfates)

theorem and {p : Program clientCalls α} (hp : Reaches possible w p post)
    (hp' : Reaches possible w p post') :
    Reaches possible w p fun result w' => post result w' ∧ post' result w' :=
  fun fates hfates => ⟨hp fates hfates, hp' fates hfates⟩

theorem done {a : α} (h : post (some a) w) : Reaches possible w (.done a) post := fun _ _ => h

/-- A run of two programs is cut off in the first, or it goes on from where the first ends. -/
theorem bind {p : Program clientCalls α} {f : α → Program clientCalls β}
    {goal : Option β → World → Prop} (hp : Reaches possible w p post)
    (hcut : ∀ w', post none w' → goal none w')
    (hnext : ∀ a w', post (some a) w' → Reaches possible w' (f a) goal) :
    Reaches possible w (p >>= f) goal := by
  intro fates hfates
  have hfirst := hp fates hfates
  have hrest : ∀ fate ∈ (w.attempt fates p).2.2, possible fate := by
    intro fate hfate
    exact hfates fate (mem_of_mem_attempt hfate)
  have hbind : w.attempt fates (p >>= f) =
      Program.resume (fun a s => attempt s.1 s.2 (f a)) (w.attempt fates p) :=
    Program.against_bind (w, fates) p f
  rw [hbind]
  rcases hrun : w.attempt fates p with ⟨_ | a, w', rest⟩ <;> rw [hrun] at hfirst hrest
  · exact hcut w' hfirst
  · exact hnext a w' hfirst rest hrest

/-- What every call that the program may come to keeps is kept. -/
theorem of_onlyCalls {allowed : ClientCall → Prop} {kept : World → Prop}
    (hstep : ∀ w fate c, possible fate → allowed c → kept w → kept (w.meet fate c).2)
    {p : Program clientCalls α} (hp : p.OnlyCalls (I := clientCalls) allowed) (hw : kept w) :
    Reaches possible w p fun _ w' => kept w' := by
  intro fates hfates
  induction p generalizing w fates with
  | done a => exact hw
  | call c next ih =>
      cases fates with
      | nil => exact hw
      | cons fate rest =>
          have hkept := hstep w fate c (hfates fate List.mem_cons_self) hp.1 hw
          exact ih _ (hp.2 _) hkept rest fun f hf => hfates f (List.mem_cons_of_mem _ hf)

theorem call {c : ClientCall} {next : Except Failure c.Value → Program clientCalls α}
    (hcut : post none w) (hmet : ∀ fate, possible fate →
      Reaches possible (w.meet fate c).2 (next (w.meet fate c).1) post) :
    Reaches possible w (.call c next) post := by
  intro fates hfates
  cases fates with
  | nil => exact hcut
  | cons fate rest =>
      exact hmet fate (hfates fate List.mem_cons_self) rest fun f hf =>
        hfates f (List.mem_cons_of_mem _ hf)

/-! Programs that may fail: -/

theorem request {c : ClientCall} {post : Option (Except Failure c.Value) → World → Prop}
    (hcut : post none w)
    (hmet : ∀ fate, possible fate → post (some (w.meet fate c).1) (w.meet fate c).2) :
    Reaches possible w (MemberAgent.request c).run post := by
  intro fates hfates
  cases fates with
  | nil => exact hcut
  | cons fate rest => exact hmet fate (hfates fate List.mem_cons_self)

theorem andThen {x : Reconcile α} {f : α → Reconcile β}
    {post : Option (Except Failure α) → World → Prop}
    {goal : Option (Except Failure β) → World → Prop} (hx : Reaches possible w x.run post)
    (hcut : ∀ w', post none w' → goal none w')
    (hfails : ∀ failure w', post (some (.error failure)) w' → goal (some (.error failure)) w')
    (hnext : ∀ a w', post (some (.ok a)) w' → Reaches possible w' (f a).run goal) :
    Reaches possible w (x >>= f).run goal := by
  refine bind hx hcut fun result w' hresult => ?_
  cases result with
  | error failure => exact done (hfails failure w' hresult)
  | ok a => exact hnext a w' hresult

/-- An undisturbed run is one of the runs. -/
theorem run {p : Program clientCalls α} (hp : Reaches possible w p post)
    (hanswered : possible .answered) : post (some (w.run p).1) (w.run p).2 := by
  obtain ⟨n, hn⟩ := exists_attempt_eq_run w p
  have h := hp (List.replicate n .answered) fun fate hfate => by
    rw [List.eq_of_mem_replicate hfate]
    exact hanswered
  rw [hn] at h
  exact h

end Reaches

/-! ### Programs that may fail -/

/-- However the program ends, or is cut off, the one condition holds; and if it succeeds, the other one
holds with its value. -/
def Ends (possible : Fate → Prop) (w : World) (x : Reconcile α) (always : World → Prop)
    (success : α → World → Prop) : Prop :=
  Reaches possible w x.run fun result w' =>
    always w' ∧ ∀ a, result = some (.ok a) → success a w'

namespace Ends

variable {always always' : World → Prop} {success success' : α → World → Prop}

theorem mono {x : Reconcile α} (hx : Ends possible w x always success)
    (halways : ∀ w', always w' → always' w')
    (hsuccess : ∀ a w', always w' → success a w' → success' a w') :
    Ends possible w x always' success' :=
  Reaches.mono hx fun _ w' h => ⟨halways w' h.1, fun a he => hsuccess a w' h.1 (h.2 a he)⟩

theorem pure {a : α} (halways : always w) (hsuccess : success a w) :
    Ends possible w (Pure.pure a) always success := by
  refine Reaches.done ⟨halways, fun a' he => ?_⟩
  cases he
  exact hsuccess

theorem throw {failure : Failure} (halways : always w) :
    Ends possible w (MonadExcept.throw failure) always success :=
  Reaches.done ⟨halways, fun _ he => by cases he⟩

/-- A run of two parts ends in the first one, or the second one goes on from where that succeeds. -/
theorem andThen {x : Reconcile α} {f : α → Reconcile β} {goal : World → Prop}
    {goalSuccess : β → World → Prop} (hx : Ends possible w x always success)
    (hgoal : ∀ w', always w' → goal w')
    (hnext : ∀ a w', always w' → success a w' → Ends possible w' (f a) goal goalSuccess) :
    Ends possible w (x >>= f) goal goalSuccess := by
  refine Reaches.andThen hx (fun w' h => ⟨hgoal w' h.1, fun _ he => by cases he⟩)
    (fun _ w' h => ⟨hgoal w' h.1, fun _ he => by cases he⟩) fun a w' h => ?_
  exact hnext a w' h.1 (h.2 a rfl)

theorem lift {p : Program clientCalls α} (hp : Reaches possible w p fun result w' =>
    always w' ∧ ∀ a, result = some a → success a w') :
    Ends possible w (ExceptT.lift p : Reconcile α) always success := by
  refine Reaches.bind hp (fun w' h => ⟨h.1, fun _ he => by cases he⟩) fun a w' h => ?_
  exact pure h.1 (h.2 a rfl)

/-- A call whose answer is an effect has it or has it not, and it has it if it succeeds. -/
theorem request_of_answer {c : ClientCall} {value : c.Value} {w' : World}
    (hanswer : w.answer c = (.ok value, w')) : Ends possible w (request c)
      (fun v => v = w ∨ v = w') fun reply v => reply = value ∧ v = w' := by
  refine Reaches.request ⟨Or.inl rfl, fun _ he => by cases he⟩ fun fate _ => ⟨?_, fun reply he => ?_⟩
  · rcases meet_world w fate c with h | h
    · exact Or.inl h
    · rw [hanswer] at h
      exact Or.inr h
  · have hreply : (w.meet fate c).1 = .ok reply := Option.some.inj he
    have hmet : w.meet fate c = (.ok value, w') := (meet_ok hreply).trans hanswer
    rw [hmet] at hreply ⊢
    exact ⟨(Except.ok.inj hreply).symm, rfl⟩

/-- A call that only reads changes nothing. -/
theorem request_read {c : ClientCall} {value : c.Value} (hanswer : w.answer c = (.ok value, w)) :
    Ends possible w (request c) (fun v => v = w) fun reply _ => reply = value :=
  (request_of_answer hanswer).mono (fun _ h => or_self_iff.1 h) fun _ _ _ h => h.1

/-- A call whose answer is a failure never succeeds. -/
theorem request_of_error {c : ClientCall} {failure : Failure}
    (hanswer : w.answer c = (.error failure, w)) :
    Ends possible w (request c) (fun v => v = w) fun _ _ => False := by
  refine Reaches.request ⟨rfl, fun _ he => by cases he⟩ fun fate _ => ⟨?_, fun reply he => ?_⟩
  · rcases meet_world w fate c with h | h
    · exact h
    · rw [h, hanswer]
  · have hreply : (w.meet fate c).1 = .ok reply := Option.some.inj he
    rw [meet_ok hreply, hanswer] at hreply
    cases hreply

/-- A call that has an effect when it is performed has it or has it not, and it has it if it
succeeds. -/
theorem request_of_perform {c : ClientCall} {effect : World → Prop}
    (heffect : ∀ value w', w.perform c = .ok (value, w') → effect w') : Ends possible w (request c)
      (fun v => v = w ∨ effect v) fun _ v => effect v := by
  rcases answer_cases w c with ⟨failure, -, hanswer⟩ | ⟨value, w', hperform, hanswer⟩
  · exact (request_of_error hanswer).mono (fun _ => Or.inl) fun _ _ _ hnever => hnever.elim
  · have hw' := heffect value w' hperform
    refine (request_of_answer hanswer).mono (fun v h => h.imp_right fun e => ?_) fun _ v _ h => ?_
    · rw [e]
      exact hw'
    · rw [h.2]
      exact hw'

end Ends

/-! ### Undisturbed runs -/

theorem run_bind (w : World) (p : Program clientCalls α) (f : α → Program clientCalls β) :
    w.run (p >>= f) = (w.run p).2.run (f (w.run p).1) := by
  induction p generalizing w with
  | done a => rfl
  | call c next ih => exact ih _ _

/-- A run that may fail, when its first part succeeds. -/
theorem run_andThen {w' : World} {x : Reconcile α} {a : α} (hx : w.run x.run = (.ok a, w'))
    (f : α → Reconcile β) : w.run (x >>= f).run = w'.run (f a).run := by
  show w.run (x.run >>= _) = _
  rw [run_bind, hx]
  rfl

theorem run_andThen_error {w' : World} {x : Reconcile α} {failure : Failure}
    (hx : w.run x.run = (.error failure, w')) (f : α → Reconcile β) :
    w.run (x >>= f).run = (.error failure, w') := by
  show w.run (x.run >>= _) = _
  rw [run_bind, hx]
  rfl

theorem run_lift (w : World) (p : Program clientCalls α) :
    w.run (ExceptT.lift p : Reconcile α).run = (.ok (w.run p).1, (w.run p).2) := by
  show w.run (p >>= fun a => .done (Except.ok a)) = _
  rw [run_bind]
  rfl

theorem run_request_andThen {w w' : World} {c : ClientCall} {value : c.Value}
    (hanswer : w.answer c = (.ok value, w')) (f : c.Value → Reconcile β) :
    w.run (request c >>= f).run = w'.run (f value).run :=
  run_andThen (x := request c) hanswer f

end World

end MemberAgent.InMemory
