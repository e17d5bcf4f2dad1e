import MemberAgent.Proofs.Program.Calls

/-! What a program may do at all: the calls that it makes, the replies that it gets and the result
that it comes to, whatever the replies are. Any run to the end is a transcript
(`Transcript.of_against`). -/

namespace MemberAgent

/-- A call and the reply to it. -/
abbrev Exchange := (c : ClientCall) × Except Failure c.Value

namespace Program

variable {α β σ : Type}

inductive Transcript : Program clientCalls α → List Exchange → α → Prop where
  | done (a : α) : Transcript (.done a) [] a
  | call {c : ClientCall} {next : Except Failure c.Value → Program clientCalls α}
      (reply : Except Failure c.Value) {log : List Exchange} {a : α}
      (h : Transcript (next reply) log a) : Transcript (.call c next) (⟨c, reply⟩ :: log) a

namespace Transcript

variable {log : List Exchange} {a : α} {b : β}

@[simp] theorem done_iff {a' : α} :
    Transcript (.done a' : Program clientCalls α) log a ↔ log = [] ∧ a = a' := by
  constructor
  · rintro ⟨⟩
    exact ⟨rfl, rfl⟩
  · rintro ⟨rfl, rfl⟩
    exact .done a

theorem call_iff {c : ClientCall} {next : Except Failure c.Value → Program clientCalls α} :
    Transcript (.call c next) log a ↔
      ∃ reply rest, log = ⟨c, reply⟩ :: rest ∧ Transcript (next reply) rest a := by
  constructor
  · intro h
    cases h with
    | call reply h => exact ⟨reply, _, rfl, h⟩
  · rintro ⟨reply, rest, rfl, h⟩
    exact .call reply h

/-- A transcript of a program and its sequel is one of each, one after the other. -/
theorem bind_iff {p : Program clientCalls α} {f : α → Program clientCalls β} :
    Transcript (p >>= f) log b ↔
      ∃ a first rest, Transcript p first a ∧ Transcript (f a) rest b ∧ log = first ++ rest := by
  induction p generalizing log with
  | done a =>
      constructor
      · intro h
        exact ⟨a, [], log, .done a, h, rfl⟩
      · rintro ⟨a', first, rest, hfirst, hrest, rfl⟩
        obtain ⟨rfl, rfl⟩ := done_iff.1 hfirst
        exact hrest
  | call c next ih =>
      rw [bind_call, call_iff]
      constructor
      · rintro ⟨reply, tail, rfl, h⟩
        obtain ⟨a, first, rest, hfirst, hrest, rfl⟩ := (ih reply).1 h
        exact ⟨a, ⟨c, reply⟩ :: first, rest, .call reply hfirst, hrest, rfl⟩
      · rintro ⟨a, first, rest, hfirst, hrest, rfl⟩
        obtain ⟨reply, tail, rfl, hnext⟩ := call_iff.1 hfirst
        exact ⟨reply, tail ++ rest, rfl, (ih reply).2 ⟨a, tail, rest, hnext, hrest, rfl⟩⟩

/-- Any run to the end is a transcript. -/
theorem of_against {reply : σ → (c : ClientCall) → Option (Except Failure c.Value) × σ}
    {p : Program clientCalls α} {s s' : σ}
    (hrun : against (I := clientCalls) reply s p = (some a, s')) : ∃ log, Transcript p log a := by
  induction p generalizing s with
  | done =>
      cases hrun
      exact ⟨[], .done a⟩
  | call c next ih =>
      rw [against_call] at hrun
      rcases hr : reply s c with ⟨_ | r, t⟩ <;> rw [hr] at hrun
      · cases hrun
      · obtain ⟨log, h⟩ := ih r hrun
        exact ⟨⟨c, r⟩ :: log, .call r h⟩

theorem mem_of_onlyCalls {allowed : ClientCall → Prop} {p : Program clientCalls α}
    (hp : p.OnlyCalls (I := clientCalls) allowed) (h : Transcript p log a) :
    ∀ e ∈ log, allowed e.1 := by
  induction h with
  | done => rintro e ⟨⟩
  | call reply _ ih =>
      intro e he
      rcases List.mem_cons.1 he with rfl | he
      · exact hp.1
      · exact ih (hp.2 reply) e he

end Transcript

end Program

namespace Reconcile

variable {α β : Type} {log : List Exchange}

def Transcript (r : Reconcile α) (log : List Exchange) (result : Except Failure α) : Prop :=
  Program.Transcript r.run log result

namespace Transcript

theorem pure_iff {a : α} {result : Except Failure α} :
    Transcript (pure a) log result ↔ log = [] ∧ result = .ok a :=
  Program.Transcript.done_iff

theorem throw_iff {e : Failure} {result : Except Failure α} :
    Transcript (throw e) log result ↔ log = [] ∧ result = .error e :=
  Program.Transcript.done_iff

theorem request_iff {c : ClientCall} {result : Except Failure c.Value} :
    Transcript (request c) log result ↔ log = [⟨c, result⟩] := by
  refine Program.Transcript.call_iff.trans ?_
  constructor
  · rintro ⟨reply, rest, rfl, h⟩
    obtain ⟨rfl, rfl⟩ := Program.Transcript.done_iff.1 h
    rfl
  · rintro rfl
    exact ⟨result, [], rfl, .done result⟩

/-- A failure is passed on, and nothing more is called. -/
theorem bind_iff {x : Reconcile α} {f : α → Reconcile β} {result : Except Failure β} :
    Transcript (x >>= f) log result ↔
      (∃ e, Transcript x log (.error e) ∧ result = .error e) ∨
        ∃ a first rest, Transcript x first (.ok a) ∧ Transcript (f a) rest result ∧
          log = first ++ rest := by
  refine Program.Transcript.bind_iff.trans ?_
  constructor
  · rintro ⟨_ | a, first, rest, hfirst, hrest, rfl⟩
    · obtain ⟨rfl, rfl⟩ := Program.Transcript.done_iff.1 hrest
      rw [List.append_nil]
      exact Or.inl ⟨_, hfirst, rfl⟩
    · exact Or.inr ⟨a, first, rest, hfirst, hrest, rfl⟩
  · rintro (⟨e, h, rfl⟩ | ⟨a, first, rest, hfirst, hrest, rfl⟩)
    · exact ⟨.error e, log, [], h, .done _, (List.append_nil log).symm⟩
    · exact ⟨.ok a, first, rest, hfirst, hrest, rfl⟩

theorem lift_iff {p : Program clientCalls α} {result : Except Failure α} :
    Transcript (ExceptT.lift p) log result ↔ ∃ a, p.Transcript log a ∧ result = .ok a := by
  refine Program.Transcript.bind_iff.trans ?_
  constructor
  · rintro ⟨a, first, rest, hfirst, hrest, rfl⟩
    obtain ⟨rfl, rfl⟩ := Program.Transcript.done_iff.1 hrest
    rw [List.append_nil]
    exact ⟨a, hfirst, rfl⟩
  · rintro ⟨a, h, rfl⟩
    exact ⟨a, log, [], h, .done _, (List.append_nil log).symm⟩

end Transcript

end Reconcile

end MemberAgent
