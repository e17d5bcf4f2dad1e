import MemberAgent.Proofs.Discovery.Known
import MemberAgent.Proofs.Program.Calls
import MemberAgent.Http.Discovery
import MemberAgent.Http.Scripted

/-! Lookups over the wire. A discovery takes some replies of the server and leaves the known table alone,
so what it comes to depends on the number of discoveries before it and on nothing else: the wire does
what the mapper does, and so what is proved of a mapper, for any outcomes of its discoveries, holds of the
program that runs. `findMapping_after` carries the answers over, and `exists_discoveries_after` the table
that is known and the requests that were sent. -/

namespace MemberAgent.Http

open Program Discovery

variable {α β : Type}

/-! ### Discoveries only send -/

def Sends : WireCall → Prop
  | .send .. => True
  | _ => False

namespace Exchange

def OnlySends (x : Exchange α) : Prop := OnlyCalls (I := wire) Sends x.run

theorem OnlySends.bind {x : Exchange α} {f : α → Exchange β} (hx : x.OnlySends)
    (hf : ∀ a, (f a).OnlySends) : OnlySends (x >>= f) := by
  apply OnlyCalls.bind hx
  rintro (fault | a)
  · trivial
  · exact hf a

theorem OnlySends.mapM {f : α → Exchange β} (hf : ∀ a, (f a).OnlySends) (l : List α) :
    OnlySends (l.mapM f) := by
  induction l with
  | nil => trivial
  | cons a rest ih =>
      rw [List.mapM_cons]
      exact (hf a).bind fun b => ih.bind fun bs => trivial

end Exchange

open Exchange

theorem onlySends_of_except (result : Except ClientFault α) :
    OnlySends (liftM result : Exchange α) := by
  cases result <;> trivial

theorem ask_onlySends (cluster : Cluster) (request : Prepared) (read : Json → Json.Reading α) :
    OnlySends (ask cluster request read) := by
  refine OnlySends.bind ?_ fun body => onlySends_of_except _
  cases request with
  | error fault => trivial
  | ok request => exact ⟨trivial, fun reply => trivial⟩

theorem fetchListing_onlySends (root : String) (v : GroupVersion) : OnlySends (fetchListing root v) :=
  OnlySends.bind (ask_onlySends ..) fun _ => trivial

theorem fetchGroup_onlySends (root : String) (g : Group) : OnlySends (fetchGroup root g) := by
  unfold fetchGroup
  split
  · trivial
  · exact OnlySends.bind (.mapM (fetchListing_onlySends root) g.versions) fun _ => trivial

theorem fetchKinds_onlySends : OnlySends fetchKinds := by
  refine OnlySends.bind (ask_onlySends ..) fun groups => ?_
  refine OnlySends.bind (.mapM (fetchGroup_onlySends _) groups) fun groups => ?_
  refine OnlySends.bind (ask_onlySends ..) fun versions => ?_
  exact OnlySends.bind (fetchGroup_onlySends _ _) fun core => trivial

/-! ### The server as a mapper -/

namespace Scripted

theorem run_bind (s : Scripted) (p : Program wire α) (f : α → Program wire β) :
    s.run (p >>= f) = (s.run p).2.run (f (s.run p).1) := by
  induction p generalizing s with
  | done a => rfl
  | call c next ih => exact ih (s.answer c).1 (s.answer c).2

/-- What only sends neither reads nor changes the known table. -/
theorem run_withKinds {p : Program wire α} (hp : p.OnlyCalls (I := wire) Sends) (s : Scripted)
    (known : Option KindTable) : ({ s with kinds := known } : Scripted).run p =
      ((s.run p).1, { (s.run p).2 with kinds := known }) := by
  induction p generalizing s with
  | done a => rfl
  | call c next ih =>
      obtain ⟨hc, hnext⟩ := hp
      cases c with
      | send cluster request =>
          exact ih _ (hnext _) (s.answer (.send cluster request)).2
      | known | remember table => cases hc

/-- The server after a number of discoveries. -/
def discoveries (s : Scripted) : Nat → Scripted
  | 0 => s
  | n + 1 => ((s.discoveries n).run fetchKinds.run).2

/-- What each discovery comes to. -/
def outcome (s : Scripted) (n : Nat) : Discovered := ((s.discoveries n).run fetchKinds.run).1

/-- The server when a mapper has made its discoveries. -/
def behind (s : Scripted) (m : Mapper) : Scripted :=
  { s.discoveries m.discovered.length with kinds := m.known }

theorem answerLookup_behind (s : Scripted) (m : Mapper) (c : LookupCall) :
    (s.behind m).run (answerLookup c) =
      ((m.answer s.outcome c).1, s.behind (m.answer s.outcome c).2) := by
  cases c with
  | known | remember table => rfl
  | discover =>
      refine (run_withKinds fetchKinds_onlySends _ _).trans ?_
      simp only [Mapper.answer, Mapper.next, behind, outcome, List.length_append,
        List.length_singleton, discoveries]

theorem interpret_behind (s : Scripted) (m : Mapper) (p : Program lookupCalls α) :
    (s.behind m).run (p.interpret answerLookup) =
      ((m.run s.outcome p).1, s.behind (m.run s.outcome p).2) := by
  induction p generalizing m with
  | done a => rfl
  | call c next ih =>
      refine (run_bind _ (answerLookup c) _).trans ?_
      rw [answerLookup_behind]
      exact ih _ _

/-- The server after lookups one after the other. -/
def after (s : Scripted) (kinds : List Kind) : Scripted :=
  kinds.foldl (fun s kind => (s.run (findMapping kind)).2) s

theorem after_behind (replies : List Reply) (kinds : List Kind) :
    after { replies } kinds = behind { replies } (Mapper.after (outcome { replies }) kinds) := by
  induction kinds using List.reverseRecOn with
  | nil => rfl
  | append_singleton kinds kind ih =>
      rw [after, List.foldl_append, Mapper.after_concat]
      change ((after { replies } kinds).run (findMapping kind)).2 = _
      rw [ih]
      exact congrArg Prod.snd (interpret_behind _ _ (lookup kind))

/-- Lookups one after the other are answered as by a mapper whose discoveries come to the same. -/
theorem findMapping_after (replies : List Reply) (kinds : List Kind) (kind : Kind) :
    ((after { replies } kinds).run (findMapping kind)).1 =
      ((Mapper.after (outcome { replies }) kinds).lookup (outcome { replies }) kind).1 := by
  rw [after_behind]
  exact congrArg Prod.fst (interpret_behind _ _ (lookup kind))

/-- After any number of lookups a server has answered some discoveries and nothing else, and the table
that is known is that of the last one of them that succeeded. -/
theorem exists_discoveries_after (replies : List Reply) (kinds : List Kind) :
    ∃ n, after { replies } kinds = { discoveries { replies } n with
      kinds := lastTable ((List.range n).map (outcome { replies })) } := by
  obtain ⟨hknown, hdiscovered⟩ := Mapper.current_after (outcome { replies }) kinds
  refine ⟨(Mapper.after (outcome { replies }) kinds).discovered.length, ?_⟩
  rw [after_behind, behind, hknown, ← hdiscovered]

end Scripted

end MemberAgent.Http
