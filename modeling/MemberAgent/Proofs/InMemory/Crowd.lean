import Mathlib.Logic.Function.Basic
import Mathlib.Logic.Relation
import MemberAgent.Proofs.InMemory.Interleaved

/-! Any number of programs under way in one world, which they move call by call. What each of them does
beside others is worked out on its own (`Beside`), so the number of programs does not matter. -/

namespace MemberAgent.InMemory

open Relation World

/-- A world and what is left of each program. -/
structure Crowd (ι α : Type) where
  world : World
  left : ι → Program clientCalls α

namespace Crowd

variable {ι α : Type} [DecidableEq ι]

/-- One of the programs makes its next call, which meets a possible fate. -/
inductive Step (possible : Fate → Prop) : Crowd ι α → Crowd ι α → Prop where
  | call {w : World} {left : ι → Program clientCalls α} {i : ι} {c : ClientCall}
      {next : Except Failure c.Value → Program clientCalls α} (hnext : left i = .call c next)
      (fate : Fate) (hfate : possible fate) :
      Step possible ⟨w, left⟩
        ⟨(w.meet fate c).2, Function.update left i (next (w.meet fate c).1)⟩

variable {possible : Fate → Prop} {s s' : Crowd ι α}

/-- While the others wait, a program runs as it does alone. -/
theorem steps_run (hanswered : possible .answered) (w : World) (left : ι → Program clientCalls α)
    (i : ι) (p : Program clientCalls α) :
    ReflTransGen (Step possible) ⟨w, Function.update left i p⟩
      ⟨(w.run p).2, Function.update left i (.done (w.run p).1)⟩ := by
  induction p generalizing w with
  | done a => exact .refl
  | call c next ih =>
      have hstep : Step possible ⟨w, Function.update left i (.call c next)⟩ _ :=
        .call (Function.update_self ..) .answered hanswered
      rw [Function.update_idem] at hstep
      exact .head hstep (ih _ _)

/-- Calls that all programs are confined to keep what each of these calls keeps, and the programs stay
confined to them. -/
theorem Step.keeps {allowed : ClientCall → Prop} {kept : World → Prop}
    (hkeeps : ∀ w fate c, possible fate → allowed c → kept w → kept (w.meet fate c).2)
    (h : Step possible s s') (hw : kept s.world)
    (hleft : ∀ i, (s.left i).OnlyCalls (I := clientCalls) allowed) :
    kept s'.world ∧ ∀ i, (s'.left i).OnlyCalls (I := clientCalls) allowed := by
  cases h with
  | @call w left i c next hnext fate hfate =>
      have hcall := hleft i
      change (left i).OnlyCalls (I := clientCalls) allowed at hcall
      rw [hnext] at hcall
      refine ⟨hkeeps w fate c hfate hcall.1 hw, ?_⟩
      exact (Function.forall_update_iff left fun _ p => p.OnlyCalls (I := clientCalls) allowed).2
        ⟨hcall.2 _, fun j _ => hleft j⟩

variable {may : World → World → Prop} [IsPreorder World may] {post : ι → α → World → Prop}

/-- A call of one program is a move that the others allow for. -/
theorem Step.beside (h : Step (fun fate => fate = .answered) s s')
    (hleft : ∀ i, Beside may s.world (s.left i) (post i)) :
    may s.world s'.world ∧ ∀ i, Beside may s'.world (s'.left i) (post i) := by
  cases h with
  | @call w left i c next hnext fate hfate =>
      subst hfate
      have hcall := hleft i
      change Beside may w (left i) (post i) at hcall
      rw [hnext] at hcall
      obtain ⟨hmoved, hrest⟩ := hcall w (refl_of may w)
      exact ⟨hmoved, (Function.forall_update_iff left fun j p => Beside may _ p (post j)).2
        ⟨hrest, fun j _ => (hleft j).later hmoved⟩⟩

/-- However the calls of the programs alternate, the world is moved no further than they may, and what
has been worked out of each program holds of what is left of it. -/
theorem beside (h : ReflTransGen (Step fun fate => fate = .answered) s s')
    (hleft : ∀ i, Beside may s.world (s.left i) (post i)) :
    may s.world s'.world ∧ ∀ i, Beside may s'.world (s'.left i) (post i) := by
  induction h with
  | refl => exact ⟨refl_of may _, hleft⟩
  | tail _ hstep ih =>
      obtain ⟨hmay, hbeside⟩ := ih
      obtain ⟨hmoved, hnext⟩ := hstep.beside hbeside
      exact ⟨trans_of may hmay hmoved, hnext⟩

/-- A program that is done has come to what was worked out of it. -/
theorem ended (h : ReflTransGen (Step fun fate => fate = .answered) s s')
    (hleft : ∀ i, Beside may s.world (s.left i) (post i)) {i : ι} {a : α}
    (hdone : s'.left i = .done a) : post i a s'.world := by
  have hended := (beside h hleft).2 i
  rw [hdone] at hended
  exact hended _ (refl_of may _)

end Crowd

end MemberAgent.InMemory
