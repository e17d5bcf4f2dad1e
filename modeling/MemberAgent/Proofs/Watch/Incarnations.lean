import MemberAgent.Proofs.Watch.Triggered

/-! Which incarnations of an object a watch notices. An object that was created again under its name is
noticed if the old one is known to be gone, or if it differs from it in what counts as a change. The
filter does not compare uids: an incarnation that takes the place of another one unseen, in a list that
has both under one name, is held to be the old one. -/

namespace MemberAgent

variable {α φ : Type} [HasMetadata α]

/-- An object from its creation to its deletion. What is created again under its name has another uid. -/
structure Incarnation where
  name : ObjectName
  uid : Option String
  deriving DecidableEq

def Incarnation.ofObject (a : α) : Incarnation := ⟨.ofObject a, (metadata a).uid⟩

namespace EventFilter

variable {f : EventFilter α} {events before : List (WatchEvent α φ)} {a b : α}

/-- An event leads to the object that it shows, if that is let through. -/
theorem ok_mem_step {e : WatchEvent α φ} :
    .ok b ∈ (f.step e).1.toList ↔ e.sighted? = some b ∧ (f.observe b).1 = true := by
  cases e with
  | init | initDone | delete | failed => simp [step, WatchEvent.sighted?]
  | initApply a | apply a =>
      show (.ok b : Except φ α) ∈
        (if (f.observe a).1 then some (.ok a) else none).toList ↔ some a = some b ∧ _
      by_cases hab : a = b
      · subst hab
        cases (f.observe a).1 <;> simp
      · cases (f.observe a).1 <;> simp [hab, Ne.symm hab]

/-- An object is led to by those sightings of it that are let through. -/
theorem ok_mem_triggers : .ok b ∈ f.triggers events ↔ ∃ before e rest, events = before ++ e :: rest ∧
    e.sighted? = some b ∧ ((f.after before).observe b).1 = true := by
  induction events generalizing f with
  | nil => simp [triggers]
  | cons e events ih =>
      show .ok b ∈ (f.step e).1.toList ++ (f.step e).2.triggers events ↔ _
      rw [List.mem_append, ih, ok_mem_step]
      constructor
      · rintro (hnow | ⟨before, e', rest, rfl, hlater⟩)
        · exact ⟨[], e, events, rfl, hnow⟩
        · exact ⟨e :: before, e', rest, rfl, hlater⟩
      · rintro ⟨_ | ⟨first, before⟩, e', rest, hsplit, hshown⟩ <;> cases hsplit
        · exact Or.inl hshown
        · exact Or.inr ⟨before, e', rest, rfl, hshown⟩

/-- Whether a sighting is held to be of an object that is remembered: one that stands under its name, and
from which it does not differ in what counts. -/
def Hidden (before : List (WatchEvent α φ)) (a : α) : Prop :=
  ∃ old, Standing before (.ofObject a) old ∧ Unchanged old a

theorem observe_after_iff : ((watching.after before).observe a).1 = true ↔ ¬Hidden before a := by
  have htells : Tells (watching.after before) before := .after .generationChanged before
  have hpredicate := (follows_empty.after before).predicate
  rw [observe_fst_eq hpredicate]
  simp [Option.all_eq_true, ← htells.seen, Hidden]

theorem ok_mem_of_lastTriggered {name : ObjectName} {output : List (Except φ α)}
    (h : lastTriggered name output = some a) : .ok a ∈ output ∧ ObjectName.ofObject a = name := by
  obtain ⟨trigger, hmem, hfound⟩ := List.exists_of_findSome?_eq_some h
  cases trigger with
  | error => cases hfound
  | ok b =>
      obtain ⟨hname, he⟩ := Option.ite_none_right_eq_some.1 hfound
      cases he
      exact ⟨List.mem_reverse.1 hmem, hname⟩

/-- Whether an incarnation led to a reconcile. -/
def Notices (events : List (WatchEvent α φ)) (i : Incarnation) : Prop :=
  ∃ b, .ok b ∈ watching.triggers events ∧ Incarnation.ofObject b = i

theorem notices_iff (i : Incarnation) : Notices events i ↔ ∃ before e rest a,
    events = before ++ e :: rest ∧ e.sighted? = some a ∧ Incarnation.ofObject a = i ∧
      ¬Hidden before a := by
  constructor
  · rintro ⟨a, hmem, hi⟩
    obtain ⟨before, e, rest, hsplit, hshown, htriggered⟩ := ok_mem_triggers.1 hmem
    exact ⟨before, e, rest, a, hsplit, hshown, hi, observe_after_iff.1 htriggered⟩
  · rintro ⟨before, e, rest, a, hsplit, hshown, hi, hnew⟩
    exact ⟨a, ok_mem_triggers.2 ⟨before, e, rest, hsplit, hshown, observe_after_iff.2 hnew⟩, hi⟩

/-- An incarnation in whose place another one has been taken: of the same name, of another uid, and with
nothing that counts as a change between them. -/
structure Twin (before : List (WatchEvent α φ)) (a twin : α) : Prop where
  noticed : .ok twin ∈ watching.triggers before
  name : ObjectName.ofObject twin = .ofObject a
  uid : (metadata twin).uid ≠ (metadata a).uid
  unchanged : Unchanged twin a

/-- What is hidden is hidden by the last trigger of its name; where that is no twin of it, it is the
incarnation itself. -/
theorem Hidden.notices_or_twin (h : Hidden before a) :
    Notices before (.ofObject a) ∨ ∃ twin, Twin before a twin := by
  obtain ⟨old, hold, hsame⟩ := h
  have hseen := ((Tells.after .generationChanged before).seen _ _).2 hold
  obtain ⟨twin, hlast, hunchanged⟩ := unchanged_lastTriggered hseen
  obtain ⟨hnoticed, hname⟩ := ok_mem_of_lastTriggered hlast
  by_cases huid : (metadata twin).uid = (metadata a).uid
  · have hself : Incarnation.ofObject twin = .ofObject a := by
      rw [Incarnation.ofObject, Incarnation.ofObject, hname, huid]
    exact Or.inl ⟨twin, hnoticed, hself⟩
  · exact Or.inr ⟨twin, hnoticed, hname, huid, hunchanged.trans hsame⟩

theorem Notices.append {i : Incarnation} (h : Notices before i) (more : List (WatchEvent α φ)) :
    Notices (before ++ more) i := by
  obtain ⟨b, hmem, hi⟩ := h
  refine ⟨b, ?_, hi⟩
  rw [triggers_append]
  exact List.mem_append_left _ hmem

/-- An incarnation is noticed exactly if one of its sightings is not hidden: if nothing stands under its
name then, or what stands there differs from it in generation, deletion mark or finalizers. So an
incarnation that was shown is only missed if the watch led to a twin of it before. -/
theorem noticed_unless_hidden (events : List (WatchEvent α φ)) :
    (∀ i, Notices events i ↔ ∃ before e rest a, events = before ++ e :: rest ∧
      e.sighted? = some a ∧ Incarnation.ofObject a = i ∧ ¬Hidden before a) ∧
      ∀ before e rest a, events = before ++ e :: rest → e.sighted? = some a →
        Notices events (.ofObject a) ∨ ∃ twin, Twin before a twin := by
  refine ⟨notices_iff, ?_⟩
  rintro before e rest a rfl ha
  by_cases hhidden : Hidden before a
  · exact hhidden.notices_or_twin.imp_left fun h => h.append (e :: rest)
  · exact Or.inl ((notices_iff _).2 ⟨before, e, rest, a, rfl, ha, rfl, hhidden⟩)

end EventFilter

/-! ### A Work that is created again while nobody watches -/

namespace Replaced

open EventFilter

def work (name uid : String) : Work where
  metadata := {
    name := some name
    «namespace» := some "cluster1"
    uid := some uid
    generation := some 1 }

def incarnation (name uid : String) : Incarnation := ⟨⟨name, some "cluster1"⟩, some uid⟩

/-- The list after the gap has no `b`, which is created again later. -/
def afterList : List (WatchEvent Work) :=
  [.init, .initApply (work "a" "a-1"), .initApply (work "b" "b-1"), .initDone,
    .init, .initApply (work "a" "a-1"), .initDone, .apply (work "b" "b-2")]

/-- The list after the gap has the new `b` already. -/
def inList : List (WatchEvent Work) :=
  [.init, .initApply (work "b" "b-1"), .initDone, .init, .initApply (work "b" "b-2"), .initDone]

theorem not_notices_inList : ¬Notices inList (incarnation "b" "b-2") := by
  rintro ⟨b, hmem, hb⟩
  have honly : watching.triggers inList = [.ok (work "b" "b-1")] := rfl
  rw [honly, List.mem_singleton] at hmem
  cases hmem
  revert hb
  decide

/-- In the first case it is noticed; in the second one it is not, because of its twin. -/
theorem noticed_after_list : Notices afterList (incarnation "b" "b-2") ∧
    ∃ twin, Twin (inList.take 4) (work "b" "b-2") twin := by
  have hnew : ¬Hidden (afterList.take 7) (work "b" "b-2") := by
    rintro ⟨old, hold, -⟩
    have hseen : some old = none := ((Tells.after .generationChanged _).seen _ _).2 hold |>.symm
    cases hseen
  constructor
  · exact ((noticed_unless_hidden afterList).1 _).2 ⟨afterList.take 7, _, [], _, rfl, rfl, rfl, hnew⟩
  · exact ((noticed_unless_hidden inList).2 (inList.take 4) _ _ _ rfl rfl).resolve_left
      not_notices_inList

/-- Not every incarnation that is shown is noticed. -/
theorem unnoticed_in_list : ¬∀ (events : List (WatchEvent Work)) (e : WatchEvent Work) (a : Work),
    e ∈ events → e.sighted? = some a → Notices events (.ofObject a) := by
  intro hclaim
  have hshown : WatchEvent.initApply (work "b" "b-2") ∈ inList := by simp [inList]
  exact not_notices_inList (hclaim inList _ _ hshown rfl)

end Replaced

end MemberAgent
