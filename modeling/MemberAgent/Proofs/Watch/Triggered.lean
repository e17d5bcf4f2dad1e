import MemberAgent.Proofs.Watch.Remembered
import Mathlib.Logic.Function.Basic

/-! A watch that is filtered by generation loses no change. The filter remembers each object as it was
last seen, also those that it let pass without a reconcile; what it decides is the same as if it had kept
those only that led to one. The two memories hold objects that differ in nothing that is compared. -/

namespace MemberAgent

variable {α φ : Type} [HasMetadata α]

/-- Whether two objects are the same in all that counts as a change. -/
structure Unchanged (old new : α) : Prop where
  generation : (metadata old).generation = (metadata new).generation
  deletionTimestamp : (metadata old).deletionTimestamp = (metadata new).deletionTimestamp
  finalizers : (metadata old).finalizers = (metadata new).finalizers

namespace Unchanged

variable {a b c : α}

theorem iff_and : Unchanged a b ↔ (metadata a).generation = (metadata b).generation ∧
    (metadata a).deletionTimestamp = (metadata b).deletionTimestamp ∧
    (metadata a).finalizers = (metadata b).finalizers :=
  ⟨fun h => ⟨h.generation, h.deletionTimestamp, h.finalizers⟩, fun ⟨hg, hd, hf⟩ => ⟨hg, hd, hf⟩⟩

instance (a b : α) : Decidable (Unchanged a b) := decidable_of_iff _ iff_and.symm

theorem self (a : α) : Unchanged a a := ⟨rfl, rfl, rfl⟩

theorem trans (h : Unchanged a b) (h' : Unchanged b c) : Unchanged a c :=
  ⟨h.generation.trans h'.generation, h.deletionTimestamp.trans h'.deletionTimestamp,
    h.finalizers.trans h'.finalizers⟩

theorem symm (h : Unchanged a b) : Unchanged b a :=
  ⟨h.generation.symm, h.deletionTimestamp.symm, h.finalizers.symm⟩

theorem update_eq : EventPredicate.generationChanged.update a b = !decide (Unchanged a b) := by
  simp [EventPredicate.generationChanged, iff_and, Bool.not_and, Bool.or_assoc]

end Unchanged

/-! ### The objects that led to a reconcile -/

/-- A memory of the objects that led to a reconcile, the last one under each name, and of the names that
have been shown by a list that is being read. -/
structure TriggerMemory (α : Type) where
  last : ObjectName → Option α := fun _ => none
  listed : Option (List ObjectName) := none

namespace TriggerMemory

/-- An object leads to a reconcile unless it is unchanged since the last one under its name, and only
then it is remembered. -/
def observe (m : TriggerMemory α) (a : α) : Bool × TriggerMemory α :=
  let name := ObjectName.ofObject a
  let triggered := (m.last name).all fun old => !decide (Unchanged old a)
  (triggered,
    { last := if triggered then Function.update m.last name (some a) else m.last
      listed := m.listed.map (name :: ·) })

/-- When a list ends, what it has not shown is forgotten. -/
def endList (m : TriggerMemory α) : TriggerMemory α :=
  match m.listed with
  | none => m
  | some names => { last := fun name => if name ∈ names then m.last name else none, listed := none }

def step (m : TriggerMemory α) :
    WatchEvent α φ → Option (Except φ α) × TriggerMemory α
  | .init => (none, { m with listed := some [] })
  | .initDone => (none, m.endList)
  | .delete a => (none, { m with last := Function.update m.last (.ofObject a) none })
  | .failed fault => (some (.error fault), m)
  | .initApply a | .apply a =>
    let (triggered, m) := m.observe a
    (if triggered then some (.ok a) else none, m)

def triggers (m : TriggerMemory α) : List (WatchEvent α φ) → List (Except φ α)
  | [] => []
  | e :: rest =>
    let (trigger, m) := m.step e
    trigger.toList ++ m.triggers rest

/-- The memory as it is after these events. -/
def after (m : TriggerMemory α) (events : List (WatchEvent α φ)) : TriggerMemory α :=
  events.foldl (fun m e => (m.step e).2) m

end TriggerMemory

/-- The last object under a name that a sequence of events led to. -/
def lastTriggered (name : ObjectName) (output : List (Except φ α)) : Option α :=
  output.reverse.findSome? fun
    | .ok a => if ObjectName.ofObject a = name then some a else none
    | .error _ => none

theorem lastTriggered_append (name : ObjectName) (output more : List (Except φ α)) :
    lastTriggered name (output ++ more) =
      (lastTriggered name more).or (lastTriggered name output) := by
  rw [lastTriggered, List.reverse_append, List.findSome?_append]
  rfl

/-- What is remembered after an event led to a reconcile now or was remembered before. -/
theorem TriggerMemory.last_step {m : TriggerMemory α} {e : WatchEvent α φ} {name : ObjectName} {a : α}
    (h : (m.step e).2.last name = some a) :
    (lastTriggered name (m.step e).1.toList).or (m.last name) = some a := by
  cases e with
  | init | failed => exact h
  | initDone =>
      have hkept : m.endList.last name = some a := h
      unfold endList at hkept
      split at hkept
      · exact hkept
      · exact (Option.ite_none_right_eq_some.1 hkept).2
  | delete b =>
      have hkept : Function.update m.last (.ofObject b) none name = some a := h
      rw [Function.update_apply] at hkept
      exact (Option.ite_none_left_eq_some.1 hkept).2
  | initApply b | apply b =>
      have hkept : (if (m.observe b).1 then Function.update m.last (.ofObject b) (some b)
        else m.last) name = some a := h
      show (lastTriggered name (if (m.observe b).1 then some (.ok b) else none).toList).or _ = _
      by_cases htriggered : (m.observe b).1
      · rw [if_pos htriggered, Function.update_apply] at hkept
        rw [if_pos htriggered]
        by_cases hname : name = ObjectName.ofObject b
        · rw [if_pos hname] at hkept
          simp [lastTriggered, hname, hkept]
        · rw [if_neg hname] at hkept
          simp [lastTriggered, Ne.symm hname, hkept]
      · rw [if_neg htriggered] at hkept ⊢
        exact hkept

namespace EventFilter

/-- The filter of a watch that has seen nothing yet, for first sightings and changes. -/
def watching : EventFilter α := { predicate := .generationChanged }

/-- A filter and a memory of what led to a reconcile that decide the same: under each name both have an
object or neither has, and the two are the same in all that counts. -/
structure Follows (f : EventFilter α) (m : TriggerMemory α) : Prop where
  predicate : f.predicate = .generationChanged
  relisted : f.relisted = m.listed
  remembered : ∀ name, Option.Rel Unchanged (m.last name) (f.seen.get? name)

variable {f : EventFilter α} {m : TriggerMemory α}

/-- An object leads to a reconcile unless it is unchanged since it was remembered. -/
theorem observe_fst_eq (hpredicate : f.predicate = .generationChanged) (a : α) :
    (f.observe a).1 = (f.seen.get? (.ofObject a)).all fun old => !decide (Unchanged old a) := by
  simp only [observe, hpredicate]
  cases f.seen.get? (.ofObject a) with
  | none => rfl
  | some old => exact Unchanged.update_eq

theorem follows_empty : Follows (watching : EventFilter α) {} where
  predicate := rfl
  relisted := rfl
  remembered _ := .none

namespace Follows

/-- Both decide the same of a sighting: it is unchanged since the last trigger if it is unchanged since
the last sighting. -/
theorem observe_fst (h : Follows f m) (a : α) : (f.observe a).1 = (m.observe a).1 := by
  have hremembered := h.remembered (.ofObject a)
  rw [observe_fst_eq h.predicate]
  show _ = (m.last (.ofObject a)).all _
  generalize m.last (.ofObject a) = last, f.seen.get? (.ofObject a) = old at hremembered ⊢
  cases hremembered with
  | none => rfl
  | @some last old hsame =>
      have hiff : Unchanged old a ↔ Unchanged last a := ⟨hsame.trans, hsame.symm.trans⟩
      simp [hiff]

theorem observe (h : Follows f m) (a : α) : Follows (f.observe a).2 (m.observe a).2 where
  predicate := h.predicate
  relisted := congrArg (Option.map _) h.relisted
  remembered name := by
    have hremembered := h.remembered name
    show Option.Rel Unchanged ((if (m.observe a).1 then _ else m.last) name)
      ((f.seen.insert (.ofObject a) a).get? name)
    rw [Table.get?_insert]
    by_cases hname : ObjectName.ofObject a = name
    · subst hname
      rw [if_pos rfl]
      split
      · rw [Function.update_self]
        exact .some (.self a)
      · next htriggered =>
          -- What does not trigger is unchanged, and takes the place of what it is unchanged from.
          have hall : ¬(m.last (.ofObject a)).all fun old => !decide (Unchanged old a) := htriggered
          cases hlast : m.last (.ofObject a) with
          | none => rw [hlast] at hall; exact absurd rfl hall
          | some last =>
              rw [hlast] at hall
              exact .some (by simpa using hall)
    · rw [if_neg hname]
      split
      · rw [Function.update_of_ne (Ne.symm hname)]
        exact hremembered
      · exact hremembered

theorem forget (h : Follows f m) (a : α) :
    Follows (f.forget a) { m with last := Function.update m.last (.ofObject a) none } where
  predicate := h.predicate
  relisted := h.relisted
  remembered name := by
    show Option.Rel Unchanged (Function.update m.last (.ofObject a) none name) _
    rw [EventFilter.forget, Table.get?_erase]
    by_cases hname : ObjectName.ofObject a = name
    · subst hname
      rw [if_pos rfl, Function.update_self]
      exact .none
    · rw [if_neg hname, Function.update_of_ne (Ne.symm hname)]
      exact h.remembered name

theorem finishRelist (h : Follows f m) : Follows f.finishRelist m.endList := by
  unfold EventFilter.finishRelist TriggerMemory.endList
  rw [← h.relisted]
  cases f.relisted with
  | none => exact h
  | some names =>
      refine ⟨h.predicate, rfl, fun name => ?_⟩
      have hremembered := h.remembered name
      rw [Table.get?_filter]
      by_cases hlisted : name ∈ names
      · have hkept : (f.seen.get? name).filter (fun _ => names.contains name) = f.seen.get? name := by
          cases f.seen.get? name <;> simp [hlisted]
        rw [hkept]
        simpa [hlisted] using hremembered
      · simp [hlisted]

theorem step (h : Follows f m) (e : WatchEvent α φ) :
    (f.step e).1 = (m.step e).1 ∧ Follows (f.step e).2 (m.step e).2 := by
  cases e with
  | init => exact ⟨rfl, h.predicate, rfl, h.remembered⟩
  | initDone => exact ⟨rfl, h.finishRelist⟩
  | delete a => exact ⟨rfl, h.forget a⟩
  | failed fault => exact ⟨rfl, h⟩
  | initApply a | apply a =>
      refine ⟨?_, h.observe a⟩
      show (if (f.observe a).1 then _ else _) = if (m.observe a).1 then _ else _
      rw [h.observe_fst a]

theorem after (h : Follows f m) (events : List (WatchEvent α φ)) :
    Follows (f.after events) (m.after events) := by
  induction events generalizing f m with
  | nil => exact h
  | cons e events ih => exact ih (h.step e).2

theorem triggers_eq (h : Follows f m) (events : List (WatchEvent α φ)) :
    f.triggers events = m.triggers events := by
  induction events generalizing f m with
  | nil => rfl
  | cons e events ih =>
      obtain ⟨hsame, hnext⟩ := h.step e
      show (f.step e).1.toList ++ (f.step e).2.triggers events = _
      rw [hsame, ih hnext]
      rfl

end Follows

/-- Whatever is remembered as a trigger was the last one under its name. -/
theorem last_eq_lastTriggered {events : List (WatchEvent α φ)} {name : ObjectName} {a : α}
    (h : (TriggerMemory.after {} events).last name = some a) :
    lastTriggered name (watching.triggers events) = some a := by
  induction events using List.reverseRecOn generalizing a with
  | nil => cases h
  | append_singleton events e ih =>
      have hstep := ((follows_empty.after events).step e).1
      have hlast : ((TriggerMemory.after {} events).step e).2.last name = some a := by
        rwa [TriggerMemory.after, List.foldl_append] at h
      rw [triggers_concat, lastTriggered_append, hstep]
      rcases Option.or_eq_some_iff.1 (TriggerMemory.last_step hlast) with hnow | ⟨hnot, hbefore⟩
      · exact Option.or_eq_some_iff.2 (Or.inl hnow)
      · exact Option.or_eq_some_iff.2 (Or.inr ⟨hnot, ih hbefore⟩)

/-- What is remembered is unchanged since the last trigger under its name. -/
theorem unchanged_lastTriggered {events : List (WatchEvent α φ)} {name : ObjectName} {old : α}
    (hold : (watching.after events).seen.get? name = some old) :
    ∃ last, lastTriggered name (watching.triggers events) = some last ∧ Unchanged last old := by
  have hremembered := (follows_empty.after events).remembered name
  rw [hold] at hremembered
  generalize hlast : (TriggerMemory.after {} events).last name = last at hremembered
  cases hremembered with
  | some hsame => exact ⟨_, last_eq_lastTriggered hlast, hsame⟩

/-- A filter for first sightings and changes decides as if it remembered those objects only that led to a
reconcile: whatever happens, the outcome is the same, and at every point each object that it remembers is
unchanged since the last one of its name that led to a reconcile. A fault is passed on in its place, and
what is decided later is the same as without it. -/
theorem triggers_eq_reference (events : List (WatchEvent α φ)) :
    watching.triggers events = TriggerMemory.triggers {} events ∧
      (∀ before, before <+: events → ∀ name old, (watching.after before).seen.get? name = some old →
        ∃ last, lastTriggered name (watching.triggers before) = some last ∧ Unchanged last old) ∧
      ∀ before fault rest, events = before ++ .failed fault :: rest →
        watching.triggers events = watching.triggers before ++ .error fault ::
            (watching.after before).triggers rest ∧
          watching.triggers (before ++ rest) = watching.triggers before ++
            (watching.after before).triggers rest := by
  refine ⟨follows_empty.triggers_eq events, fun before _ name old => unchanged_lastTriggered, ?_⟩
  rintro before fault rest rfl
  exact ⟨triggers_append _ before (.failed fault :: rest), triggers_append _ before rest⟩

end EventFilter

/-! ### A status write between two edits -/

namespace Rewritten

def bundle (resourceVersion : String) (generation : Int) : Work where
  metadata := {
    name := some "bundle"
    «namespace» := some "cluster1"
    resourceVersion := some resourceVersion
    generation := some generation }

/-- The Work is listed, its status is written, the watch fails once, and the Work is edited. -/
def events : List (WatchEvent Work) :=
  [.init, .initApply (bundle "1" 1), .initDone, .apply (bundle "2" 1), .failed .noResourceVersion,
    .apply (bundle "3" 2)]

/-- The status write passes unnoticed, although the filter compares the edit with it, and the fault
changes nothing about that. -/
theorem edit_noticed_after_status_write :
    EventFilter.watching.triggers events =
        [.ok (bundle "1" 1), .error .noResourceVersion, .ok (bundle "3" 2)] ∧
      EventFilter.watching.triggers (events.take 4 ++ events.drop 5) =
        [.ok (bundle "1" 1), .ok (bundle "3" 2)] ∧
      (EventFilter.watching.after (events.take 4)).seen.get? ⟨"bundle", some "cluster1"⟩ =
        some (bundle "2" 1) ∧
      ∃ last, lastTriggered ⟨"bundle", some "cluster1"⟩
        (EventFilter.watching.triggers (events.take 4)) = some last ∧ Unchanged last (bundle "2" 1) := by
  obtain ⟨hsame, hremembered, hfault⟩ := EventFilter.triggers_eq_reference events
  obtain ⟨-, hwithout⟩ := hfault (events.take 4) .noResourceVersion (events.drop 5) rfl
  exact ⟨hsame.trans rfl, hwithout.trans rfl, rfl,
    hremembered _ (List.take_prefix 4 events) _ _ rfl⟩

end Rewritten

end MemberAgent
