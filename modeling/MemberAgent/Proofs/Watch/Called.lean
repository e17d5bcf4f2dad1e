import MemberAgent.Proofs.Watch.Remembered
import Mathlib.Data.List.Basic

/-! What a filter remembers, by the calls that are made to it in any order. A list may begin anew while
one is being read, and it may end without having begun. An object is remembered from the last call that
shows it on until it is forgotten, or until a list ends that has not shown its name since it began last. -/

namespace MemberAgent

/-- A call to a filter. -/
inductive FilterCall (α : Type) where
  | observe (object : α)
  | forget (object : α)
  | beginRelist
  | finishRelist

/-- What a predicate is asked about an object: whether its first sighting, or its change, leads to a
reconcile. -/
inductive Question (α : Type) where
  | create (object : α)
  | update (old new : α)

def EventPredicate.answer {α : Type} (predicate : EventPredicate α) : Question α → Bool
  | .create a => predicate.create a
  | .update old new => predicate.update old new

namespace FilterCall

variable {α : Type} {c : FilterCall α} {calls : List (FilterCall α)} {a : α}

/-- The event that makes a call. It is never a fault. -/
def event : FilterCall α → WatchEvent α Empty
  | .observe a => .apply a
  | .forget a => .delete a
  | .beginRelist => .init
  | .finishRelist => .initDone

/-- The name of the object that a call is about, be it shown or forgotten. -/
def subject? [HasMetadata α] : FilterCall α → Option ObjectName
  | .observe a | .forget a => some (.ofObject a)
  | .beginRelist | .finishRelist => none

theorem event_injective : Function.Injective (event : FilterCall α → WatchEvent α Empty) := by
  intro c d h
  cases c <;> cases d <;> cases h <;> rfl

theorem subject?_event [HasMetadata α] : c.event.subject? = c.subject? := by
  cases c <;> rfl

theorem sighted?_event : c.event.sighted? = some a ↔ c = .observe a := by
  cases c <;> simp [event, WatchEvent.sighted?]

theorem relists_event :
    EventFilter.Relists (calls.map event) ↔ [.beginRelist, .finishRelist].Sublist calls := by
  constructor
  · intro h
    obtain ⟨ends, hsub, hends⟩ := List.sublist_map_iff.1 h
    obtain rfl : [.beginRelist, .finishRelist] = ends := List.map_injective_iff.2 event_injective hends
    exact hsub
  · exact fun h => h.map event

end FilterCall

namespace EventFilter

variable {α : Type} {predicate : EventPredicate α} {before earlier since calls : List (FilterCall α)}
  {c : FilterCall α} {a old : α}

/-! ### What the calls tell -/

/-- Whether a list is being read after these calls, so that its end has an effect: one has begun and none
has ended since. -/
def Reading (calls : List (FilterCall α)) : Prop :=
  ∃ before since, calls = before ++ .beginRelist :: since ∧ .finishRelist ∉ since

theorem not_reading_nil : ¬Reading ([] : List (FilterCall α)) := by
  rintro ⟨before, since, hsplit, -⟩
  exact List.append_ne_nil_of_right_ne_nil before (List.cons_ne_nil _ since) hsplit.symm

theorem reading_concat : Reading (calls ++ [c]) ↔
    c = .beginRelist ∨ Reading calls ∧ c ≠ .finishRelist := by
  constructor
  · rintro ⟨before, since, hsplit, hopen⟩
    rcases concat_eq_split.1 hsplit with ⟨-, -, hbegin⟩ | ⟨earlier, rfl, rfl⟩
    · exact Or.inl hbegin
    · exact Or.inr ⟨⟨before, earlier, rfl, fun h => hopen (List.mem_append_left _ h)⟩,
        fun h => hopen (List.mem_append_right _ (List.mem_singleton.2 h.symm))⟩
  · rintro (rfl | ⟨⟨before, since, rfl, hopen⟩, hne⟩)
    · exact ⟨calls, [], rfl, List.not_mem_nil⟩
    · exact ⟨before, since ++ [c], by simp, by simp [hopen, hne.symm]⟩

variable [HasMetadata α] {name : ObjectName}

/-- Whether a name has been shown since a list began last. -/
def Listed (calls : List (FilterCall α)) (name : ObjectName) : Prop :=
  ∃ before a since, calls = before ++ .observe a :: since ∧ .ofObject a = name ∧
    .beginRelist ∈ before ∧ .beginRelist ∉ since

/-- Whether each list that ends in the calls `since`, after those `before`, has shown a name from when it
began last. An end without a list does not count. -/
def Outlasts (before since : List (FilterCall α)) (name : ObjectName) : Prop :=
  ∀ first rest, since = first ++ .finishRelist :: rest →
    Reading (before ++ first) → Listed (before ++ first) name

/-- Whether `old` is what was shown last under a name, nothing was forgotten under it since, and every
list that ended since has shown it. -/
def Keeps (calls : List (FilterCall α)) (name : ObjectName) (old : α) : Prop :=
  ∃ before since, calls = before ++ .observe old :: since ∧ .ofObject old = name ∧
    (∀ c ∈ since, c.subject? ≠ some name) ∧ Outlasts (before ++ [.observe old]) since name

omit [HasMetadata α] in
/-- An object that was shown after the last beginning of a list was shown after every beginning. -/
theorem mem_of_beginRelist_notMem (hlast : .beginRelist ∉ since)
    (hsplit : before ++ .beginRelist :: calls = earlier ++ .observe a :: since) :
    .observe a ∈ calls := by
  rcases List.append_eq_append_iff.1 hsplit with ⟨between, -, hrest⟩ | ⟨between, -, hrest⟩
  · rcases List.cons_eq_append_iff.1 hrest with ⟨-, h⟩ | ⟨between, -, rfl⟩
    · cases h
    · exact List.mem_append_right _ List.mem_cons_self
  · rcases List.cons_eq_append_iff.1 hrest with ⟨-, h⟩ | ⟨between, -, rfl⟩
    · cases h
    · exact absurd (List.mem_append_right _ List.mem_cons_self) hlast

/-- While nothing more is said about a name that was shown, a list that ends lacks it just if it began after
that. -/
theorem outlasts_iff (hname : .ofObject old = name) (hquiet : ∀ c ∈ since, c.subject? ≠ some name) :
    Outlasts (before ++ [.observe old]) since name ↔ ¬[.beginRelist, .finishRelist].Sublist since := by
  constructor
  · intro h hsub
    obtain ⟨upTo, rest, rfl, hbegin, hfinish⟩ := List.cons_sublist_iff.1 hsub
    obtain ⟨earlier, later, rfl⟩ := List.mem_iff_append.1 hbegin
    -- The list that began there ends at the first end that follows.
    obtain ⟨listed, after, hsplit, hopen⟩ := List.eq_append_cons_of_mem
      (List.mem_append_right later (List.singleton_sublist.1 hfinish))
    have hsince : earlier ++ .beginRelist :: later ++ rest =
        earlier ++ .beginRelist :: listed ++ .finishRelist :: after := by
      simp [hsplit]
    obtain ⟨_, a, _, hshown, ha, -, hlast⟩ := h _ _ hsince
      ⟨before ++ [.observe old] ++ earlier, listed, (List.append_assoc ..).symm, hopen⟩
    rw [← List.append_assoc] at hshown
    have hmem : .observe a ∈ listed := mem_of_beginRelist_notMem hlast hshown
    refine hquiet (.observe a) ?_ (congrArg some ha)
    rw [hsince]
    simp [hmem]
  · rintro h first rest rfl ⟨begun, reading, hsplit, -⟩
    have hnot : .beginRelist ∉ first := fun hmem => h
      ((List.singleton_sublist.2 hmem).append (List.singleton_sublist.2 List.mem_cons_self))
    have hmem : .beginRelist ∈ before ++ [.observe old] ++ first := hsplit ▸ by simp
    exact ⟨before, old, first, by simp, hname, by simpa [hnot] using hmem, hnot⟩

/-- What the calls keep is what their events tell. -/
theorem standing_event : Standing (calls.map FilterCall.event) name old ↔ Keeps calls name old := by
  constructor
  · rintro ⟨since, ⟨before, e, hsplit, hshown, hname, hquiet⟩, hlist⟩
    obtain ⟨before, after, rfl, rfl, hafter⟩ := List.map_eq_append_iff.1 hsplit
    obtain ⟨c, since, rfl, rfl, rfl⟩ := List.map_eq_cons_iff.1 hafter
    obtain rfl := FilterCall.sighted?_event.1 hshown
    have hquiet : ∀ c ∈ since, c.subject? ≠ some name := fun c hc => by
      rw [← FilterCall.subject?_event]
      exact hquiet c.event (List.mem_map_of_mem hc)
    exact ⟨before, since, rfl, hname, hquiet,
      (outlasts_iff hname hquiet).2 fun h => hlist (FilterCall.relists_event.2 h)⟩
  · rintro ⟨before, since, rfl, hname, hquiet, hlasts⟩
    refine ⟨since.map FilterCall.event, ⟨before.map FilterCall.event, .apply old,
      List.map_append, rfl, hname, fun e he => ?_⟩, fun h => ?_⟩
    · obtain ⟨c, hc, rfl⟩ := List.mem_map.1 he
      rw [FilterCall.subject?_event]
      exact hquiet c hc
    · exact (outlasts_iff hname hquiet).1 hlasts (FilterCall.relists_event.1 h)

/-! ### Calls to a filter -/

/-- The filter as it is after one call. -/
def call (f : EventFilter α) : FilterCall α → EventFilter α
  | .observe a => (f.observe a).2
  | .forget a => f.forget a
  | .beginRelist => f.beginRelist
  | .finishRelist => f.finishRelist

/-- A new filter after these calls. -/
def called (predicate : EventPredicate α) (calls : List (FilterCall α)) : EventFilter α :=
  calls.foldl call ⟨predicate, ∅, none⟩

theorem called_concat : called predicate (calls ++ [c]) = (called predicate calls).call c :=
  List.foldl_append

theorem called_eq_after :
    called predicate calls = after ⟨predicate, ∅, none⟩ (calls.map FilterCall.event) := by
  have hcall : ∀ (f : EventFilter α) c, f.call c = (f.step c.event).2 := fun f c => by cases c <;> rfl
  rw [called, after, List.foldl_map]
  exact congrArg (calls.foldl · _) (funext₂ hcall)

theorem get?_called : (called predicate calls).seen.get? name = some old ↔ Keeps calls name old := by
  rw [called_eq_after, (Tells.after predicate _).seen, standing_event]

/-- Calls never change the predicate. -/
theorem predicate_called : (called predicate calls).predicate = predicate := by
  induction calls using List.reverseRecOn with
  | nil => rfl
  | append_singleton calls c ih =>
      rw [called_concat]
      refine Eq.trans ?_ ih
      cases c with
      | finishRelist =>
          simp only [call, finishRelist]
          split <;> rfl
      | _ => rfl

theorem isSome_relisted_called : (called predicate calls).relisted.isSome ↔ Reading calls := by
  induction calls using List.reverseRecOn with
  | nil => exact iff_of_false nofun not_reading_nil
  | append_singleton calls c ih =>
      rw [called_concat, reading_concat, ← ih]
      cases c with
      | observe a => simp [call, observe]
      | forget a => simp [call, forget]
      | beginRelist => simp [call, beginRelist]
      | finishRelist =>
          simp only [call, finishRelist]
          split <;> simp [*]

theorem Keeps.unique {new : α} (hold : Keeps calls name old) (hnew : Keeps calls name new) :
    old = new := by
  have hget : (called .all calls).seen.get? name = some old := get?_called.2 hold
  exact Option.some.inj (hget.symm.trans (get?_called.2 hnew))

theorem observe_of_keeps (h : Keeps calls (.ofObject a) old) :
    ((called predicate calls).observe a).1 = predicate.answer (.update old a) := by
  simp only [observe, get?_called.2 h, predicate_called, EventPredicate.answer]

theorem observe_of_keeps_nothing (h : ∀ old, ¬Keeps calls (.ofObject a) old) :
    ((called predicate calls).observe a).1 = predicate.answer (.create a) := by
  have hget : (called predicate calls).seen.get? (.ofObject a) = none :=
    Option.eq_none_iff_forall_ne_some.2 fun old hget => h old (get?_called.1 hget)
  simp only [observe, hget, predicate_called, EventPredicate.answer]

/-- A filter remembers under a name what was shown last under it, unless it was forgotten since or was
missing from a list that ended since; a list is read as long as one is open. For an object that is shown
the predicate is asked one question: about the first sighting just when nothing of its name is remembered,
and else about the change from what is. -/
theorem remembers_last_observed (predicate : EventPredicate α) (calls : List (FilterCall α)) :
    (∀ name old, (called predicate calls).seen.get? name = some old ↔ Keeps calls name old) ∧
      ((called predicate calls).relisted.isSome ↔ Reading calls) ∧
      ∀ a, ∃ question : Question α,
        (∀ predicate, ((called predicate calls).observe a).1 = predicate.answer question) ∧
        (question = .create a ↔ ∀ old, ¬Keeps calls (.ofObject a) old) ∧
        ∀ old, question = .update old a ↔ Keeps calls (.ofObject a) old := by
  refine ⟨fun _ _ => get?_called, isSome_relisted_called, fun a => ?_⟩
  by_cases hkept : ∃ old, Keeps calls (.ofObject a) old
  · obtain ⟨old, hold⟩ := hkept
    refine ⟨.update old a, fun predicate => observe_of_keeps hold,
      iff_of_false nofun fun hnone => hnone old hold, fun other => ?_⟩
    rw [Question.update.injEq, eq_self, and_true]
    exact ⟨fun h => h ▸ hold, hold.unique⟩
  · have hnone := not_exists.1 hkept
    exact ⟨.create a, fun predicate => observe_of_keeps_nothing hnone, iff_of_true rfl hnone,
      fun old => iff_of_false nofun (hnone old)⟩

end EventFilter

/-! ### A list that begins anew while it is read -/

namespace Restarted

def shown (name resourceVersion : String) : Work where
  metadata := { name := some name, «namespace» := some "cluster1", resourceVersion := some resourceVersion }

/-- Two Works are known. A list shows the first one and begins anew, and then it shows the second one
only. -/
def calls : List (FilterCall Work) :=
  [.observe (shown "a" "1"), .observe (shown "b" "1"), .finishRelist, .beginRelist,
    .observe (shown "a" "2"), .beginRelist, .observe (shown "b" "2"), .finishRelist]

/-- The first Work is new again after the list, and the second one is compared with what the list showed. -/
theorem new_unless_shown_anew :
    (∀ predicate, ((EventFilter.called predicate calls).observe (shown "a" "3")).1 =
      predicate.create (shown "a" "3")) ∧
    (∀ predicate, ((EventFilter.called predicate calls).observe (shown "b" "3")).1 =
      predicate.update (shown "b" "2") (shown "b" "3")) ∧
    ¬EventFilter.Reading calls := by
  obtain ⟨hkeeps, hreading, hasked⟩ := EventFilter.remembers_last_observed .all calls
  obtain ⟨first, hfirst, hnew, -⟩ := hasked (shown "a" "3")
  obtain ⟨second, hsecond, -, hchanged⟩ := hasked (shown "b" "3")
  obtain rfl := hnew.2 fun old h => by cases (hkeeps _ old).2 h
  obtain rfl := (hchanged (shown "b" "2")).2 ((hkeeps _ _).1 rfl)
  exact ⟨hfirst, hsecond, fun h => by cases hreading.2 h⟩

end Restarted

end MemberAgent
