import MemberAgent.EventFilter
import Mathlib.Data.List.Induction

/-! What a filter remembers, by the events that it has been given. An object is remembered from its last
sighting on until it is deleted, or until a fresh list begins and ends without it. What the predicate
makes of it does not matter. -/

namespace MemberAgent

instance : Std.LawfulEqOrd ObjectName where
  eq_of_compare {a b} h := by
    rw [show compare a b = (compare a.name b.name).then (compare a.namespace b.namespace) from rfl,
      Ordering.then_eq_eq] at h
    cases a; cases b
    exact congr (congrArg ObjectName.mk (Std.LawfulEqCmp.eq_of_compare h.1))
      (Std.LawfulEqCmp.eq_of_compare h.2)

namespace WatchEvent

variable {α φ : Type}

/-- The object that an event shows. -/
def sighted? : WatchEvent α φ → Option α
  | .initApply a | .apply a => some a
  | _ => none

/-- The name of the object that an event is about, be it shown or deleted. -/
def subject? [HasMetadata α] : WatchEvent α φ → Option ObjectName
  | .initApply a | .apply a | .delete a => some (.ofObject a)
  | _ => none

theorem subject?_of_sighted? [HasMetadata α] {e : WatchEvent α φ} {a : α} (h : e.sighted? = some a) :
    e.subject? = some (.ofObject a) := by
  cases e <;> cases h <;> rfl

end WatchEvent

namespace EventFilter

variable {α φ : Type} [HasMetadata α] {f : EventFilter α} {events since : List (WatchEvent α φ)}
  {e : WatchEvent α φ} {name : ObjectName} {a old : α}

/-! ### Runs -/

/-- The filter as it is after these events. -/
def after (f : EventFilter α) (events : List (WatchEvent α φ)) : EventFilter α :=
  events.foldl (fun f e => (f.step e).2) f

@[simp] theorem after_append (f : EventFilter α) (events more : List (WatchEvent α φ)) :
    f.after (events ++ more) = (f.after events).after more :=
  List.foldl_append

theorem triggers_append (f : EventFilter α) (events more : List (WatchEvent α φ)) :
    f.triggers (events ++ more) = f.triggers events ++ (f.after events).triggers more := by
  induction events generalizing f with
  | nil => rfl
  | cons e events ih =>
      show (f.step e).1.toList ++ (f.step e).2.triggers (events ++ more) = _
      rw [ih, ← List.append_assoc]
      rfl

theorem triggers_concat (f : EventFilter α) (events : List (WatchEvent α φ)) (e : WatchEvent α φ) :
    f.triggers (events ++ [e]) = f.triggers events ++ ((f.after events).step e).1.toList := by
  rw [triggers_append]
  exact congrArg _ (List.append_nil _)

/-! ### What the events tell -/

/-- Whether a fresh list begins in these events and ends in them later. -/
def Relists (events : List (WatchEvent α φ)) : Prop := [.init, .initDone].Sublist events

/-- Whether `old` was shown under a name, and nothing was said about it in the events since. -/
def LastShown (events : List (WatchEvent α φ)) (name : ObjectName) (old : α)
    (since : List (WatchEvent α φ)) : Prop :=
  ∃ before e, events = before ++ e :: since ∧ e.sighted? = some old ∧ .ofObject old = name ∧
    ∀ later ∈ since, later.subject? ≠ some name

/-- Whether `old` is what the events tell of a name to the end: shown last, and not missing from a list
that was read from beginning to end since. -/
def Standing (events : List (WatchEvent α φ)) (name : ObjectName) (old : α) : Prop :=
  ∃ since, LastShown events name old since ∧ ¬Relists since

omit [HasMetadata α] in
theorem not_relists_nil : ¬Relists ([] : List (WatchEvent α φ)) := nofun

omit [HasMetadata α] in
theorem relists_concat : Relists (since ++ [e]) ↔ Relists since ∨ .init ∈ since ∧ e = .initDone := by
  constructor
  · intro h
    obtain ⟨first, last, hsplit, hfirst, hlast⟩ := List.sublist_append_iff.1 h
    -- At most the end of the list is the last event.
    match first, last, hsplit with
    | [], _, rfl => cases hlast with | cons _ h => cases h | cons_cons _ h => cases h
    | [_], _, rfl =>
        obtain rfl := List.mem_singleton.1 (List.singleton_sublist.1 hlast)
        exact Or.inr ⟨List.singleton_sublist.1 hfirst, rfl⟩
    | [_, _], [], rfl => exact Or.inl hfirst
  · rintro (h | ⟨hinit, rfl⟩)
    · exact h.trans (List.sublist_append_left _ _)
    · exact (List.singleton_sublist.2 hinit).append (List.Sublist.refl [WatchEvent.initDone])

omit [HasMetadata α] in
/-- The last element of a list stands where the list is split, or in what comes after. -/
theorem concat_eq_split {β : Type} {l before after : List β} {last x : β} :
    l ++ [last] = before ++ x :: after ↔ after = [] ∧ l = before ∧ last = x ∨
      ∃ earlier, after = earlier ++ [last] ∧ l = before ++ x :: earlier := by
  constructor
  · intro h
    rcases List.eq_nil_or_concat after with rfl | ⟨earlier, y, rfl⟩
    · obtain ⟨hl, hlast⟩ := List.append_inj' h rfl
      exact Or.inl ⟨rfl, hl, List.singleton_inj.1 hlast⟩
    · rw [List.concat_eq_append, ← List.cons_append, ← List.append_assoc] at h
      obtain ⟨hl, hlast⟩ := List.append_inj' h rfl
      obtain rfl := List.singleton_inj.1 hlast
      exact Or.inr ⟨earlier, List.concat_eq_append, hl⟩
  · rintro (⟨rfl, rfl, rfl⟩ | ⟨earlier, rfl, rfl⟩)
    · rfl
    · rw [List.append_assoc, List.cons_append]

theorem lastShown_concat : LastShown (events ++ [e]) name old since ↔
    (since = [] ∧ e.sighted? = some old ∧ .ofObject old = name) ∨
      ∃ earlier, since = earlier ++ [e] ∧ LastShown events name old earlier ∧
        e.subject? ≠ some name := by
  constructor
  · rintro ⟨before, shown, hsplit, hshown, hname, hquiet⟩
    rcases concat_eq_split.1 hsplit with ⟨rfl, rfl, rfl⟩ | ⟨earlier, rfl, rfl⟩
    · exact Or.inl ⟨rfl, hshown, hname⟩
    · have hlast := hquiet e (List.mem_append_right _ (List.mem_singleton.2 rfl))
      exact Or.inr ⟨earlier, rfl, ⟨before, shown, rfl, hshown, hname,
        fun later hlater => hquiet later (List.mem_append_left _ hlater)⟩, hlast⟩
  · rintro (⟨rfl, hshown, hname⟩ | ⟨earlier, rfl, ⟨before, shown, rfl, hshown, hname, hquiet⟩, hlast⟩)
    · exact ⟨events, e, rfl, hshown, hname, nofun⟩
    · refine ⟨before, shown, by simp, hshown, hname, fun later hlater => ?_⟩
      rcases List.mem_append.1 hlater with hlater | hlater
      · exact hquiet later hlater
      · rwa [List.mem_singleton.1 hlater]

/-- What is shown is told from then on. -/
theorem standing_sighted (ha : e.sighted? = some a) :
    Standing (events ++ [e]) (.ofObject a) old ↔ a = old := by
  constructor
  · rintro ⟨since, hshown, -⟩
    rcases lastShown_concat.1 hshown with ⟨-, hold, -⟩ | ⟨-, -, -, hother⟩
    · exact Option.some.inj (ha.symm.trans hold)
    · exact absurd (WatchEvent.subject?_of_sighted? ha) hother
  · rintro rfl
    exact ⟨[], lastShown_concat.2 (Or.inl ⟨rfl, ha, rfl⟩), not_relists_nil⟩

theorem not_standing_delete : ¬Standing (events ++ [.delete a]) (.ofObject a) old := by
  rintro ⟨since, hshown, -⟩
  rcases lastShown_concat.1 hshown with ⟨-, hold, -⟩ | ⟨-, -, -, hother⟩
  · cases hold
  · exact hother rfl

/-- An event that is not about a name takes from it, at most, that no list has ended. -/
theorem standing_other (hother : e.subject? ≠ some name) : Standing (events ++ [e]) name old ↔
    ∃ since, LastShown events name old since ∧ ¬Relists since ∧ ¬(.init ∈ since ∧ e = .initDone) := by
  constructor
  · rintro ⟨since, hshown, hlist⟩
    rcases lastShown_concat.1 hshown with ⟨-, hsighted, rfl⟩ | ⟨earlier, rfl, hearlier, -⟩
    · exact absurd (WatchEvent.subject?_of_sighted? hsighted) hother
    · exact ⟨earlier, hearlier, not_or.1 fun h => hlist (relists_concat.2 h)⟩
  · rintro ⟨since, hshown, hlist⟩
    exact ⟨since ++ [e], lastShown_concat.2 (Or.inr ⟨since, rfl, hshown, hother⟩),
      fun h => not_or.2 hlist (relists_concat.1 h)⟩

theorem standing_same (hother : e.subject? ≠ some name) (hend : e ≠ .initDone) :
    Standing (events ++ [e]) name old ↔ Standing events name old := by
  rw [standing_other hother]
  simp only [hend, and_false, not_false_eq_true, and_true, Standing]

/-! ### What is remembered -/

/-- Whether the list that is being read, if there is one, has shown a name already. -/
def Lists (f : EventFilter α) (name : ObjectName) : Prop := ∀ names, f.relisted = some names → name ∈ names

omit [HasMetadata α] in
theorem get?_finishRelist : f.finishRelist.seen.get? name = some old ↔
    f.seen.get? name = some old ∧ f.Lists name := by
  unfold finishRelist Lists
  cases f.relisted with
  | none => simp
  | some names => simp [Option.filter_eq_some_iff]

/-- A filter remembers what the events tell, and an open list lacks what was shown last before it
began. -/
structure Tells (f : EventFilter α) (events : List (WatchEvent α φ)) : Prop where
  seen : ∀ name old, f.seen.get? name = some old ↔ Standing events name old
  listed : ∀ name old since, LastShown events name old since → ¬Relists since →
    (f.Lists name ↔ .init ∉ since)

namespace Tells

theorem nil {predicate : EventPredicate α} :
    Tells ⟨predicate, ∅, none⟩ ([] : List (WatchEvent α φ)) where
  seen name old := by
    refine iff_of_false nofun ?_
    rintro ⟨since, ⟨before, e, hsplit, -⟩, -⟩
    exact List.append_ne_nil_of_right_ne_nil before (List.cons_ne_nil e since) hsplit.symm
  listed name old since := by
    rintro ⟨before, e, hsplit, -⟩
    exact absurd hsplit.symm (List.append_ne_nil_of_right_ne_nil before (List.cons_ne_nil e since))

/-- What is listed stays so under an event that neither begins nor ends a list. -/
theorem listed_same {g : EventFilter α} (h : Tells f events) (hsame : e.subject? ≠ some name →
    (g.Lists name ↔ f.Lists name)) (hnow : e.subject? = some name → g.Lists name)
    (hinit : e ≠ .init) (hshown : LastShown (events ++ [e]) name old since)
    (hlist : ¬Relists since) : g.Lists name ↔ .init ∉ since := by
  rcases lastShown_concat.1 hshown with ⟨rfl, hsighted, rfl⟩ | ⟨earlier, rfl, hearlier, hother⟩
  · exact iff_of_true (hnow (WatchEvent.subject?_of_sighted? hsighted)) List.not_mem_nil
  · rw [hsame hother, h.listed name old earlier hearlier fun hr => hlist (relists_concat.2 (Or.inl hr))]
    simp [hinit.symm]

theorem observe (h : Tells f events) (ha : e.sighted? = some a) :
    Tells (f.observe a).2 (events ++ [e]) where
  seen name old := by
    have hsubject := WatchEvent.subject?_of_sighted? ha
    rw [EventFilter.observe, Table.get?_insert]
    split
    · next hname =>
        subst hname
        rw [standing_sighted ha, Option.some.injEq]
    · next hname =>
        have hother : e.subject? ≠ some name := by simpa [hsubject] using hname
        rw [standing_same hother (by rintro rfl; cases ha), h.seen]
  listed name old since hshown hlist := by
    have hsubject := WatchEvent.subject?_of_sighted? ha
    refine h.listed_same (fun hother => ?_) (fun hname => ?_) ?_ hshown hlist
    · have hne : name ≠ .ofObject a := by
        rintro rfl
        exact hother hsubject
      simp [Lists, EventFilter.observe, hne]
    · cases hsubject.symm.trans hname
      simp [Lists, EventFilter.observe]
    · rintro rfl
      cases ha

theorem forget (h : Tells f events) (a : α) : Tells (f.forget a) (events ++ [.delete a]) where
  seen name old := by
    rw [EventFilter.forget, Table.get?_erase]
    split
    · next hname =>
        subst hname
        exact iff_of_false nofun not_standing_delete
    · next hname =>
        have hother : (WatchEvent.delete a : WatchEvent α φ).subject? ≠ some name := by
          simpa [WatchEvent.subject?] using hname
        rw [standing_same hother nofun, h.seen]
  listed name old since hshown hlist := by
    rcases lastShown_concat.1 hshown with ⟨-, hsighted, -⟩ | ⟨earlier, rfl, hearlier, -⟩
    · cases hsighted
    · have hsame := h.listed name old earlier hearlier fun hr => hlist (relists_concat.2 (Or.inl hr))
      simpa [Lists, EventFilter.forget] using hsame

/-- A list that begins has shown nothing yet. -/
theorem beginRelist (h : Tells f events) : Tells f.beginRelist (events ++ [.init]) where
  seen name old := by
    have hother : (WatchEvent.init : WatchEvent α φ).subject? ≠ some name := nofun
    rw [standing_same hother nofun]
    exact h.seen name old
  listed name old since hshown hlist := by
    rcases lastShown_concat.1 hshown with ⟨-, hsighted, -⟩ | ⟨earlier, rfl, -, -⟩
    · cases hsighted
    · simp [Lists, EventFilter.beginRelist]

theorem finishRelist (h : Tells f events) : Tells f.finishRelist (events ++ [.initDone]) where
  seen name old := by
    have hother : (WatchEvent.initDone : WatchEvent α φ).subject? ≠ some name := nofun
    rw [get?_finishRelist, h.seen, standing_other hother]
    constructor
    · rintro ⟨⟨since, hshown, hlist⟩, hthere⟩
      exact ⟨since, hshown, hlist, fun hbegun => (h.listed _ _ _ hshown hlist).1 hthere hbegun.1⟩
    · rintro ⟨since, hshown, hlist, hbegun⟩
      refine ⟨⟨since, hshown, hlist⟩, (h.listed _ _ _ hshown hlist).2 fun hinit => ?_⟩
      exact hbegun ⟨hinit, rfl⟩
  listed name old since hshown hlist := by
    have hclosed : f.finishRelist.relisted = none := by
      unfold EventFilter.finishRelist
      split
      · next hnone => exact hnone
      · rfl
    refine iff_of_true (fun names hnames => ?_) fun hinit => ?_
    · cases hclosed.symm.trans hnames
    · rcases lastShown_concat.1 hshown with ⟨-, hsighted, -⟩ | ⟨earlier, rfl, -, -⟩
      · cases hsighted
      · have hbegun : .init ∈ earlier := by simpa using hinit
        exact hlist (relists_concat.2 (Or.inr ⟨hbegun, rfl⟩))

theorem fail (h : Tells f events) (fault : φ) : Tells f (events ++ [.failed fault]) where
  seen name old := by
    have hother : (WatchEvent.failed fault : WatchEvent α φ).subject? ≠ some name := nofun
    rw [standing_same hother nofun, h.seen]
  listed name old since hshown hlist := by
    have hquiet : (WatchEvent.failed fault : WatchEvent α φ).subject? ≠ some name := nofun
    exact h.listed_same (fun _ => Iff.rfl) (absurd · hquiet) nofun hshown hlist

theorem step (h : Tells f events) (e : WatchEvent α φ) : Tells (f.step e).2 (events ++ [e]) := by
  cases e with
  | init => exact h.beginRelist
  | initDone => exact h.finishRelist
  | initApply a | apply a => exact h.observe rfl
  | delete a => exact h.forget a
  | failed fault => exact h.fail fault

theorem after (predicate : EventPredicate α) (events : List (WatchEvent α φ)) :
    Tells (EventFilter.after ⟨predicate, ∅, none⟩ events) events := by
  induction events using List.reverseRecOn with
  | nil => exact .nil
  | append_singleton events e ih =>
      rw [after_append]
      exact ih.step e

end Tells

end EventFilter

end MemberAgent
