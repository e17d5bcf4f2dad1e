import MemberAgent.Proofs.Apply.Reported
import Mathlib.Data.List.Forall2
import Mathlib.Data.List.Induction

/-! Conditions over time. Conditions of several types are set in any order; each type has a history of its
own, which begins with the condition that was there first. What is found of a type is the last condition
of its history, with the time at which the run of equal statuses began that the history ends in. -/

namespace MemberAgent

variable {type : String} {c new first last : Condition} {l initial sets history : List Condition}

/-- A list of conditions after others have been set, one after the other. -/
def setConditions (sets initial : List Condition) : List Condition :=
  sets.foldl (fun l c => setCondition c l) initial

@[simp] theorem setConditions_concat (sets initial : List Condition) (c : Condition) :
    setConditions (sets ++ [c]) initial = setCondition c (setConditions sets initial) :=
  List.foldl_append

/-! ### One condition -/

/-- A condition is put in the place of the first one of its type or, if there is none, at the end. -/
theorem setCondition_cases (new : Condition) (l : List Condition) :
    (∀ c ∈ l, c.type ≠ new.type) ∧ setCondition new l = l ++ [new] ∨
      ∃ before old after, l = before ++ old :: after ∧ (∀ c ∈ before, c.type ≠ new.type) ∧
        old.type = new.type ∧ setCondition new l = before ++ old.succeed new :: after := by
  induction l with
  | nil => exact Or.inl ⟨List.forall_mem_nil _, rfl⟩
  | cons c rest ih =>
      unfold setCondition
      by_cases htype : c.type = new.type
      · rw [if_pos htype]
        exact Or.inr ⟨[], c, rest, rfl, List.forall_mem_nil _, htype, rfl⟩
      · rw [if_neg htype]
        rcases ih with ⟨hnone, hset⟩ | ⟨before, old, after, rfl, hbefore, hold, hset⟩ <;> rw [hset]
        · exact Or.inl ⟨List.forall_mem_cons.2 ⟨htype, hnone⟩, rfl⟩
        · exact Or.inr ⟨c :: before, old, after, rfl, List.forall_mem_cons.2 ⟨htype, hbefore⟩, hold, rfl⟩

/-- Whether an entry is as it was before a condition was set, or the one that made way for it. -/
def Stays (new old now : Condition) : Prop := now.type = old.type ∧ (old.type ≠ new.type → now = old)

theorem Stays.self (new c : Condition) : Stays new c c := ⟨rfl, fun _ => rfl⟩

/-- Whether every entry of a list stays in its place while a condition is set, and nothing but the
condition comes after them, if there was none of its type. -/
def InPlace (new : Condition) (l l' : List Condition) : Prop :=
  ∃ kept added, l' = kept ++ added ∧ List.Forall₂ (Stays new) l kept ∧
    (added = [] ∨ added = [new] ∧ ∀ c ∈ l, c.type ≠ new.type)

theorem inPlace_setCondition (new : Condition) (l : List Condition) :
    InPlace new l (setCondition new l) := by
  have hself : ∀ m, List.Forall₂ (Stays new) m m := fun m => List.forall₂_same.2 fun c _ => .self new c
  rcases setCondition_cases new l with ⟨hnone, hset⟩ | ⟨before, old, after, rfl, -, hold, hset⟩ <;>
    rw [hset]
  · exact ⟨l, [new], rfl, hself l, Or.inr ⟨rfl, hnone⟩⟩
  · have hplace : Stays new old (old.succeed new) :=
      ⟨type_succeed.trans hold.symm, fun hne => absurd hold hne⟩
    exact ⟨_, [], (List.append_nil _).symm,
      List.rel_append (hself before) (.cons hplace (hself after)), Or.inl rfl⟩

theorem nodup_setCondition (new : Condition) (h : (l.map Condition.type).Nodup) :
    ((setCondition new l).map Condition.type).Nodup := by
  rcases setCondition_cases new l with ⟨hnone, hset⟩ | ⟨before, old, after, rfl, -, hold, hset⟩ <;>
    rw [hset]
  · rw [List.map_append, List.nodup_append']
    refine ⟨h, List.nodup_singleton _, fun type htype hnew => ?_⟩
    obtain ⟨c, hc, rfl⟩ := List.mem_map.1 htype
    exact hnone c hc (List.mem_singleton.1 hnew)
  · rw [List.map_append, List.map_cons] at h ⊢
    rwa [type_succeed, ← hold]

/-- What is found of a type changes if a condition of that type is set, and only then. -/
theorem findCondition_setCondition_if (type : String) (new : Condition) (l : List Condition) :
    findCondition type (setCondition new l) =
      if new.type = type then some ((findCondition type l).elim new (·.succeed new))
      else findCondition type l := by
  induction l with
  | nil =>
      by_cases hnew : new.type = type <;> simp [setCondition, findCondition, hnew]
  | cons c rest ih =>
      unfold setCondition
      by_cases hc : c.type = new.type
      · by_cases hnew : new.type = type <;> simp [findCondition, type_succeed, hc, hnew]
      · rw [if_neg hc]
        by_cases htype : c.type = type
        · have hnew : new.type ≠ type := fun h => hc (htype.trans h.symm)
          simp [findCondition, htype, hnew]
        · simpa [findCondition, htype] using ih

/-! ### The history of a type -/

/-- The conditions that a type has had: the one that is found at first, and those that are set. -/
def conditionHistory (type : String) (initial sets : List Condition) : List Condition :=
  (findCondition type initial).toList ++ sets.filter fun c => c.type = type

theorem conditionHistory_concat (type : String) (initial sets : List Condition) (c : Condition) :
    conditionHistory type initial (sets ++ [c]) =
      conditionHistory type initial sets ++ if c.type = type then [c] else [] := by
  rw [conditionHistory, List.filter_append, ← List.append_assoc, conditionHistory]
  by_cases hc : c.type = type <;> simp [hc]

/-- Whether the longest run of equal statuses in which a history ends goes from `first` to `last`. -/
def CurrentRun (history : List Condition) (first last : Condition) : Prop :=
  ∃ before run, history = before ++ first :: run ∧ (first :: run).getLast? = some last ∧
    (∀ c ∈ first :: run, c.status = last.status) ∧ ∀ c ∈ before.getLast?, c.status ≠ last.status

namespace CurrentRun

theorem singleton (c : Condition) : CurrentRun [c] c c :=
  ⟨[], [], rfl, rfl, List.forall_mem_singleton.2 rfl, fun _ h => absurd h (Option.not_mem_none _)⟩

theorem getLast? (h : CurrentRun history first last) : history.getLast? = some last := by
  obtain ⟨before, run, rfl, hlast, -⟩ := h
  rw [List.getLast?_append, hlast]
  rfl

theorem concat_same (h : CurrentRun history first last) (hc : c.status = last.status) :
    CurrentRun (history ++ [c]) first c := by
  obtain ⟨before, run, rfl, -, hrun, hbefore⟩ := h
  refine ⟨before, run ++ [c], by rw [List.append_assoc, List.cons_append], ?_, ?_, hc ▸ hbefore⟩
  · rw [← List.cons_append, List.getLast?_concat]
  · rw [← List.cons_append]
    exact List.forall_mem_append.2 ⟨fun x hx => (hrun x hx).trans hc.symm,
      List.forall_mem_singleton.2 rfl⟩

theorem concat_other (h : CurrentRun history first last) (hc : c.status ≠ last.status) :
    CurrentRun (history ++ [c]) c c := by
  refine ⟨history, [], rfl, rfl, List.forall_mem_singleton.2 rfl, fun x hx => ?_⟩
  cases h.getLast?.symm.trans hx
  exact hc.symm

end CurrentRun

/-- What is found of a type is told by its history. -/
theorem findCondition_setConditions (type : String) (initial sets : List Condition) :
    conditionHistory type initial sets = [] ∧ findCondition type (setConditions sets initial) = none ∨
      ∃ first last, CurrentRun (conditionHistory type initial sets) first last ∧
        findCondition type (setConditions sets initial) =
          some { last with lastTransitionTime := first.lastTransitionTime } := by
  induction sets using List.reverseRecOn with
  | nil =>
      show (findCondition type initial).toList ++ [] = [] ∧ findCondition type initial = none ∨ _
      rw [conditionHistory, List.filter_nil, List.append_nil]
      cases hfound : findCondition type initial with
      | none => exact Or.inl ⟨rfl, rfl⟩
      | some c => exact Or.inr ⟨c, c, .singleton c, hfound⟩
  | append_singleton sets c ih =>
      rw [setConditions_concat, findCondition_setCondition_if, conditionHistory_concat]
      by_cases hc : c.type = type
      · rw [if_pos hc, if_pos hc]
        refine Or.inr ?_
        rcases ih with ⟨hnone, hfound⟩ | ⟨first, last, hrun, hfound⟩ <;> rw [hfound]
        · rw [hnone]
          exact ⟨c, c, .singleton c, rfl⟩
        · by_cases hstatus : c.status = last.status
          · exact ⟨first, c, hrun.concat_same hstatus, congrArg some (if_pos hstatus.symm)⟩
          · exact ⟨c, c, hrun.concat_other hstatus,
              congrArg some (if_neg fun h => hstatus h.symm)⟩
      · rw [if_neg hc, if_neg hc, List.append_nil]
        exact ih

/-- The last condition of a type that is set ends the history of the type. -/
theorem getLast?_conditionHistory (initial before : List Condition) {after : List Condition}
    (hafter : ∀ c ∈ after, c.type ≠ last.type) :
    (conditionHistory last.type initial (before ++ last :: after)).getLast? = some last := by
  have hends : ((last :: after).filter fun c => c.type = last.type) = [last] := by
    rw [List.filter_cons_of_pos (by simp), List.filter_eq_nil_iff.2 (by simpa using hafter)]
  rw [conditionHistory, List.filter_append, hends, ← List.append_assoc, List.getLast?_concat]

/-- However conditions are set, every entry stays in its place and only those of the type that is set are
touched; types that are distinct stay so. The condition found of a type that was set is the last one that
was set, word for word, but with the time of the first condition in the run of equal statuses that it
ends. -/
theorem time_of_current_run (initial sets : List Condition) :
    (∀ before c after, sets = before ++ c :: after →
        InPlace c (setConditions before initial) (setConditions (before ++ [c]) initial)) ∧
      ((initial.map Condition.type).Nodup → ((setConditions sets initial).map Condition.type).Nodup) ∧
      ∀ before last after, sets = before ++ last :: after → (∀ c ∈ after, c.type ≠ last.type) →
        ∃ first, CurrentRun (conditionHistory last.type initial sets) first last ∧
          findCondition last.type (setConditions sets initial) =
            some { last with lastTransitionTime := first.lastTransitionTime } := by
  refine ⟨fun before c after _ => ?_, fun hnodup => ?_, ?_⟩
  · rw [setConditions_concat]
    exact inPlace_setCondition c _
  · induction sets using List.reverseRecOn with
    | nil => exact hnodup
    | append_singleton sets c ih =>
        rw [setConditions_concat]
        exact nodup_setCondition c ih
  · rintro before last after rfl hafter
    have hends := getLast?_conditionHistory initial before hafter
    rcases findCondition_setConditions last.type initial (before ++ last :: after) with
      ⟨hnone, -⟩ | ⟨first, last', hrun, hfound⟩
    · rw [hnone] at hends
      cases hends
    · cases hrun.getLast?.symm.trans hends
      exact ⟨first, hrun, hfound⟩

/-! ### A condition that fails, and fails again -/

namespace Flapping

/-- A time of day. -/
def clock (hour : Fin 24) : Timestamp :=
  ⟨2024, 1, 1, hour, 0, 0, 0, by decide, ⟨hour.isLt, by decide, by decide, by decide⟩⟩

def condition (type : String) (status : ConditionStatus) (message : String) (hour : Fin 24) : Condition :=
  ⟨type, status, "Checked", message, some 1, clock hour⟩

/-- One type stands there twice; the second condition of it is never found. -/
def stored : List Condition :=
  [condition "Applied" .isFalse "refused" 1, condition "Available" .unknown "not seen" 1,
    condition "Applied" .isTrue "overlooked" 2]

def reports : List Condition :=
  [condition "Applied" .isTrue "applied" 3, condition "Applied" .isFalse "refused" 4,
    condition "Available" .isFalse "gone" 5, condition "Applied" .isFalse "refused again" 6]

/-- It has failed since the fourth hour, whatever else was reported in between and although it had failed
before. -/
theorem failing_since_last_failure :
    reports = reports.take 3 ++ condition "Applied" .isFalse "refused again" 6 :: [] ∧
      ∃ first, CurrentRun (conditionHistory "Applied" stored reports) first
          (condition "Applied" .isFalse "refused again" 6) ∧
        findCondition "Applied" (setConditions reports stored) =
          some { condition "Applied" .isFalse "refused again" 6 with
            lastTransitionTime := first.lastTransitionTime } ∧
        first.lastTransitionTime = clock 4 := by
  obtain ⟨-, -, htimes⟩ := time_of_current_run stored reports
  obtain ⟨first, hrun, hfound⟩ := htimes (reports.take 3) (condition "Applied" .isFalse "refused again" 6)
    [] rfl (List.forall_mem_nil _)
  have htime : findCondition "Applied" (setConditions reports stored) =
      some (condition "Applied" .isFalse "refused again" 4) := by decide
  refine ⟨rfl, first, hrun, hfound, ?_⟩
  exact (congrArg Condition.lastTransitionTime (Option.some.inj (htime.symm.trans hfound))).symm

end Flapping

end MemberAgent
