import MemberAgent.InMemory.Member
import MemberAgent.Proofs.Tracking.Difference
import MemberAgent.Reconcile.Apply

/-! What the status of a Work declares after applying it: the resources of the manifests that went
through, and no others. -/

namespace MemberAgent

theorem type_succeed {c new : Condition} : (c.succeed new).type = new.type := by
  unfold Condition.succeed
  split <;> rfl

/-- A condition that has been set is found, apart from the time since which it has its status. -/
theorem findCondition_setCondition_eq (new : Condition) (l : List Condition) :
    ∃ time, findCondition new.type (setCondition new l) =
      some { new with lastTransitionTime := time } := by
  induction l with
  | nil => exact ⟨new.lastTransitionTime, List.find?_cons_of_pos (decide_eq_true rfl)⟩
  | cons c rest ih =>
      unfold setCondition
      by_cases htype : c.type = new.type
      · have hfound : findCondition new.type (c.succeed new :: rest) = some (c.succeed new) :=
          List.find?_cons_of_pos (decide_eq_true type_succeed)
        rw [if_pos htype, hfound, Condition.succeed]
        split
        · exact ⟨c.lastTransitionTime, rfl⟩
        · exact ⟨new.lastTransitionTime, rfl⟩
      · rw [if_neg htype, findCondition, List.find?_cons_of_neg (by simpa using htype)]
        exact ih

/-- A condition that has been set is found, with its status and its generation. -/
theorem findCondition_setCondition (new : Condition) (l : List Condition) :
    ∃ c, findCondition new.type (setCondition new l) = some c ∧ c.status = new.status ∧
      c.observedGeneration = new.observedGeneration := by
  obtain ⟨time, hfound⟩ := findCondition_setCondition_eq new l
  exact ⟨_, hfound, rfl, rfl⟩

theorem isConditionTrue_setCondition (new : Condition) (l : List Condition) :
    isConditionTrue new.type (setCondition new l) = decide (new.status = .isTrue) := by
  obtain ⟨c, hfound, hstatus, -⟩ := findCondition_setCondition new l
  rw [isConditionTrue, hfound, ← hstatus]
  rfl

namespace InMemory.ObjectKey

/-- Where the object of a declared resource is stored. -/
def ofIdentifier (i : ResourceIdentifier) : ObjectKey := ⟨i.resource, i.namespace, i.name⟩

theorem ofIdentifier_eq_of_key_eq {i j : ResourceIdentifier} (h : i.key = j.key) :
    ofIdentifier i = ofIdentifier j := by
  injection h with _ _ hresource hnamespace hname
  rw [ofIdentifier, hresource, hnamespace, hname]
  rfl

theorem ofTracked_eq_of_key_eq {r : TrackedResource} {i : ResourceIdentifier} (h : r.key = i.key) :
    ofTracked r = ofIdentifier i := by
  injection h with _ _ hresource hnamespace hname
  rw [ofTracked, hresource, hnamespace, hname]
  rfl

end InMemory.ObjectKey

namespace Apply

open InMemory

variable {previous : WorkStatus} {generation : Option Int} {clock : Nat → Timestamp} {ordinal : Nat}
  {outcomes : List Outcome}

def Outcome.isApplied (o : Outcome) : Bool := o.result.failure?.isNone

theorem status_condition (r : Result) (now : Timestamp) :
    decide ((r.condition now generation).status = .isTrue) = r.failure?.isNone := by
  unfold Result.condition
  cases r.failure? <;> rfl

theorem type_condition (r : Result) (now : Timestamp) :
    (r.condition now generation).type = appliedCondition := by
  unfold Result.condition
  cases r.failure? <;> rfl

/-- The manifests that are reported as applied are those that were. -/
theorem applied_manifestConditions :
    ((manifestConditions previous generation clock ordinal outcomes).filter fun m =>
        isConditionTrue appliedCondition m.conditions).map ManifestCondition.identifier =
      (outcomes.filter Outcome.isApplied).map Outcome.identifier := by
  induction outcomes generalizing ordinal with
  | nil => rfl
  | cons o rest ih =>
      have htrue : isConditionTrue appliedCondition (setCondition
          (o.result.condition (clock ordinal) generation) (conditionsOf ordinal previous)) =
          o.isApplied := by
        rw [← type_condition o.result (clock ordinal), isConditionTrue_setCondition, status_condition]
        rfl
      rw [manifestConditions, List.filter_cons, List.filter_cons]
      dsimp only
      rw [htrue]
      split
      · rw [List.map_cons, List.map_cons, ih]
      · exact ih

/-- Where the manifests that went through have their objects. -/
def places (outcomes : List Outcome) : List ObjectKey :=
  (outcomes.filter Outcome.isApplied).map fun o => .ofIdentifier o.identifier

/-- If all manifests that went through name their resources, these are declared. -/
theorem exists_mem_declared_report_iff {key : ObjectKey}
    (hresolved : ∀ o ∈ outcomes, o.isApplied → o.identifier.isResolved) :
    (∃ i ∈ (report previous generation clock outcomes).declared, ObjectKey.ofIdentifier i = key) ↔
      key ∈ places outcomes := by
  have hdeclared : (report previous generation clock outcomes).declared =
      firstByKey ResourceIdentifier.key
        ((outcomes.filter Outcome.isApplied).map Outcome.identifier) := by
    rw [WorkStatus.declared, report, applied_manifestConditions, List.filter_eq_self.2]
    intro i hi
    obtain ⟨o, ho, rfl⟩ := List.mem_map.1 hi
    exact hresolved o (List.mem_filter.1 ho).1 (List.mem_filter.1 ho).2
  rw [hdeclared, places, List.mem_map]
  constructor
  · rintro ⟨i, hi, rfl⟩
    obtain ⟨o, ho, rfl⟩ := List.mem_map.1 (mem_of_mem_firstByKey hi)
    exact ⟨o, ho, rfl⟩
  · rintro ⟨o, ho, rfl⟩
    obtain ⟨i, hi, hkey⟩ : ∃ i ∈ firstByKey ResourceIdentifier.key _, i.key = o.identifier.key :=
      exists_mem_firstByKey (List.mem_map_of_mem ho)
    exact ⟨i, hi, ObjectKey.ofIdentifier_eq_of_key_eq hkey⟩

end Apply

end MemberAgent
