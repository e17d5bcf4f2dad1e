import MemberAgent.Object.Metadata
import MemberAgent.Proofs.Json.Records
import Mathlib.Data.List.Forall2

/-! What typed readers accept. Beside each way to read there is a relation that says which values stand
for which data, and a reader gets from a value exactly what it stands for (`Reads`). So a value is well
typed if it stands for something, and metadata are made of such values (`reads_metadata`). -/

namespace MemberAgent.Json

variable {α β : Type} {read : Json → Reading α} {R : Json → α → Prop}

/-! ### Values and what they stand for -/

def IsText (j : Json) (s : String) : Prop := j = .str s

def IsBool (j : Json) (b : Bool) : Prop := j = .bool b

/-- Whole numbers of 64 bits, one of them for the sign. -/
def IsInt64 (j : Json) (n : Int) : Prop :=
  j = .int n ∧ -0x8000000000000000 ≤ n ∧ n ≤ 0x7fffffffffffffff

def IsTime (j : Json) (t : Timestamp) : Prop := ∃ s, j = .str s ∧ Timestamp.ofText s = .ok t

def IsSelf (j v : Json) : Prop := j = v

/-- Each item stands for one of the list, in the same order. -/
def IsList (R : Json → α → Prop) (j : Json) (l : List α) : Prop :=
  ∃ items, j = .arr items ∧ List.Forall₂ R items l

/-- Each field stands for the entry of its key, the last one if there are several of one key. -/
def IsMap (R : Json → α → Prop) (j : Json) (t : Table String α) : Prop :=
  ∃ fields entries, j = .obj fields ∧
    List.Forall₂ (fun f e => f.1 = e.1 ∧ R f.2 e.2) fields entries ∧ t = Table.ofList entries

/-- A field that may be missing stands for nothing if it is, and if it is null. -/
inductive Given (R : Json → α → Prop) : Option Json → Option α → Prop where
  | missing : Given R none none
  | null : Given R (some .null) none
  | value {j : Json} {a : α} (hnull : j ≠ .null) (h : R j a) : Given R (some j) (some a)

structure IsOwner (j : Json) (o : OwnerReference) : Prop where
  isObject : j.isObject = true
  apiVersion : ∃ v, Given IsText (j.get? "apiVersion") v ∧ o.apiVersion = v.getD ""
  blockOwnerDeletion : Given IsBool (j.get? "blockOwnerDeletion") o.blockOwnerDeletion
  controller : Given IsBool (j.get? "controller") o.controller
  kind : ∃ v, Given IsText (j.get? "kind") v ∧ o.kind = v.getD ""
  name : ∃ v, Given IsText (j.get? "name") v ∧ o.name = v.getD ""
  uid : ∃ v, Given IsText (j.get? "uid") v ∧ o.uid = v.getD ""

structure IsManager (j : Json) (m : ManagedFields) : Prop where
  isObject : j.isObject = true
  apiVersion : Given IsText (j.get? "apiVersion") m.apiVersion
  fieldsType : Given IsText (j.get? "fieldsType") m.fieldsType
  fieldsV1 : Given IsSelf (j.get? "fieldsV1") m.fieldsV1
  manager : Given IsText (j.get? "manager") m.manager
  operation : Given IsText (j.get? "operation") m.operation
  subresource : Given IsText (j.get? "subresource") m.subresource
  time : Given IsTime (j.get? "time") m.time

/-- Metadata are an object, and what it says under other keys than these does not count. -/
structure IsMetadata (j : Json) (m : ObjectMeta) : Prop where
  isObject : j.isObject = true
  annotations : Given (IsMap IsText) (j.get? "annotations") m.annotations
  creationTimestamp : Given IsTime (j.get? "creationTimestamp") m.creationTimestamp
  deletionGracePeriodSeconds :
    Given IsInt64 (j.get? "deletionGracePeriodSeconds") m.deletionGracePeriodSeconds
  deletionTimestamp : Given IsTime (j.get? "deletionTimestamp") m.deletionTimestamp
  finalizers : Given (IsList IsText) (j.get? "finalizers") m.finalizers
  generateName : Given IsText (j.get? "generateName") m.generateName
  generation : Given IsInt64 (j.get? "generation") m.generation
  labels : Given (IsMap IsText) (j.get? "labels") m.labels
  managedFields : Given (IsList IsManager) (j.get? "managedFields") m.managedFields
  name : Given IsText (j.get? "name") m.name
  «namespace» : Given IsText (j.get? "namespace") m.namespace
  ownerReferences : Given (IsList IsOwner) (j.get? "ownerReferences") m.ownerReferences
  resourceVersion : Given IsText (j.get? "resourceVersion") m.resourceVersion
  selfLink : Given IsText (j.get? "selfLink") m.selfLink
  uid : Given IsText (j.get? "uid") m.uid

theorem Given.some_iff {v : Option Json} {a : α} :
    Given R v (some a) ↔ ∃ j, v = some j ∧ j ≠ .null ∧ R j a := by
  constructor
  · intro h
    cases h with
    | value hnull h => exact ⟨_, rfl, hnull, h⟩
  · rintro ⟨j, rfl, hnull, h⟩
    exact .value hnull h

theorem Given.exists_eq_some {j : Json} {v : Option α} (h : Given R (some j) v)
    (hnull : j ≠ .null) : ∃ a, v = some a ∧ R j a := by
  cases h with
  | null => exact absurd rfl hnull
  | value _ h => exact ⟨_, rfl, h⟩

/-! ### Readers -/

/-- A reader gets from a value what it stands for, and fails on values that stand for nothing. -/
def Reads (read : Json → Reading α) (R : Json → α → Prop) : Prop := ∀ j a, read j = .ok a ↔ R j a

theorem bind_eq_ok_iff {x : Reading α} {f : α → Reading β} {b : β} :
    x >>= f = .ok b ↔ ∃ a, x = .ok a ∧ f a = .ok b := by
  refine ⟨bind_eq_ok, ?_⟩
  rintro ⟨a, rfl, h⟩
  exact h

theorem map_eq_ok_iff {x : Reading α} {f : α → β} {b : β} :
    f <$> x = .ok b ↔ ∃ a, x = .ok a ∧ f a = b := by
  cases x with
  | error e => exact ⟨nofun, nofun⟩
  | ok a =>
      constructor
      · intro h
        exact ⟨a, rfl, Except.ok.inj h⟩
      · rintro ⟨a', h, rfl⟩
        cases h
        rfl

/-- The path to a value at fault is all that is added on the way. -/
theorem within_eq_ok_iff {step : Step} {x : Reading α} {a : α} :
    within step x = .ok a ↔ x = .ok a := by
  cases x with
  | error e => exact ⟨nofun, nofun⟩
  | ok b => exact Iff.rfl

theorem reads_text : Reads asText IsText := by
  intro j s
  cases j with
  | str t => simp [asText, IsText]
  | _ => exact ⟨nofun, nofun⟩

theorem reads_bool : Reads asBool IsBool := by
  intro j b
  cases j with
  | bool c => simp [asBool, IsBool]
  | _ => exact ⟨nofun, nofun⟩

theorem reads_int64 : Reads asInt64 IsInt64 := by
  intro j n
  cases j with
  | int m =>
      show (if _ then _ else _) = _ ↔ _
      split
      · next hbounds =>
          constructor
          · rintro ⟨⟩
            exact ⟨rfl, hbounds⟩
          · rintro ⟨⟨⟩, -⟩
            rfl
      · next hbounds =>
          refine ⟨nofun, ?_⟩
          rintro ⟨⟨⟩, hinside⟩
          exact absurd hinside hbounds
  | _ => exact ⟨nofun, nofun⟩

theorem reads_time : Reads asTimestamp IsTime := by
  intro j t
  cases j with
  | str s =>
      have hread : asTimestamp (.str s) = .ok t ↔ Timestamp.ofText s = .ok t := by
        rw [asTimestamp]
        cases Timestamp.ofText s with
        | error e => exact ⟨nofun, nofun⟩
        | ok u => simp
      rw [hread]
      constructor
      · exact fun h => ⟨s, rfl, h⟩
      · rintro ⟨_, ⟨⟩, h⟩
        exact h
  | _ => exact ⟨nofun, nofun⟩

theorem reads_any : Reads asAny IsSelf := fun j v => by simp [asAny, IsSelf]

theorem readItems_eq_ok_iff (hread : Reads read R) {items : List Json} {index : Nat} {l : List α} :
    readItems read index items = .ok l ↔ List.Forall₂ R items l := by
  induction items generalizing index l with
  | nil => simp [readItems, eq_comm]
  | cons j items ih =>
      rw [readItems, bind_eq_ok_iff, List.forall₂_cons_left_iff]
      simp only [within_eq_ok_iff, hread j, bind_eq_ok_iff, ih]
      constructor
      · rintro ⟨a, ha, rest, hrest, ⟨⟩⟩
        exact ⟨a, rest, ha, hrest, rfl⟩
      · rintro ⟨a, rest, ha, hrest, rfl⟩
        exact ⟨a, ha, rest, hrest, rfl⟩

theorem reads_list (hread : Reads read R) : Reads (asList read) (IsList R) := by
  intro j l
  cases j with
  | arr items =>
      refine (readItems_eq_ok_iff hread).trans ⟨fun h => ⟨items, rfl, h⟩, ?_⟩
      rintro ⟨_, ⟨⟩, h⟩
      exact h
  | _ => exact ⟨nofun, nofun⟩

theorem readEntries_eq_ok_iff (hread : Reads read R) {fields : List (String × Json)}
    {entries : List (String × α)} : readEntries read fields = .ok entries ↔
      List.Forall₂ (fun f e => f.1 = e.1 ∧ R f.2 e.2) fields entries := by
  induction fields generalizing entries with
  | nil => simp [readEntries, eq_comm]
  | cons f fields ih =>
      rw [readEntries, bind_eq_ok_iff, List.forall₂_cons_left_iff]
      simp only [within_eq_ok_iff, hread f.2, bind_eq_ok_iff, ih]
      constructor
      · rintro ⟨a, ha, rest, hrest, ⟨⟩⟩
        exact ⟨(f.1, a), rest, ⟨rfl, ha⟩, hrest, rfl⟩
      · rintro ⟨⟨_, a⟩, rest, ⟨rfl, ha⟩, hrest, rfl⟩
        exact ⟨a, ha, rest, hrest, rfl⟩

theorem reads_map (hread : Reads read R) : Reads (asTable read) (IsMap R) := by
  intro j t
  cases j with
  | obj fields =>
      show Table.ofList <$> readEntries read fields = .ok t ↔ _
      simp only [map_eq_ok_iff, readEntries_eq_ok_iff hread]
      constructor
      · rintro ⟨entries, h, rfl⟩
        exact ⟨fields, entries, rfl, h, rfl⟩
      · rintro ⟨_, entries, ⟨⟩, h, rfl⟩
        exact ⟨entries, h, rfl⟩
  | _ =>
      constructor
      · rintro ⟨⟩
      · rintro ⟨_, _, ⟨⟩, _⟩

theorem field?_eq_ok_iff (hread : Reads read R) {fields : List (String × Json)} {key : String}
    {v : Option α} : field? fields key read = .ok v ↔
      (fields.lookup key = none ∧ v = none) ∨ ∃ j a, fields.lookup key = some j ∧ R j a ∧ v = some a := by
  rw [field?]
  cases fields.lookup key with
  | none => simp [eq_comm]
  | some j =>
      simp only [within_eq_ok_iff, map_eq_ok_iff, hread j]
      simp [eq_comm]

theorem optional_eq_ok_iff (hread : Reads read R) {fields : List (String × Json)} {key : String}
    {v : Option α} : optional fields key read = .ok v ↔ Given R (fields.lookup key) v := by
  rw [optional, field?]
  cases fields.lookup key with
  | none =>
      constructor
      · rintro ⟨⟩
        exact .missing
      · rintro ⟨⟩
        rfl
  | some j =>
      simp only [map_eq_ok_iff, within_eq_ok_iff]
      by_cases hnull : j = .null
      · subst hnull
        constructor
        · rintro ⟨_, ⟨_, ⟨⟩, rfl⟩, rfl⟩
          exact .null
        · intro h
          cases h with
          | null => exact ⟨_, ⟨_, rfl, rfl⟩, rfl⟩
          | value hnull _ => exact absurd rfl hnull
      · rw [asOption_of_ne_null hnull]
        simp only [map_eq_ok_iff, hread j]
        constructor
        · rintro ⟨_, ⟨_, ⟨a, ha, rfl⟩, rfl⟩, rfl⟩
          exact .value hnull ha
        · intro h
          obtain ⟨a, rfl, ha⟩ := h.exists_eq_some hnull
          exact ⟨_, ⟨_, ⟨_, ha, rfl⟩, rfl⟩, rfl⟩

theorem reads_owner : Reads OwnerReference.ofJson IsOwner := by
  intro j o
  cases j with
  | obj fields =>
      show OwnerReference.ofFields fields = .ok o ↔ _
      simp only [OwnerReference.ofFields, bind_eq_ok_iff, optional_eq_ok_iff reads_text,
        optional_eq_ok_iff reads_bool]
      constructor
      · rintro ⟨apiVersion, hversion, _, hblock, _, hcontroller, kind, hkind, name, hname, uid, huid,
          ⟨⟩⟩
        exact ⟨rfl, ⟨_, hversion, rfl⟩, hblock, hcontroller, ⟨_, hkind, rfl⟩, ⟨_, hname, rfl⟩,
          ⟨_, huid, rfl⟩⟩
      · rintro ⟨-, ⟨_, hversion, hv⟩, hblock, hcontroller, ⟨_, hkind, hk⟩, ⟨_, hname, hn⟩,
          ⟨_, huid, hu⟩⟩
        cases o
        cases hv
        cases hk
        cases hn
        cases hu
        exact ⟨_, hversion, _, hblock, _, hcontroller, _, hkind, _, hname, _, huid, rfl⟩
  | _ => exact ⟨nofun, fun h => nomatch h.isObject⟩

theorem reads_manager : Reads ManagedFields.ofJson IsManager := by
  intro j m
  cases j with
  | obj fields =>
      show ManagedFields.ofFields fields = .ok m ↔ _
      simp only [ManagedFields.ofFields, bind_eq_ok_iff, optional_eq_ok_iff reads_text,
        optional_eq_ok_iff reads_any, optional_eq_ok_iff reads_time]
      constructor
      · rintro ⟨_, hversion, _, htype, _, hfields, _, hmanager, _, hoperation, _, hsubresource, _,
          htime, ⟨⟩⟩
        exact ⟨rfl, hversion, htype, hfields, hmanager, hoperation, hsubresource, htime⟩
      · rintro ⟨-, hversion, htype, hfields, hmanager, hoperation, hsubresource, htime⟩
        exact ⟨_, hversion, _, htype, _, hfields, _, hmanager, _, hoperation, _, hsubresource, _,
          htime, rfl⟩
  | _ => exact ⟨nofun, fun h => nomatch h.isObject⟩

theorem reads_metadata : Reads ObjectMeta.ofJson IsMetadata := by
  intro j m
  cases j with
  | obj fields =>
      show ObjectMeta.ofFields fields = .ok m ↔ _
      simp only [ObjectMeta.ofFields, bind_eq_ok_iff, optional_eq_ok_iff reads_text,
        optional_eq_ok_iff reads_int64, optional_eq_ok_iff reads_time,
        optional_eq_ok_iff (reads_map reads_text), optional_eq_ok_iff (reads_list reads_text),
        optional_eq_ok_iff (reads_list reads_manager), optional_eq_ok_iff (reads_list reads_owner)]
      constructor
      · rintro ⟨_, hannotations, _, hcreation, _, hgrace, _, hdeletion, _, hfinalizers, _, hgenerate,
          _, hgeneration, _, hlabels, _, hmanaged, _, hname, _, hnamespace, _, howners, _, hversion,
          _, hlink, _, huid, ⟨⟩⟩
        exact ⟨rfl, hannotations, hcreation, hgrace, hdeletion, hfinalizers, hgenerate, hgeneration,
          hlabels, hmanaged, hname, hnamespace, howners, hversion, hlink, huid⟩
      · rintro ⟨-, hannotations, hcreation, hgrace, hdeletion, hfinalizers, hgenerate, hgeneration,
          hlabels, hmanaged, hname, hnamespace, howners, hversion, hlink, huid⟩
        exact ⟨_, hannotations, _, hcreation, _, hgrace, _, hdeletion, _, hfinalizers, _, hgenerate,
          _, hgeneration, _, hlabels, _, hmanaged, _, hname, _, hnamespace, _, howners, _, hversion,
          _, hlink, _, huid, rfl⟩
  | _ => exact ⟨nofun, fun h => nomatch h.isObject⟩

end MemberAgent.Json
