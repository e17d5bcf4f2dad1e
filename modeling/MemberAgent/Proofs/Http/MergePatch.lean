import MemberAgent.Object.Metadata

/-! Merge patches: values that say of some fields of an object what they are to be, and leave the other
fields alone. A field is known by its key, so everything here is about lookups, in objects whose keys
are distinct. -/

namespace MemberAgent.Json

theorem lookup_eq_some_iff_mem {ν : Type} {l : List (String × ν)} (h : (l.map Prod.fst).Nodup)
    {key : String} {v : ν} : l.lookup key = some v ↔ (key, v) ∈ l := by
  induction l with
  | nil => simp
  | cons e rest ih =>
      obtain ⟨first, value⟩ := e
      obtain ⟨hfirst, hrest⟩ := List.nodup_cons.1 h
      rw [List.lookup_cons, List.mem_cons, Prod.mk.injEq]
      by_cases hkey : key = first
      · subst hkey
        have hnot : (key, v) ∉ rest := fun hm => hfirst (List.mem_map.2 ⟨_, hm, rfl⟩)
        simp [hnot, eq_comm]
      · simp [beq_eq_false_iff_ne.2 hkey, hkey, ih hrest]

theorem lookup_eq_none {ν : Type} {l : List (String × ν)} {key : String}
    (h : key ∉ l.map Prod.fst) : l.lookup key = none :=
  List.lookup_eq_none_iff.2 fun e he =>
    bne_iff_ne.2 fun heq => h (List.mem_map.2 ⟨e, he, heq.symm⟩)

/-- The value of a field, null if there is none. -/
def part (j : Json) (key : String) : Json := (j.get? key).getD .null

/-- Whether no two fields of an object have the same key. -/
def Distinct (j : Json) : Prop := (j.fields.map Prod.fst).Nodup

theorem get?_eq_some_iff {j : Json} (h : j.Distinct) {key : String} {v : Json} :
    j.get? key = some v ↔ (key, v) ∈ j.fields :=
  lookup_eq_some_iff_mem h

theorem nodup_of_sorted {keys : List String} (h : keys.Pairwise fun a b => compare a b = .lt) :
    keys.Nodup := by
  refine h.imp fun {a b} hlt he => ?_
  have hsame : compare b b = .eq := Std.ReflCmp.compare_self
  rw [he, hsame] at hlt
  cases hlt

theorem distinct_object (t : Table String Json) : (object t).Distinct :=
  nodup_of_sorted (List.pairwise_map.2 t.sorted)

@[simp] theorem get?_object (t : Table String Json) (key : String) : (object t).get? key = t.get? key :=
  Option.ext fun _ => (get?_eq_some_iff (distinct_object t)).trans Table.get?_eq_some_iff.symm

/-- The keys of a record are those of its entries that are there. -/
theorem keys_record_sublist (entries : List (String × Option Json)) :
    ((record entries).fields.map Prod.fst).Sublist (entries.map Prod.fst) := by
  show ((entries.filterMap _).map Prod.fst).Sublist (entries.map Prod.fst)
  induction entries with
  | nil => exact List.Sublist.refl _
  | cons e rest ih =>
      rcases e with ⟨key, _ | v⟩
      · exact ih.cons key
      · exact ih.cons_cons key

theorem distinct_record {entries : List (String × Option Json)}
    (h : (entries.map Prod.fst).Nodup) : (record entries).Distinct :=
  (keys_record_sublist entries).nodup h

theorem get?_record {entries : List (String × Option Json)} (h : (entries.map Prod.fst).Nodup)
    (key : String) : (record entries).get? key = (entries.lookup key).join := by
  refine Option.ext fun v => (get?_eq_some_iff (distinct_record h)).trans ?_
  rw [Option.join_eq_some_iff, lookup_eq_some_iff_mem h]
  constructor
  · intro hm
    obtain ⟨⟨first, value⟩, hmem, hvalue⟩ := List.mem_filterMap.1 hm
    obtain ⟨v', rfl, he⟩ := Option.map_eq_some_iff.1 hvalue
    cases he
    exact hmem
  · exact fun hm => List.mem_filterMap.2 ⟨_, hm, rfl⟩

/-- Of several values under one key the last one counts. -/
theorem get?_ofList (fields : List (String × Json)) (key : String) :
    (Table.ofList fields).get? key = fields.reverse.lookup key := by
  suffices h : ∀ t : Table String Json, (fields.foldl (fun t e => t.insert e.1 e.2) t).get? key =
      (fields.reverse.lookup key).or (t.get? key) from (h ∅).trans (Option.or_none)
  induction fields with
  | nil => exact fun t => rfl
  | cons e rest ih =>
      intro t
      rw [List.foldl_cons, ih, Table.get?_insert, List.reverse_cons, List.lookup_append,
        Option.or_assoc]
      congr 1
      by_cases hkey : e.1 = key
      · subst hkey
        rw [if_pos rfl, List.lookup_cons_self, Option.some_or]
      · rw [if_neg hkey, List.lookup_cons, beq_eq_false_iff_ne.2 (Ne.symm hkey)]
        rfl

theorem get?_ofList_fields {j : Json} (h : j.Distinct) (key : String) :
    (Table.ofList j.fields).get? key = j.get? key := by
  have hreverse : (j.fields.reverse.map Prod.fst).Nodup := by
    rw [List.map_reverse]
    exact List.pairwise_reverse.2 (List.Pairwise.imp Ne.symm h)
  refine (get?_ofList j.fields key).trans (Option.ext fun v => ?_)
  rw [lookup_eq_some_iff_mem hreverse, List.mem_reverse, get?_eq_some_iff h]

mutual

/-- What a patch makes of a value. The fields of the patch are merged one by one, and taken away where
it has null; any other patch, a list too, takes the place of the value. -/
def mergePatch (target : Json) : Json → Json
  | .obj patch => object (mergeFields (Table.ofList target.fields) patch)
  | value => value

def mergeFields (target : Table String Json) : List (String × Json) → Table String Json
  | [] => target
  | (key, value) :: patch =>
    mergeFields
      (if value = .null then target.erase key
        else target.insert key (mergePatch ((target.get? key).getD .null) value))
      patch

end

/-- What becomes of a field, by what the patch says of it. -/
def mergedField (target : Option Json) : Option Json → Option Json
  | none => target
  | some value => if value = .null then none else some (mergePatch (target.getD .null) value)

theorem get?_mergeFields {patch : List (String × Json)} (h : (patch.map Prod.fst).Nodup)
    (target : Table String Json) (key : String) :
    (mergeFields target patch).get? key = mergedField (target.get? key) (patch.lookup key) := by
  induction patch generalizing target with
  | nil => rfl
  | cons e rest ih =>
      obtain ⟨first, value⟩ := e
      obtain ⟨hfirst, hrest⟩ := List.nodup_cons.1 h
      rw [mergeFields, ih hrest, List.lookup_cons]
      by_cases hkey : key = first
      · subst hkey
        rw [lookup_eq_none hfirst, beq_self_eq_true]
        by_cases hnull : value = .null <;> simp [mergedField, hnull]
      · rw [beq_eq_false_iff_ne.2 hkey]
        by_cases hnull : value = .null <;> simp [hnull, Ne.symm hkey]

/-- A patch changes each field by what it says of that field. -/
theorem get?_mergePatch {target : Json} (htarget : target.Distinct) {patch : List (String × Json)}
    (hpatch : (patch.map Prod.fst).Nodup) (key : String) :
    (mergePatch target (.obj patch)).get? key = mergedField (target.get? key) (patch.lookup key) := by
  rw [mergePatch, get?_object, get?_mergeFields hpatch, get?_ofList_fields htarget]

theorem distinct_mergePatch (target : Json) (patch : List (String × Json)) :
    (mergePatch target (.obj patch)).Distinct :=
  mergePatch.eq_1 .. ▸ distinct_object _

/-- A patch takes the place of an object that has no other fields, when it has nothing but lists. -/
theorem mergePatch_of_covered {target : Json} (htarget : target.Distinct)
    {patch : List (String × Json)} (hsorted : patch.Pairwise fun a b => compare a.1 b.1 = .lt)
    (hcovered : ∀ key, key ∉ patch.map Prod.fst → target.get? key = none)
    (hlists : ∀ e ∈ patch, ∃ l, e.2 = .arr l) : mergePatch target (.obj patch) = .obj patch := by
  let whole : Table String Json := ⟨patch, hsorted⟩
  have hpatch : (patch.map Prod.fst).Nodup := distinct_object whole
  have hlookup : ∀ key, whole.get? key = patch.lookup key := fun key => (get?_object whole key).symm
  rw [mergePatch]
  refine congrArg object (?_ : _ = whole)
  refine Table.ext_get? fun key => ?_
  rw [get?_mergeFields hpatch, get?_ofList_fields htarget, hlookup]
  cases hvalue : patch.lookup key with
  | none =>
      refine hcovered key fun hm => ?_
      obtain ⟨e, he, rfl⟩ := List.mem_map.1 hm
      cases hvalue.symm.trans ((lookup_eq_some_iff_mem hpatch).2 he)
  | some value =>
      obtain ⟨l, rfl⟩ := hlists _ ((lookup_eq_some_iff_mem hpatch).1 hvalue)
      rfl

/-- Where all values are written as objects of lists under the same keys, the new one takes the place
of the old one, if there is one. -/
theorem mergePatch_lists {α : Type} (json : α → Json) {keys : List String}
    (hobject : ∀ a, json a = .obj (json a).fields)
    (hkeys : ∀ a, (json a).fields.map Prod.fst = keys)
    (hsorted : keys.Pairwise fun a b => compare a b = .lt)
    (hlists : ∀ a, ∀ e ∈ (json a).fields, ∃ l, e.2 = .arr l) (before : Option α) (after : α) :
    mergePatch ((before.map json).getD .null) (json after) = json after := by
  have hinOrder : ∀ a, (json a).fields.Pairwise fun a b => compare a.1 b.1 = .lt := fun a =>
    List.pairwise_map.1 (hkeys a ▸ hsorted)
  rw [hobject after]
  cases before with
  | none =>
      have hdistinct : Json.null.Distinct := List.nodup_nil
      exact mergePatch_of_covered hdistinct (hinOrder after) (fun _ _ => rfl) (hlists after)
  | some a =>
      have hdistinct : (json a).Distinct := distinct_object ⟨(json a).fields, hinOrder a⟩
      refine mergePatch_of_covered hdistinct (hinOrder after) (fun key hkey => ?_) (hlists after)
      rw [hkeys, ← hkeys a] at hkey
      exact lookup_eq_none hkey

example : mergePatch (.obj [("a", .obj [("b", .int 1), ("c", .arr [.int 2])]), ("d", .null)])
    (.obj [("a", .obj [("b", .null), ("c", .arr [])]), ("e", .str "f")]) =
      .obj [("a", .obj [("c", .arr [])]), ("d", .null), ("e", .str "f")] := by
  decide +kernel

end MemberAgent.Json
