import MemberAgent.Manifest
import MemberAgent.Proofs.Http.Document
import MemberAgent.Proofs.Json.Typed

/-! What a manifest declares. A document is a manifest if it says what kind of object it is, in which
version and under which name, and its metadata are well typed. What is decoded of it is its type, its
metadata and all its other fields as they are (`Manifest.decode?_eq_ok_iff`), and an object that is
written again with other metadata has those fields still (`Json.Declares.get?_json`). -/

namespace MemberAgent

open Json

namespace ApiObject

/-- The fields that are read into an object's type and its metadata, the others being its content. -/
def headKeys : List String := ["apiVersion", "kind", "metadata"]

/-- Whether no field of the head is among the content as well. -/
def IsPlain (o : ApiObject) : Prop := ∀ key ∈ headKeys, o.content.get? key = none

theorem lookup_reverse_toList (t : Table String Json) (key : String) :
    t.toList.reverse.lookup key = t.get? key := by
  have hlast : (Table.ofList (object t).fields).get? key = t.get? key :=
    (get?_ofList_fields (distinct_object t) key).trans (get?_object t key)
  rw [← hlast]
  exact (get?_ofList t.toList key).symm

/-- What an object says of itself before its content. -/
def head (o : ApiObject) : List (String × Json) :=
  ("metadata", o.metadata.json) :: match o.types with
    | some t => [("kind", .str t.kind), ("apiVersion", .str t.apiVersion)]
    | none => []

theorem get?_fields (o : ApiObject) (key : String) :
    o.fields.get? key = (o.content.get? key).or (o.head.lookup key) := by
  rw [fields, get?_ofList, List.reverse_append, List.reverse_cons, List.append_assoc,
    List.lookup_append, lookup_reverse_toList, head]
  cases o.types <;> rfl

namespace IsPlain

variable {o : ApiObject}

theorem get?_metadata (h : o.IsPlain) : o.fields.get? "metadata" = some o.metadata.json := by
  rw [get?_fields, h _ (by decide)]
  rfl

theorem get?_apiVersion (h : o.IsPlain) :
    o.fields.get? "apiVersion" = o.types.map fun t => .str t.apiVersion := by
  rw [get?_fields, h _ (by decide), head]
  cases o.types <;> rfl

theorem get?_kind (h : o.IsPlain) : o.fields.get? "kind" = o.types.map fun t => .str t.kind := by
  rw [get?_fields, h _ (by decide), head]
  cases o.types <;> rfl

end IsPlain

theorem get?_content (o : ApiObject) {key : String} (hkey : key ∉ headKeys) :
    o.fields.get? key = o.content.get? key := by
  have hhead : o.head.lookup key = none := lookup_eq_none fun hm => hkey <| by
    rw [head] at hm
    cases ht : o.types <;> rw [ht] at hm <;> simp_all [headKeys]
  rw [get?_fields, hhead, Option.or_none]

end ApiObject

open ApiObject

namespace Json

/-- What a document declares: its type, both parts of it not empty, metadata with a name, and the rest
of its fields as they are. -/
structure Declares (d : Json) (o : ApiObject) : Prop where
  types : ∃ t, o.types = some t ∧
    (d.get? "apiVersion" = some (.str t.apiVersion) ∧ t.apiVersion ≠ "") ∧
    d.get? "kind" = some (.str t.kind) ∧ t.kind ≠ ""
  metadata : ∃ j, d.get? "metadata" = some j ∧ j.IsMetadata o.metadata
  named : ∃ name, o.metadata.name = some name ∧ name ≠ ""
  content : o.content = Table.ofList (d.fields.filter fun f => f.1 ∉ headKeys)

/-- Whether a document declares an object, said of the document alone. -/
structure IsManifest (d : Json) : Prop where
  isObject : d.isObject = true
  apiVersion : ∃ s, d.get? "apiVersion" = some (.str s) ∧ s ≠ ""
  kind : ∃ s, d.get? "kind" = some (.str s) ∧ s ≠ ""
  metadata : ∃ j, d.get? "metadata" = some j ∧ (∃ m, j.IsMetadata m) ∧
    ∃ s, j.get? "name" = some (.str s) ∧ s ≠ ""

end Json

namespace Json.Declares

variable {d : Json} {o : ApiObject}

theorem isPlain (h : d.Declares o) : o.IsPlain := by
  intro key hkey
  rw [h.content, get?_ofList]
  refine lookup_eq_none fun hm => ?_
  obtain ⟨f, hf, rfl⟩ := List.mem_map.1 hm
  exact of_decide_eq_true (List.mem_filter.1 (List.mem_reverse.1 hf)).2 hkey

theorem get?_content (h : d.Declares o) (hd : d.Distinct) {key : String} (hkey : key ∉ headKeys) :
    o.content.get? key = d.get? key := by
  have hrest : Distinct (.obj (d.fields.filter fun f => f.1 ∉ headKeys)) :=
    (List.filter_sublist.map Prod.fst).nodup hd
  rw [h.content]
  refine (get?_ofList_fields hrest key).trans (Option.ext fun v => ?_)
  rw [get?_eq_some_iff hrest, get?_eq_some_iff hd]
  show (key, v) ∈ List.filter _ _ ↔ _
  simp [hkey]

/-- An object that differs in its metadata alone says the same in all other fields. -/
theorem get?_json (h : d.Declares o) (hd : d.Distinct) {written : ApiObject}
    (htypes : written.types = o.types) (hcontent : written.content = o.content) {key : String}
    (hkey : key ≠ "metadata") : written.json.get? key = d.get? key := by
  have hplain : written.IsPlain := fun key hkey => hcontent ▸ h.isPlain key hkey
  obtain ⟨t, ht, ⟨hversion, -⟩, hkind, -⟩ := h.types
  rw [ApiObject.json, get?_object]
  by_cases hhead : key ∈ headKeys
  · rcases List.mem_cons.1 hhead with rfl | hhead
    · rw [hplain.get?_apiVersion, htypes, ht, hversion]
      rfl
    · rcases List.mem_cons.1 hhead with rfl | hhead
      · rw [hplain.get?_kind, htypes, ht, hkind]
        rfl
      · exact absurd (List.mem_singleton.1 hhead) hkey
  · rw [ApiObject.get?_content _ hhead, hcontent, h.get?_content hd hhead]

end Json.Declares

/-! ### Decoding -/

theorem ApiObject.typesOf_eq_iff {fields : List (String × Json)} {t : TypeMeta}
    {names : List String} : typesOf fields = (some t, names) ↔
      fields.lookup "apiVersion" = some (.str t.apiVersion) ∧
        fields.lookup "kind" = some (.str t.kind) ∧ names = ["apiVersion", "kind"] := by
  constructor
  · intro h
    unfold typesOf at h
    split at h
    · next hversion hkind =>
        cases h
        exact ⟨hversion, hkind, rfl⟩
    all_goals cases h
  · rintro ⟨hversion, hkind, rfl⟩
    rw [typesOf, hversion, hkind]

/-- What is left of the fields once the head has been taken out. -/
theorem ApiObject.filter_head {fields : List (String × Json)} {names : List String}
    (hnames : names = ["apiVersion", "kind"]) :
    (fields.filter fun f => f.1 ≠ "metadata" ∧ f.1 ∉ names) =
      fields.filter fun f => f.1 ∉ headKeys := by
  refine List.filter_congr fun f _ => ?_
  simp only [hnames, headKeys, List.mem_cons, List.not_mem_nil, or_false, not_or, decide_eq_decide]
  tauto

theorem ApiObject.ofJson_eq_ok_iff {fields : List (String × Json)} {o : ApiObject} :
    ApiObject.ofJson (.obj fields) = .ok o ↔
      ∃ metadata, field? fields "metadata" ObjectMeta.ofJson = .ok metadata ∧
        o =
          { types := (typesOf fields).1
            metadata := metadata.getD {}
            content := Table.ofList
              (fields.filter fun f => f.1 ≠ "metadata" ∧ f.1 ∉ (typesOf fields).2) } := by
  show ApiObject.ofFields fields = _ ↔ _
  simp only [ApiObject.ofFields, bind_eq_ok_iff]
  constructor
  · rintro ⟨metadata, hmetadata, ⟨⟩⟩
    exact ⟨metadata, hmetadata, rfl⟩
  · rintro ⟨metadata, hmetadata, rfl⟩
    exact ⟨metadata, hmetadata, rfl⟩

namespace Manifest

variable {d : Json} {o : ApiObject}

/-- An object that was read is a manifest's if it has a type and a name. -/
theorem decode?_eq_ok_iff_ofJson : decode? d = .ok o ↔ ApiObject.ofJson d = .ok o ∧
    (∃ t, o.types = some t ∧ t.apiVersion ≠ "" ∧ t.kind ≠ "") ∧
      ∃ name, o.metadata.name = some name ∧ name ≠ "" := by
  unfold decode?
  simp only [bind, Except.bind, pure, Except.pure, throw, throwThe, MonadExceptOf.throw]
  constructor
  · intro h
    -- the checks that fail throw, and an object that passes them all is what was read
    repeat' split at h
    all_goals cases h
    next types htyped hread htypes hnamed =>
      simp only [Bool.or_eq_true, String.isEmpty_iff, not_or] at htyped hnamed
      refine ⟨hread, ⟨types, htypes, htyped⟩, ?_⟩
      cases hname : o.metadata.name with
      | none => exact absurd (congrArg (Option.getD · "") hname) hnamed
      | some name => exact ⟨name, rfl, fun he => hnamed (by rw [hname, he]; rfl)⟩
  · rintro ⟨hread, ⟨t, ht, hversion, hkind⟩, name, hname, hnamed⟩
    cases d with
    | obj fields => simp [hread, ht, hversion, hkind, hname, hnamed, isObject]
    | _ => cases hread

/-- What is decoded is what the document declares. -/
theorem decode?_eq_ok_iff : decode? d = .ok o ↔ d.Declares o := by
  rw [decode?_eq_ok_iff_ofJson]
  cases d with
  | obj fields =>
      rw [ApiObject.ofJson_eq_ok_iff]
      constructor
      · rintro ⟨⟨metadata, hmetadata, rfl⟩, ⟨t, htypes, hversion, hkind⟩, hnamed⟩
        obtain ⟨hversion', hkind', hnames⟩ := typesOf_eq_iff.1 (Prod.ext htypes rfl)
        refine ⟨⟨t, htypes, ⟨hversion', hversion⟩, hkind', hkind⟩, ?_, hnamed, ?_⟩
        · rcases (field?_eq_ok_iff reads_metadata).1 hmetadata with
            ⟨-, rfl⟩ | ⟨j, m, hlookup, hm, rfl⟩
          · obtain ⟨name, hname, -⟩ := hnamed
            cases hname
          · exact ⟨j, hlookup, hm⟩
        · exact congrArg Table.ofList (filter_head hnames)
      · rintro ⟨⟨t, htypes, ⟨hversion', hversion⟩, hkind', hkind⟩, ⟨j, hlookup, hm⟩, hnamed, hcontent⟩
        have htypes' : typesOf fields = (some t, ["apiVersion", "kind"]) :=
          typesOf_eq_iff.2 ⟨hversion', hkind', rfl⟩
        have hmetadata : field? fields "metadata" ObjectMeta.ofJson = .ok (some o.metadata) :=
          (field?_eq_ok_iff reads_metadata).2 (.inr ⟨j, _, hlookup, hm, rfl⟩)
        refine ⟨⟨_, hmetadata, ?_⟩, ⟨t, htypes, hversion, hkind⟩, hnamed⟩
        rw [filter_head (congrArg Prod.snd htypes'), htypes', ← htypes]
        cases o
        cases hcontent
        rfl
  | _ =>
      constructor
      · rintro ⟨⟨⟩, -⟩
      · rintro ⟨⟨_, _, ⟨⟨⟩, _⟩, _⟩, _⟩

/-- The number of a manifest only counts for the message when it cannot be decoded. -/
theorem decode_eq_ok_iff {ordinal : Nat} : decode ordinal d = .ok o ↔ d.Declares o := by
  rw [← decode?_eq_ok_iff, decode]
  cases decode? d with
  | error fault => exact ⟨nofun, nofun⟩
  | ok object => constructor <;> rintro ⟨⟩ <;> rfl

/-- A document declares an object if it is a manifest. -/
theorem exists_declares_iff : (∃ o, d.Declares o) ↔ d.IsManifest := by
  constructor
  · rintro ⟨o, ⟨t, -, hversion, hkind⟩, ⟨j, hlookup, hm⟩, ⟨name, hname, hnamed⟩, -⟩
    have hgiven := hm.name
    rw [hname, Given.some_iff] at hgiven
    obtain ⟨_, hj, -, rfl⟩ := hgiven
    refine ⟨?_, ⟨_, hversion⟩, ⟨_, hkind⟩, j, hlookup, ⟨_, hm⟩, name, hj, hnamed⟩
    cases d with
    | obj fields => rfl
    | _ => cases hlookup
  · rintro ⟨-, ⟨version, hversion⟩, ⟨kind, hkind⟩, j, hlookup, ⟨m, hm⟩, name, hj, hnamed⟩
    have hname : m.name = some name := by
      have hgiven : Given IsText (some (.str name)) m.name := hj ▸ hm.name
      obtain ⟨_, hname, ⟨⟩⟩ := hgiven.exists_eq_some (by simp)
      exact hname
    exact ⟨⟨some ⟨version, kind⟩, m, _⟩, ⟨_, rfl, hversion, hkind⟩, ⟨j, hlookup, hm⟩,
      ⟨name, hname, hnamed⟩, rfl⟩

end Manifest

end MemberAgent
