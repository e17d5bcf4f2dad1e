import MemberAgent.InMemory.World
import MemberAgent.Proofs.Http.MergePatch

/-! The documents in which a cluster stores Works, records and objects, by the lookups in them: which
fields change when an author changes the status, the finalizers or the owners, and which do not. -/

namespace MemberAgent

open Json

namespace Json

/-- Whether two documents have the same fields but for some, and in their metadata the same fields but
for some. -/
structure AgreeApartFrom (fields metadata : List String) (a b : Json) : Prop where
  fields : ∀ key, key ≠ "metadata" → key ∉ fields → a.get? key = b.get? key
  metadata : ∀ key, key ∉ metadata → (a.part "metadata").get? key = (b.part "metadata").get? key

namespace AgreeApartFrom

variable {fields metadata : List String} {a b c : Json}

theorem self (a : Json) : AgreeApartFrom fields metadata a a := ⟨fun _ _ _ => rfl, fun _ _ => rfl⟩

theorem symm (h : AgreeApartFrom fields metadata a b) : AgreeApartFrom fields metadata b a :=
  ⟨fun key hm hk => (h.fields key hm hk).symm, fun key hk => (h.metadata key hk).symm⟩

theorem trans (h : AgreeApartFrom fields metadata a b) (h' : AgreeApartFrom fields metadata b c) :
    AgreeApartFrom fields metadata a c :=
  ⟨fun key hm hk => (h.fields key hm hk).trans (h'.fields key hm hk),
    fun key hk => (h.metadata key hk).trans (h'.metadata key hk)⟩

theorem mono {fields' metadata' : List String} (h : AgreeApartFrom fields metadata a b)
    (hfields : fields ⊆ fields') (hmetadata : metadata ⊆ metadata') :
    AgreeApartFrom fields' metadata' a b :=
  ⟨fun key hm hk => h.fields key hm fun hin => hk (hfields hin),
    fun key hk => h.metadata key fun hin => hk (hmetadata hin)⟩

theorem of_get? (h : ∀ key, key ∉ fields → a.get? key = b.get? key) (hmetadata : "metadata" ∉ fields) :
    AgreeApartFrom fields metadata a b where
  fields key _ hkey := h key hkey
  metadata _ _ := by rw [part, part, h "metadata" hmetadata]

/-- Where two documents agree in what a third one was changed in as well, they agree in all of it. -/
theorem of_changed {kept : List String} (ha : AgreeApartFrom fields metadata a c)
    (hb : AgreeApartFrom fields metadata b c)
    (hfields : ∀ key ∈ fields, a.get? key = b.get? key)
    (hmetadata : ∀ key ∈ metadata, key ∉ kept →
      (a.part "metadata").get? key = (b.part "metadata").get? key) :
    AgreeApartFrom [] kept a b where
  fields key hm _ := by
    by_cases hk : key ∈ fields
    · exact hfields key hk
    · exact (ha.trans hb.symm).fields key hm hk
  metadata key hkept := by
    by_cases hk : key ∈ metadata
    · exact hmetadata key hk hkept
    · exact (ha.trans hb.symm).metadata key hk

end AgreeApartFrom

/-- A patch of some of the metadata, and of other fields. -/
def patchOf (inner rest : List (String × Json)) : Json := .obj (("metadata", .obj inner) :: rest)

/-- Whether a patch names no field twice. -/
structure DistinctKeys (inner rest : List (String × Json)) : Prop where
  metadata : (inner.map Prod.fst).Nodup
  all : ((("metadata", Json.obj inner) :: rest).map Prod.fst).Nodup

variable {target : Json} {inner rest : List (String × Json)}

theorem part_metadata_mergePatch (htarget : target.Distinct) (hkeys : DistinctKeys inner rest) :
    (mergePatch target (patchOf inner rest)).part "metadata" =
      mergePatch (target.part "metadata") (.obj inner) := by
  rw [part, patchOf, get?_mergePatch htarget hkeys.all, List.lookup_cons_self]
  rfl

/-- A patch of a document changes the fields and the metadata that it names. -/
theorem agree_mergePatch (htarget : target.Distinct) (hmetadata : (target.part "metadata").Distinct)
    (hkeys : DistinctKeys inner rest) :
    AgreeApartFrom (rest.map Prod.fst) (inner.map Prod.fst)
      (mergePatch target (patchOf inner rest)) target where
  fields key hkey hrest := by
    rw [patchOf, get?_mergePatch htarget hkeys.all, List.lookup_cons, beq_eq_false_iff_ne.2 hkey]
    dsimp only
    rw [lookup_eq_none hrest]
    rfl
  metadata key hkey := by
    rw [part_metadata_mergePatch htarget hkeys, get?_mergePatch hmetadata hkeys.metadata,
      lookup_eq_none hkey]
    rfl

end Json

/-! ### Metadata -/

namespace ObjectMeta

variable (m : ObjectMeta)

theorem distinct_json : m.json.Distinct := distinct_record (by simp)

theorem get?_json_finalizers : m.json.get? "finalizers" = m.finalizers.map ofStrings := by
  rw [json, get?_record (by simp)]
  simp [List.lookup_cons]

theorem get?_json_ownerReferences : m.json.get? "ownerReferences" =
    m.ownerReferences.map fun l => .arr (l.map OwnerReference.json) := by
  rw [json, get?_record (by simp)]
  simp [List.lookup_cons]

theorem get?_json_resourceVersion : m.json.get? "resourceVersion" = m.resourceVersion.map .str := by
  rw [json, get?_record (by simp)]
  simp [List.lookup_cons]

theorem get?_json_deletionTimestamp : m.json.get? "deletionTimestamp" =
    m.deletionTimestamp.map fun t => .str t.secondsText := by
  rw [json, get?_record (by simp)]
  simp [List.lookup_cons]

theorem get?_json_finalized (finalizers : Option (List String)) (version : Option String)
    {key : String} (hkey : key ∉ ["finalizers", "resourceVersion"]) :
    { m with finalizers := finalizers, resourceVersion := version }.json.get? key =
      m.json.get? key := by
  simp only [List.mem_cons, List.not_mem_nil, or_false, not_or] at hkey
  rw [json, json, get?_record (by simp), get?_record (by simp)]
  simp [List.lookup_cons, beq_eq_false_iff_ne.2 hkey.1, beq_eq_false_iff_ne.2 hkey.2]

theorem get?_json_owned (owners : Option (List OwnerReference)) (version : Option String)
    {key : String} (hkey : key ∉ ["ownerReferences", "resourceVersion"]) :
    { m with ownerReferences := owners, resourceVersion := version }.json.get? key =
      m.json.get? key := by
  simp only [List.mem_cons, List.not_mem_nil, or_false, not_or] at hkey
  rw [json, json, get?_record (by simp), get?_record (by simp)]
  simp [List.lookup_cons, beq_eq_false_iff_ne.2 hkey.1, beq_eq_false_iff_ne.2 hkey.2]

theorem get?_json_versioned (version : Option String) {key : String}
    (hkey : key ∉ ["resourceVersion"]) :
    { m with resourceVersion := version }.json.get? key = m.json.get? key := by
  by_cases h : key = "finalizers"
  · subst h
    exact get?_json_owned m m.ownerReferences version (by decide)
  · refine get?_json_finalized m m.finalizers version fun hm => ?_
    exact (List.mem_cons.1 hm).elim h hkey

end ObjectMeta

/-! ### Works, records and objects -/

/-- What a cluster stores, and where it stores it. -/
inductive Document where
  | work (w : Work)
  | record (a : AppliedWork)
  | object (mapping : ResourceMapping) (o : ApiObject)

namespace Document

def json : Document → Json
  | work w => w.json
  | record a => a.json
  | object _ o => o.json

def metadata : Document → ObjectMeta
  | work w => w.metadata
  | record a => a.metadata
  | object _ o => o.metadata

/-- The same document with other metadata. -/
def withMetadata (m : ObjectMeta) : Document → Document
  | work w => .work { w with metadata := m }
  | record a => .record { a with metadata := m }
  | object mapping o => .object mapping { o with metadata := m }

/-- Whether the metadata are not among the other fields as well. They are not in an object that has been
read (`hasOneMetadata_of_ofJson`). -/
def HasOneMetadata : Document → Prop
  | object _ o => o.content.get? "metadata" = none
  | _ => True

theorem hasOneMetadata_of_ofJson {mapping : ResourceMapping} {j : Json} {o : ApiObject}
    (h : ApiObject.ofJson j = .ok o) : (object mapping o).HasOneMetadata := by
  cases j with
  | obj fields =>
      have hread : ApiObject.ofFields fields = .ok o := h
      unfold ApiObject.ofFields at hread
      cases hmetadata : field? fields "metadata" ObjectMeta.ofJson with
      | error e =>
          rw [hmetadata] at hread
          cases hread
      | ok metadata =>
          rw [hmetadata] at hread
          cases hread
          refine (get?_ofList _ _).trans (lookup_eq_none fun hm => ?_)
          obtain ⟨e, he, hkey⟩ := List.mem_map.1 hm
          have hkept := (List.mem_filter.1 (List.mem_reverse.1 he)).2
          simp [hkey] at hkept
  | _ => cases h

theorem distinct_json (d : Document) : d.json.Distinct := by
  cases d with
  | work w => exact distinct_record (by simp)
  | record a => exact distinct_record (by simp)
  | object mapping o => exact distinct_object _

variable {d : Document}

theorem get?_json_metadata (h : d.HasOneMetadata) : d.json.get? "metadata" = some d.metadata.json := by
  cases d with
  | work w =>
      show (Work.json w).get? "metadata" = _
      rw [Work.json, get?_record (by simp)]
      simp [List.lookup_cons, metadata]
  | record a =>
      show (AppliedWork.json a).get? "metadata" = _
      rw [AppliedWork.json, get?_record (by simp)]
      simp [List.lookup_cons, metadata]
  | object mapping o =>
      have hcontent : o.content.toList.reverse.lookup "metadata" = none := lookup_eq_none fun hm => by
        obtain ⟨⟨key, value⟩, hmem, rfl⟩ := List.mem_map.1 hm
        have hthere : o.content.get? "metadata" = some value :=
          Table.get?_eq_some_iff.2 (List.mem_reverse.1 hmem)
        cases (show o.content.get? "metadata" = none from h).symm.trans hthere
      show (ApiObject.json o).get? "metadata" = _
      rw [ApiObject.json, get?_object, ApiObject.fields, get?_ofList, List.reverse_append,
        List.reverse_cons, List.lookup_append, List.lookup_append, hcontent]
      rfl

theorem part_metadata (h : d.HasOneMetadata) : d.json.part "metadata" = d.metadata.json := by
  rw [part, get?_json_metadata h, Option.getD_some]

/-- The other fields do not depend on the metadata. -/
theorem get?_json_withMetadata (m : ObjectMeta) {key : String} (hkey : key ≠ "metadata") :
    (d.withMetadata m).json.get? key = d.json.get? key := by
  have hne := beq_eq_false_iff_ne.2 hkey
  cases d with
  | work w =>
      show (Work.json _).get? key = (Work.json w).get? key
      rw [Work.json, Work.json, get?_record (by simp), get?_record (by simp)]
      simp [List.lookup_cons, hne]
  | record a =>
      show (AppliedWork.json _).get? key = (AppliedWork.json a).get? key
      rw [AppliedWork.json, AppliedWork.json, get?_record (by simp), get?_record (by simp)]
      simp [List.lookup_cons, hne]
  | object mapping o =>
      show (ApiObject.json _).get? key = (ApiObject.json o).get? key
      simp only [ApiObject.json, get?_object, ApiObject.fields, get?_ofList, List.reverse_append,
        List.reverse_cons, List.lookup_append, List.lookup_cons, hne]

@[simp] theorem metadata_withMetadata (d : Document) (m : ObjectMeta) :
    (d.withMetadata m).metadata = m := by
  cases d <;> rfl

theorem HasOneMetadata.withMetadata (h : d.HasOneMetadata) (m : ObjectMeta) :
    (d.withMetadata m).HasOneMetadata := by
  cases d <;> exact h

theorem agree_withMetadata (h : d.HasOneMetadata) {m : ObjectMeta} {changed : List String}
    (hm : ∀ key, key ∉ changed → m.json.get? key = d.metadata.json.get? key) :
    AgreeApartFrom [] changed (d.withMetadata m).json d.json where
  fields _ hkey _ := get?_json_withMetadata m hkey
  metadata key hkey := by
    rw [part_metadata (h.withMetadata m), part_metadata h, metadata_withMetadata, hm key hkey]

/-- Neither do the other fields of a Work depend on its status. -/
theorem agree_work_reported (w : Work) (status : Option WorkStatus) :
    AgreeApartFrom ["status"] [] { w with status }.json w.json := by
  refine .of_get? (fun key hkey => ?_) (by decide)
  rw [Work.json, Work.json, get?_record (by simp), get?_record (by simp)]
  simp [List.lookup_cons, beq_eq_false_iff_ne.2 (List.ne_of_not_mem_cons hkey)]

theorem get?_work_status (w : Work) : w.json.get? "status" = w.status.map WorkStatus.json := by
  rw [Work.json, get?_record (by simp)]
  simp [List.lookup_cons]

theorem agree_record_reported (a : AppliedWork) (status : Option AppliedWorkStatus) :
    AgreeApartFrom ["status"] [] { a with status }.json a.json := by
  refine .of_get? (fun key hkey => ?_) (by decide)
  rw [AppliedWork.json, AppliedWork.json, get?_record (by simp), get?_record (by simp)]
  simp [List.lookup_cons, beq_eq_false_iff_ne.2 (List.ne_of_not_mem_cons hkey)]

theorem get?_record_status (a : AppliedWork) :
    a.json.get? "status" = a.status.map AppliedWorkStatus.json := by
  rw [AppliedWork.json, get?_record (by simp)]
  simp [List.lookup_cons]

end Document

/-- All of a status is in lists, so a status takes the place of the one before. -/
theorem WorkStatus.mergePatch_json (before : Option WorkStatus) (status : WorkStatus) :
    mergePatch ((before.map WorkStatus.json).getD .null) status.json = status.json := by
  have hkeys : ∀ s : WorkStatus, s.json.fields.map Prod.fst = ["conditions", "manifestConditions"] :=
    fun _ => rfl
  refine mergePatch_lists WorkStatus.json (fun _ => rfl) hkeys (by decide) ?_ before status
  simp [WorkStatus.json, record, fields]

theorem AppliedWorkStatus.mergePatch_json (before : Option AppliedWorkStatus)
    (status : AppliedWorkStatus) :
    mergePatch ((before.map AppliedWorkStatus.json).getD .null) status.json = status.json := by
  have hkeys : ∀ s : AppliedWorkStatus, s.json.fields.map Prod.fst = ["appliedResources"] :=
    fun _ => rfl
  refine mergePatch_lists AppliedWorkStatus.json (fun _ => rfl) hkeys (by decide) ?_ before status
  simp [AppliedWorkStatus.json, record, fields]

end MemberAgent
