import MemberAgent.Proofs.Http.Document

/-! A server that takes merge patches: what it stores and what it refuses, and when the patched document
is the one that an author would have written by hand. -/

namespace MemberAgent

open Json

namespace Json

/-- The version of a document, or the one that a patch is made from; null if there is none. -/
def version (j : Json) : Json := (j.part "metadata").part "resourceVersion"

def finalizers (j : Json) : List Json :=
  match (j.part "metadata").part "finalizers" with
  | .arr l => l
  | _ => []

/-- Whether a document is marked for deletion. -/
def isMarked (j : Json) : Bool := (j.part "metadata").part "deletionTimestamp" ≠ .null

/-- A document with another version. -/
def inVersion (version : String) (j : Json) : Json :=
  mergePatch j (patchOf [("resourceVersion", .str version)] [])

end Json

namespace Http

/-- What becomes of a document. -/
inductive Outcome where
  | refused
  | removed
  | stored (document : Json)

/-- Whether two outcomes are no refusals and differ in the version of the document at most. -/
def Outcome.Alike : Outcome → Outcome → Prop
  | removed, removed => True
  | stored a, stored b => AgreeApartFrom [] ["resourceVersion"] a b
  | _, _ => False

/-- A server merges a patch into a document, unless the patch is made from another version. A document
that is marked for deletion goes when its last finalizer is taken away. What is stored gets a version,
which is left open. -/
def serve (next : Json → String) (document patch : Json) : Outcome :=
  if patch.version ≠ .null ∧ patch.version ≠ document.version then .refused
  else
    let merged := mergePatch document patch
    if merged.isMarked ∧ merged.finalizers = [] ∧ document.finalizers ≠ [] then .removed
    else .stored (merged.inVersion (next merged))

end Http

namespace Json

variable {a b : Json} {fields metadata : List String}

theorem AgreeApartFrom.part_metadata (h : AgreeApartFrom fields metadata a b) {key : String}
    (hkey : key ∉ metadata) : (a.part "metadata").part key = (b.part "metadata").part key := by
  rw [part, h.metadata key hkey]
  rfl

theorem AgreeApartFrom.finalizers_eq (h : AgreeApartFrom fields metadata a b)
    (hkey : "finalizers" ∉ metadata) : a.finalizers = b.finalizers := by
  rw [finalizers, finalizers, h.part_metadata hkey]

theorem finalizers_of_get? {l : List Json}
    (h : (a.part "metadata").get? "finalizers" = some (.arr l)) : a.finalizers = l := by
  rw [finalizers, show (a.part "metadata").part "finalizers" = .arr l by rw [part, h]; rfl]

/-- A new version is all that a document gets with it. -/
theorem agree_inVersion {j : Json} (h : j.Distinct) (hmetadata : (j.part "metadata").Distinct)
    (version : String) : AgreeApartFrom [] ["resourceVersion"] (j.inVersion version) j := by
  have hkeys : DistinctKeys [("resourceVersion", Json.str version)] [] := ⟨by simp, by simp⟩
  exact agree_mergePatch h hmetadata hkeys

theorem version_patchOf (inner rest : List (String × Json)) :
    (patchOf inner rest).version = (inner.lookup "resourceVersion").getD .null := by
  have hpart : (patchOf inner rest).part "metadata" = .obj inner := by
    rw [part, patchOf, get?, Json.fields, List.lookup_cons_self, Option.getD_some]
  rw [version, hpart]
  rfl

end Json

namespace Document

variable {d : Document} (h : d.HasOneMetadata)

include h

theorem version_json : d.json.version = (d.metadata.resourceVersion.map .str).getD .null := by
  rw [version, part_metadata h, part, ObjectMeta.get?_json_resourceVersion]

theorem finalizers_json : d.json.finalizers = (d.metadata.finalizers.getD []).map .str := by
  rw [finalizers, part_metadata h, part, ObjectMeta.get?_json_finalizers]
  cases d.metadata.finalizers <;> rfl

theorem isMarked_json : d.json.isMarked = d.metadata.isDeleting := by
  rw [isMarked, part_metadata h, part, ObjectMeta.get?_json_deletionTimestamp, ObjectMeta.isDeleting]
  cases d.metadata.deletionTimestamp <;> rfl

end Document

namespace Http

variable {d : Document} {inner rest : List (String × Json)}

section

variable (hone : d.HasOneMetadata) (hkeys : DistinctKeys inner rest)

include hone hkeys

theorem agree_patched : AgreeApartFrom (rest.map Prod.fst) (inner.map Prod.fst)
    (mergePatch d.json (patchOf inner rest)) d.json := by
  refine agree_mergePatch d.distinct_json ?_ hkeys
  rw [d.part_metadata hone]
  exact d.metadata.distinct_json

theorem get?_metadata_patched (key : String) :
    ((mergePatch d.json (patchOf inner rest)).part "metadata").get? key =
      mergedField (d.metadata.json.get? key) (inner.lookup key) := by
  rw [part_metadata_mergePatch d.distinct_json hkeys, d.part_metadata hone,
    get?_mergePatch d.metadata.distinct_json hkeys.metadata]

theorem isMarked_patched (hunrelated : "deletionTimestamp" ∉ inner.map Prod.fst) :
    (mergePatch d.json (patchOf inner rest)).isMarked = d.metadata.isDeleting := by
  rw [isMarked, (agree_patched hone hkeys).part_metadata hunrelated]
  exact Document.isMarked_json hone

end

/-! ### What the server does -/

/-- A current patch that does not take the last finalizer of a marked document is merged. -/
theorem serve_current (next : Json → String) {patch : Json} (hversion : patch.version = d.json.version)
    (hkept : (mergePatch d.json patch).isMarked → (mergePatch d.json patch).finalizers = [] →
      d.json.finalizers = []) :
    ∃ document, serve next d.json patch = .stored document := by
  rw [serve, if_neg fun h => h.2 hversion]
  exact ⟨_, if_neg fun h => h.2.2 (hkept h.1 h.2.1)⟩

/-- What is stored is the merged document in some version. -/
theorem agree_of_serve {next : Json → String} {document : Json} (hkeys : DistinctKeys inner rest)
    (h : serve next d.json (patchOf inner rest) = .stored document) :
    AgreeApartFrom [] ["resourceVersion"] document (mergePatch d.json (patchOf inner rest)) := by
  have hmetadata : ((mergePatch d.json (patchOf inner rest)).part "metadata").Distinct := by
    rw [part_metadata_mergePatch d.distinct_json hkeys]
    exact distinct_mergePatch _ _
  rw [serve] at h
  dsimp only at h
  split at h
  · cases h
  split at h
  · cases h
  · cases h
    exact agree_inVersion (distinct_mergePatch _ _) hmetadata _

theorem serve_last (next : Json → String) {patch : Json} (hversion : patch.version = d.json.version)
    (hmarked : (mergePatch d.json patch).isMarked)
    (hnone : (mergePatch d.json patch).finalizers = []) (hsome : d.json.finalizers ≠ []) :
    serve next d.json patch = .removed := by
  rw [serve, if_neg fun h => h.2 hversion]
  exact if_pos ⟨hmarked, hnone, hsome⟩

theorem serve_outdated (next : Json → String) {patch : Json} {version : String}
    (hone : d.HasOneMetadata) (hpatch : patch.version = .str version)
    (hother : d.metadata.resourceVersion ≠ some version) : serve next d.json patch = .refused := by
  have hversion : patch.version ≠ d.json.version := by
    rw [hpatch, Document.version_json hone]
    cases h : d.metadata.resourceVersion with
    | none => simp
    | some stored =>
        intro hsame
        exact hother (h.trans (congrArg some (Json.str.inj hsame).symm))
  have hnamed : patch.version ≠ .null := by simp [hpatch]
  rw [serve, if_pos ⟨hnamed, hversion⟩]

/-! ### Patches that write what an author writes -/

/-- A patch of one list of the metadata does what writing that list does. -/
theorem list_patched (hone : d.HasOneMetadata) {field : String} (hfield : field ≠ "resourceVersion")
    (items : List Json) (version : Json) {m : ObjectMeta}
    (hm : ∀ key, key ∉ [field, "resourceVersion"] → m.json.get? key = d.metadata.json.get? key)
    (hitems : m.json.get? field = some (.arr items)) :
    AgreeApartFrom [] ["resourceVersion"]
      (mergePatch d.json (patchOf [(field, .arr items), ("resourceVersion", version)] []))
      (d.withMetadata m).json := by
  have hkeys : DistinctKeys [(field, Json.arr items), ("resourceVersion", version)] [] :=
    ⟨by simpa using hfield, by simp⟩
  refine .of_changed (agree_patched hone hkeys) (Document.agree_withMetadata hone hm) (by simp)
    fun key hkey hversion => ?_
  obtain rfl : key = field := (List.mem_cons.1 hkey).resolve_right hversion
  rw [get?_metadata_patched hone hkeys, List.lookup_cons_self,
    Document.part_metadata (hone.withMetadata m), Document.metadata_withMetadata, hitems]
  rfl

/-- A patch of the status does what writing the status does, if it takes the place of the status that
is there. -/
theorem status_patched (hone : d.HasOneMetadata) {status : Json} (version : Json)
    {reported : Document} (hreported : reported.HasOneMetadata)
    (hmetadata : reported.metadata = d.metadata)
    (hagree : AgreeApartFrom ["status"] [] reported.json d.json)
    (hstatus : reported.json.get? "status" = some status) (hnull : status ≠ .null)
    (hreplaced : mergePatch (d.json.part "status") status = status) {m : ObjectMeta}
    (hm : ∀ key, key ∉ ["resourceVersion"] → m.json.get? key = d.metadata.json.get? key) :
    AgreeApartFrom [] ["resourceVersion"]
      (mergePatch d.json (patchOf [("resourceVersion", version)] [("status", status)]))
      (reported.withMetadata m).json := by
  have hkeys : DistinctKeys [("resourceVersion", version)] [("status", status)] :=
    ⟨by simp, by simp⟩
  have hchanged : AgreeApartFrom ["status"] ["resourceVersion"] (reported.withMetadata m).json
      d.json :=
    ((Document.agree_withMetadata hreported (hmetadata ▸ hm)).mono (by simp) (by simp)).trans
      (hagree.mono (by simp) (by simp))
  refine .of_changed (agree_patched hone hkeys) hchanged (fun key hkey => ?_)
    fun key hkey hversion => absurd hkey hversion
  obtain rfl : key = "status" := List.mem_singleton.1 hkey
  rw [Document.get?_json_withMetadata m (by decide), hstatus, patchOf,
    get?_mergePatch d.distinct_json hkeys.all]
  show (if status = .null then none else some (mergePatch (d.json.part "status") status)) = some status
  rw [if_neg hnull, hreplaced]

end Http

end MemberAgent
