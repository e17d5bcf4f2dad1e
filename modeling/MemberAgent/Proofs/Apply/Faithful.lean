import MemberAgent.Proofs.Apply.Accounting
import MemberAgent.Proofs.Object.Declared

/-! What is written of a manifest. An object that is created or replaced has every field that the
document declares, as it is declared, and none besides. Its metadata are the declared ones, in the
namespace that the resource needs, with the hash of the content and the owner added to them and, over an
object that is there, in the version of that object. -/

namespace MemberAgent

open Json

/-- The namespace of an object whose manifest names this one. -/
def settledNamespace (namespaced : Bool) (declared : Option String) : Option String :=
  if namespaced then
    some (if declared.getD "" = "" then Manifest.defaultNamespace else declared.getD "")
  else none

/-- The metadata that are written for declared ones, where nothing is or over the object that is
there. -/
def ObjectMeta.writtenOver (there : Option ApiObject) (namespaced : Bool) (hash : String)
    (owner : OwnerReference) (declared : ObjectMeta) : ObjectMeta :=
  { declared with
    annotations := some ((declared.annotations.getD ∅).insert hashAnnotation hash)
    «namespace» := settledNamespace namespaced declared.namespace
    ownerReferences :=
      some (withOwner (there.elim declared.owners fun live => live.metadata.owners) owner)
    resourceVersion :=
      there.elim declared.resourceVersion fun live => live.metadata.resourceVersion }

/-- Whether an object is what is to be written of a document. -/
structure Json.WrittenAs (d : Json) (there : Option ApiObject) (namespaced : Bool) (hash : String)
    (owner : OwnerReference) (written : ApiObject) : Prop where
  fields : ∀ key, key ≠ "metadata" → written.json.get? key = d.get? key
  metadata : ∃ j m, d.get? "metadata" = some j ∧ j.IsMetadata m ∧
    written.metadata = m.writtenOver there namespaced hash owner ∧
    written.json.get? "metadata" = some written.metadata.json

theorem Json.Declares.writtenAs {d : Json} {object written : ApiObject} (h : d.Declares object)
    (hd : d.Distinct) {there : Option ApiObject} {namespaced : Bool} {hash : String}
    {owner : OwnerReference} (htypes : written.types = object.types)
    (hcontent : written.content = object.content)
    (hmetadata : written.metadata = object.metadata.writtenOver there namespaced hash owner) :
    d.WrittenAs there namespaced hash owner written := by
  have hplain : written.IsPlain := fun key hkey => hcontent ▸ h.isPlain key hkey
  obtain ⟨j, hlookup, hm⟩ := h.metadata
  refine ⟨fun key hkey => h.get?_json hd htypes hcontent hkey, j, _, hlookup, hm, hmetadata, ?_⟩
  rw [ApiObject.json, get?_object, hplain.get?_metadata]

namespace Apply

variable {r : Manifest.Resolved} {owner : OwnerReference} {calls : List Exchange}
  {result : Except Failure ApplyAction}

/-- Apart from the look at the object, the write it comes to is all that is asked. -/
theorem Application.write_of_mem (h : Application r owner calls result) {c : ClientCall}
    {reply : Except Failure c.Value} (hmem : (⟨c, reply⟩ : Exchange) ∈ calls) :
    c = .getObject r.mapping r.identifier.namespace r.identifier.name ∨
      ∃ seen action, Write r owner seen c action ∧
        (⟨.getObject r.mapping r.identifier.namespace r.identifier.name, .ok seen⟩ : Exchange) ∈
          calls := by
  cases h with
  | unread failure | unchanged live hsame howned =>
      cases List.mem_singleton.1 hmem
      exact .inl rfl
  | written seen c' action hwrite reply' =>
      rcases List.mem_cons.1 hmem with he | hmem
      · cases he
        exact .inl rfl
      · cases List.mem_singleton.1 hmem
        exact .inr ⟨seen, action, hwrite, List.mem_cons_self⟩

end Apply

namespace Manifest

theorem metadata_place_settled (ordinal : Nat) (object : ApiObject) (mapping : ResourceMapping) :
    (place object (identify ordinal object) mapping).object.metadata =
      { object.metadata with
        «namespace» := settledNamespace mapping.namespaced object.metadata.namespace } := by
  unfold place settledNamespace
  cases mapping.namespaced with
  | false => rfl
  | true =>
      simp only [if_true, ← String.isEmpty_iff]
      rfl

/-- What is resolved is what was declared, in the namespace that its resource needs. -/
theorem exists_declares_of_resolve {ordinal : Nat} {d : Json} {log : List Exchange} {r : Resolved}
    (h : (resolve ordinal d).Transcript log (.ok r)) : ∃ object, d.Declares object ∧
      (r.object.types = object.types ∧ r.object.content = object.content) ∧ r.object.metadata =
        { object.metadata with
          «namespace» := settledNamespace r.mapping.namespaced object.metadata.namespace } := by
  cases Apply.resolve_lookup h with | mapped object hdecode mapping =>
  have hkept : (place object (identify ordinal object) mapping).mapping = mapping ∧
      (place object (identify ordinal object) mapping).object.types = object.types ∧
        (place object (identify ordinal object) mapping).object.content = object.content := by
    unfold place
    split <;> exact ⟨rfl, rfl, rfl⟩
  obtain ⟨hmapping, hkept⟩ := hkept
  refine ⟨object, decode_eq_ok_iff.1 hdecode, hkept, ?_⟩
  rw [metadata_place_settled, hmapping]

/-- A manifest is decoded if it is one, and what is created or replaced for it, once it is resolved, is
what it declares. -/
theorem written_as_declared (ordinal : Nat) (d : Json) :
    ((∃ object, decode ordinal d = .ok object) ↔ d.IsManifest) ∧
      (d.Distinct → ∀ log r, (resolve ordinal d).Transcript log (.ok r) →
        ∀ owner calls result, (Apply.manifest r owner).Transcript calls result →
          (∀ mapping written reply, (⟨.createObject mapping written, reply⟩ : Exchange) ∈ calls →
            mapping = r.mapping ∧
              d.WrittenAs none mapping.namespaced r.object.contentHash owner written) ∧
          ∀ mapping written reply, (⟨.replaceObject mapping written, reply⟩ : Exchange) ∈ calls →
            mapping = r.mapping ∧ ∃ live,
              (⟨.getObject mapping r.identifier.namespace r.identifier.name, .ok (some live)⟩ :
                Exchange) ∈ calls ∧
              d.WrittenAs (some live) mapping.namespaced r.object.contentHash owner written) := by
  constructor
  · simp only [decode_eq_ok_iff, exists_declares_iff]
  intro hd log r hresolve owner calls result hmanifest
  obtain ⟨object, hdeclares, ⟨htypes, hcontent⟩, hmetadata⟩ := exists_declares_of_resolve hresolve
  have happly := Apply.manifest_application hmanifest
  constructor
  · intro mapping written reply hmem
    obtain ⟨seen, action, hwrite, -⟩ := (happly.write_of_mem hmem).resolve_left nofun
    cases hwrite with | create =>
    refine ⟨rfl, hdeclares.writtenAs hd htypes hcontent ?_⟩
    rw [Apply.stamp, hmetadata]
    rfl
  · intro mapping written reply hmem
    obtain ⟨seen, action, hwrite, hseen⟩ := (happly.write_of_mem hmem).resolve_left nofun
    cases hwrite with | replace live hother =>
    refine ⟨rfl, live, hseen, hdeclares.writtenAs hd htypes hcontent ?_⟩
    rw [Apply.replacement, Apply.stamp, hmetadata]
    rfl

end Manifest

/-! ### Settings that take the place of others -/

namespace Settings

/-- A manifest without a namespace, and with a version that does not count. -/
def document : Json :=
  .obj [("apiVersion", .str "v1"), ("data", .obj [("mode", .str "fast"), ("mode.old", .null)]),
    ("kind", .str "ConfigMap"),
    ("metadata", .obj [("labels", .obj [("app", .str "web")]), ("name", .str "settings"),
      ("resourceVersion", .str "7")])]

def configMaps : ResourceMapping where
  group := ""
  version := "v1"
  apiVersion := "v1"
  kind := "ConfigMap"
  plural := "configmaps"
  namespaced := true

def owner : OwnerReference where
  apiVersion := "multicluster.x-k8s.io/v1alpha1"
  kind := "AppliedWork"
  name := "demo"
  uid := "a-1"
  blockOwnerDeletion := none
  controller := none

/-- The settings that somebody else has made. -/
def live : ApiObject where
  types := some ⟨"v1", "ConfigMap"⟩
  metadata :=
    { name := some "settings", «namespace» := some "default", resourceVersion := some "41"
      uid := some "s-1" }

def resolved : Manifest.Resolved where
  object :=
    { types := some ⟨"v1", "ConfigMap"⟩
      metadata :=
        { labels := some (Table.ofList [("app", "web")]), name := some "settings"
          «namespace» := some "default", resourceVersion := some "7" }
      content := Table.ofList [("data", .obj [("mode", .str "fast"), ("mode.old", .null)])] }
  mapping := configMaps
  identifier :=
    { ordinal := 0, version := "v1", kind := "ConfigMap", resource := "configmaps"
      «namespace» := "default", name := "settings" }

def calls : List Exchange :=
  [⟨.getObject configMaps "default" "settings", .ok (some live)⟩,
    ⟨.replaceObject configMaps (Apply.replacement resolved owner live), .ok live⟩]

theorem calls_transcript : (Apply.manifest resolved owner).Transcript calls (.ok .updated) := by
  refine Reconcile.Transcript.bind_iff.2 (.inr ⟨_, _, _, Reconcile.Transcript.request_iff.2 rfl, ?_, rfl⟩)
  show Reconcile.Transcript (if _ then _ else _) _ _
  have hother : live.metadata.recordedHash ≠ some resolved.object.contentHash := nofun
  rw [if_neg hother]
  exact Reconcile.Transcript.bind_iff.2 (.inr ⟨_, _, _, Reconcile.Transcript.request_iff.2 rfl,
    Reconcile.Transcript.pure_iff.2 ⟨rfl, rfl⟩, rfl⟩)

/-- The settings are replaced in their version, and the data are those of the manifest. -/
theorem settings_written_as_declared : document.Distinct ∧
    (Manifest.resolve 0 document).Transcript
      [⟨.findMapping ⟨"", "v1", "ConfigMap"⟩, .ok (some configMaps)⟩] (.ok resolved) ∧
    (Apply.manifest resolved owner).Transcript calls (.ok .updated) ∧
    document.WrittenAs (some live) true resolved.object.contentHash owner
      (Apply.replacement resolved owner live) := by
  have hdistinct : document.Distinct := by
    show List.Nodup _
    decide
  have hresolve : (Manifest.resolve 0 document).Transcript
      [⟨.findMapping ⟨"", "v1", "ConfigMap"⟩, .ok (some configMaps)⟩] (.ok resolved) :=
    .call _ (.done _)
  have hreplace := ((Manifest.written_as_declared 0 document).2 hdistinct _ _ hresolve owner _ _
    calls_transcript).2 configMaps _ _ (List.mem_cons_of_mem _ (List.mem_singleton_self _))
  obtain ⟨-, there, hthere, hwritten⟩ := hreplace
  refine ⟨hdistinct, hresolve, calls_transcript, ?_⟩
  rcases List.mem_pair.1 hthere with h | h
  · cases h
    exact hwritten
  · cases h

end Settings

end MemberAgent
