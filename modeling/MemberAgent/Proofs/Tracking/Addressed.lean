import MemberAgent.Http.Client
import MemberAgent.Proofs.Apply.Accounting

/-! Two addresses of one object. A manifest is applied under the resource that its kind was mapped to;
the entry that tracks it later keeps neither the kind nor whether the resource has namespaces, and its
address is made up again from what is left. Both lead to the same object, in memory and on the wire,
where kinds are mapped to resources of their own group and version. -/

namespace MemberAgent

open InMemory

/-- Whether a resource is served under the group and the version of a kind. -/
structure ResourceMapping.Serves (m : ResourceMapping) (kind : Kind) : Prop where
  group : m.group = kind.group
  version : m.version = kind.version
  apiVersion : m.apiVersion = joinApiVersion kind.group kind.version

namespace Manifest

/-- Whether an entry leads to the object of a manifest: to the same resource, but for the kind, and in
it to the namespace and the name that the object has. -/
structure Resolved.TrackedBy (r : Resolved) (t : TrackedResource) : Prop where
  resource : ResourceMapping.ofTracked t = { r.mapping with kind := "" }
  «namespace» : r.object.metadata.namespace.getD "" = t.namespace
  name : r.object.metadata.name = some t.name

/-- The entry of a resource that a manifest declares, once an object of some uid has been seen. -/
def Resolved.tracked (r : Resolved) (uid : Option String) : TrackedResource :=
  { TrackedResource.ofIdentifier r.identifier with uid }

/-- A name that is not empty is the one that an object is identified by. -/
theorem name_identify (ordinal : Nat) {object : ApiObject}
    (hnamed : (object.metadata.name.getD "").isEmpty = false) :
    object.metadata.name = some (identify ordinal object).name := by
  show object.metadata.name = some (object.metadata.name.getD "")
  cases hname : object.metadata.name with
  | none => rw [hname] at hnamed; cases hnamed
  | some name => rfl

/-- What is left of the name of a resource that a kind was mapped to. -/
theorem identifier_place (object : ApiObject) (i : ResourceIdentifier) (mapping : ResourceMapping) :
    (place object i mapping).mapping = mapping ∧
      (place object i mapping).identifier =
        { i with
          resource := mapping.plural
          «namespace» := (place object i mapping).identifier.namespace } := by
  unfold place
  split <;> exact ⟨rfl, rfl⟩

/-- The object is stored under the names that its manifest is reported with. -/
theorem metadata_place {object : ApiObject} {i : ResourceIdentifier} (mapping : ResourceMapping)
    (hname : object.metadata.name = some i.name) :
    (place object i mapping).object.metadata.namespace.getD "" =
        (place object i mapping).identifier.namespace ∧
      (place object i mapping).object.metadata.name =
        some (place object i mapping).identifier.name := by
  unfold place
  split <;> exact ⟨rfl, hname⟩

/-- Only objects of namespaced resources are in a namespace, and they always are. -/
theorem namespace_place (object : ApiObject) (i : ResourceIdentifier) (mapping : ResourceMapping) :
    (place object i mapping).identifier.namespace.isEmpty = !mapping.namespaced := by
  unfold place
  cases mapping.namespaced with
  | false => rfl
  | true =>
      show (if i.namespace.isEmpty then defaultNamespace else i.namespace).isEmpty = false
      split
      · rfl
      · next hgiven => exact Bool.eq_false_iff.2 hgiven

theorem trackedBy_place {object : ApiObject} {i : ResourceIdentifier} {mapping : ResourceMapping}
    (hname : object.metadata.name = some i.name) (hserves : mapping.Serves i.lookupKind)
    (uid : Option String) :
    (place object i mapping).TrackedBy ((place object i mapping).tracked uid) := by
  obtain ⟨hmapping, hidentifier⟩ := identifier_place object i mapping
  obtain ⟨hplace, hnamed⟩ := metadata_place mapping hname
  refine ⟨?_, hplace, hnamed⟩
  -- The scope comes from the namespace alone, and everything else from what was looked up.
  have hscope := namespace_place object i mapping
  rw [hmapping, Resolved.tracked, ResourceMapping.ofTracked]
  dsimp only [TrackedResource.ofIdentifier]
  rw [hscope, hidentifier, Bool.not_not]
  obtain ⟨hgroup, hversion, hversions⟩ := hserves
  cases mapping
  cases hgroup
  cases hversion
  cases hversions
  rfl

namespace Resolved.TrackedBy

variable {r : Resolved} {t : TrackedResource}

/-- The entry means the object that the manifest is stored as. -/
theorem objectKey (h : r.TrackedBy t) : ObjectKey.ofTracked t = .ofObject r.mapping r.object := by
  have hplural := congrArg ResourceMapping.plural h.resource
  rw [ObjectKey.ofObject, ObjectMeta.anyName, h.namespace, h.name]
  exact congrArg (ObjectKey.mk · t.namespace t.name) hplural

/-- Paths do not depend on the kind of a resource. -/
theorem path (h : r.TrackedBy t) :
    (Http.trackedAt t).path = (Http.placeOf r.mapping r.object.metadata).path := by
  rw [Http.trackedAt, Http.placeOf, h.resource, h.namespace]
  rfl

/-- What is requested of the object by its entry is requested of it by its manifest. -/
theorem onObject (h : r.TrackedBy t) (method : Http.Method) (part : String) :
    (Http.trackedAt t).onObject method t.name part =
      (Http.placeOf r.mapping r.object.metadata).onObject method r.object.metadata.anyName part := by
  rw [Http.Endpoint.onObject, Http.Endpoint.onObject, h.path, ObjectMeta.anyName, h.name]
  rfl

/-- Looking for a tracked object is looking for it as its manifest does. -/
theorem exchangeOf_getTracked (h : r.TrackedBy t) :
    Http.exchangeOf (.getTracked t) = Http.exchangeOf (.getObject r.mapping t.namespace t.name) := by
  show Http.find .member ((Http.trackedAt t).get t.name) _ = Http.find .member _ _
  rw [Http.trackedAt, h.resource]
  rfl

end Resolved.TrackedBy

/-- A resource that was applied is looked for and deleted where it was applied, as long as kinds are
only mapped to resources of their own group and version. -/
theorem tracked_where_applied {ordinal : Nat} {d : Json} {log : List Exchange} {r : Resolved}
    (hmapper : ∀ kind m, (⟨.findMapping kind, .ok (some m)⟩ : Exchange) ∈ log → m.Serves kind)
    (h : (resolve ordinal d).Transcript log (.ok r)) (uid : Option String) :
    r.TrackedBy (r.tracked uid) ∧
      ((r.tracked uid).namespace = "" ↔ r.mapping.namespaced = false) ∧
      ObjectKey.ofTracked (r.tracked uid) = .ofObject r.mapping r.object ∧
      Http.exchangeOf (.getTracked (r.tracked uid)) =
        Http.exchangeOf (.getObject r.mapping r.identifier.namespace r.identifier.name) ∧
      ∀ method part, (Http.trackedAt (r.tracked uid)).onObject method (r.tracked uid).name part =
        (Http.placeOf r.mapping r.object.metadata).onObject method r.object.metadata.anyName part := by
  cases Apply.resolve_lookup h with | mapped object hdecode mapping =>
  have hserves := hmapper _ mapping (List.mem_singleton.2 rfl)
  have htracked := trackedBy_place (name_identify ordinal (name_of_decode hdecode)) hserves uid
  refine ⟨htracked, ?_, htracked.objectKey, htracked.exchangeOf_getTracked, htracked.onObject⟩
  have hscope := namespace_place object (identify ordinal object) mapping
  rw [(identifier_place ..).1, ← String.isEmpty_iff, ← Bool.not_eq_true']
  exact Bool.coe_iff_coe.2 hscope

end Manifest

/-! ### A resource without namespaces whose manifest names one -/

namespace InMemory.Roles

def clusterRole : Json :=
  .obj [("apiVersion", .str "rbac.authorization.k8s.io/v1"), ("kind", .str "ClusterRole"),
    ("metadata", .obj [("name", .str "reader"), ("namespace", .str "default")])]

def clusterRoles : ResourceMapping where
  group := "rbac.authorization.k8s.io"
  version := "v1"
  apiVersion := "rbac.authorization.k8s.io/v1"
  kind := "ClusterRole"
  plural := "clusterroles"
  namespaced := false

def lookedUp : List Exchange :=
  [⟨.findMapping ⟨"rbac.authorization.k8s.io", "v1", "ClusterRole"⟩, .ok (some clusterRoles)⟩]

theorem clusterRoles_serves : ∀ kind m,
    (⟨.findMapping kind, .ok (some m)⟩ : Exchange) ∈ lookedUp → m.Serves kind := by
  intro kind m hm
  cases List.mem_singleton.1 hm
  exact ⟨rfl, rfl, rfl⟩

/-- The namespace is dropped, and the entry leads to the role in no namespace. -/
theorem clusterRole_tracked_where_applied : ∃ r : Manifest.Resolved,
    (Manifest.resolve 0 clusterRole).Transcript lookedUp (.ok r) ∧
      ObjectKey.ofTracked (r.tracked none) = ⟨"clusterroles", "", "reader"⟩ ∧
      (Http.trackedAt (r.tracked none)).path =
        "/apis/rbac.authorization.k8s.io/v1/clusterroles" ∧
      r.TrackedBy (r.tracked none) := by
  have h : (Manifest.resolve 0 clusterRole).Transcript lookedUp _ := .call _ (.done _)
  exact ⟨_, h, by decide, by decide, (Manifest.tracked_where_applied clusterRoles_serves h none).1⟩

end InMemory.Roles

end MemberAgent
