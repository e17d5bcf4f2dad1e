import MemberAgent.Work.AppliedWork
import MemberAgent.Object.ApiObject

/-! Which changes of watched objects lead to a reconcile. A filter remembers each object as it was
last seen, and its predicate compares what comes with what came before. Objects that a fresh list
does not contain were deleted unseen, and are forgotten when the list ends. -/

namespace MemberAgent

/-- Stored objects: they have metadata. -/
class HasMetadata (α : Type) where
  metadata : α → ObjectMeta

export HasMetadata (metadata)

instance : HasMetadata Work := ⟨Work.metadata⟩
instance : HasMetadata AppliedWork := ⟨AppliedWork.metadata⟩
instance : HasMetadata ApiObject := ⟨ApiObject.metadata⟩

/-- By what a watched object is remembered. No namespace and an empty one are different. -/
structure ObjectName where
  name : String
  «namespace» : Option String
  deriving DecidableEq

namespace ObjectName

instance : Ord ObjectName where
  compare := compareLex (compareOn ObjectName.name) (compareOn ObjectName.namespace)

instance : Std.TransOrd ObjectName :=
  show Std.TransCmp (compareLex _ _) from inferInstance

/-- The name of an object. One without a name gets the empty one here, where a watch would stop: no server
shows such an object. -/
def ofObject {α : Type} [HasMetadata α] (a : α) : ObjectName :=
  ⟨(metadata a).name.getD "", (metadata a).namespace⟩

end ObjectName

/-- Whether a first sighting, or a change, leads to a reconcile. -/
structure EventPredicate (α : Type) where
  create : α → Bool := fun _ => true
  update : (old new : α) → Bool := fun _ _ => true

namespace EventPredicate

variable {α : Type} [HasMetadata α]

/-- Everything. -/
def all : EventPredicate α := {}

/-- First sightings, and changes of the specification, of the finalizers or of the deletion mark. -/
def generationChanged : EventPredicate α where
  update old new :=
    (metadata old).generation ≠ (metadata new).generation ||
      (metadata old).deletionTimestamp ≠ (metadata new).deletionTimestamp ||
      (metadata old).finalizers ≠ (metadata new).finalizers

/-- Every write but the first sighting. -/
def updateOnly : EventPredicate α where
  create _ := false
  update old new := (metadata old).resourceVersion ≠ (metadata new).resourceVersion

end EventPredicate

structure EventFilter (α : Type) where
  predicate : EventPredicate α
  seen : Table ObjectName α := ∅
  relisted : Option (List ObjectName) := none

namespace EventFilter

variable {α : Type} [HasMetadata α]

/-- Remembers an object and tells whether it leads to a reconcile. -/
def observe (f : EventFilter α) (a : α) : Bool × EventFilter α :=
  let name := ObjectName.ofObject a
  let admitted := match f.seen.get? name with
    | none => f.predicate.create a
    | some old => f.predicate.update old a
  (admitted,
    { f with seen := f.seen.insert name a, relisted := f.relisted.map fun names => name :: names })

def forget (f : EventFilter α) (a : α) : EventFilter α :=
  { f with seen := f.seen.erase (ObjectName.ofObject a) }

/-- A fresh list begins. -/
def beginRelist (f : EventFilter α) : EventFilter α := { f with relisted := some [] }

/-- The fresh list ends; what it did not contain is forgotten. Without a list nothing happens. -/
def finishRelist (f : EventFilter α) : EventFilter α :=
  match f.relisted with
  | none => f
  | some names =>
    { f with seen := f.seen.filter fun name _ => names.contains name, relisted := none }

end EventFilter

/-- The faults of a watch that are read off what a server sends; others come with their own texts. -/
inductive WatchFault where
  | noResourceVersion
  | refused (message reason : String)
  deriving DecidableEq

def WatchFault.message : WatchFault → String
  | noResourceVersion =>
    "no metadata.resourceVersion in watch result (does resource support watch?)"
  | refused message reason => s!"error returned by apiserver during watch: {message}: {reason}"

/-- What a watch of objects tells. Its faults may be of any type: a filter passes them on as they are. -/
inductive WatchEvent (α : Type) (φ : Type := WatchFault) where
  | init
  | initApply (object : α)
  | initDone
  | apply (object : α)
  | delete (object : α)
  | failed (fault : φ)

namespace EventFilter

variable {α φ : Type} [HasMetadata α]

/-- What one event leads to: nothing, an object to reconcile, or a fault that is passed on.
Deletions lead to nothing. -/
def step (f : EventFilter α) : WatchEvent α φ → Option (Except φ α) × EventFilter α
  | .init => (none, f.beginRelist)
  | .initDone => (none, f.finishRelist)
  | .delete a => (none, f.forget a)
  | .failed fault => (some (.error fault), f)
  | .initApply a | .apply a =>
    let (admitted, f) := f.observe a
    (if admitted then some (.ok a) else none, f)

/-- What a sequence of events leads to. -/
def triggers (f : EventFilter α) : List (WatchEvent α φ) → List (Except φ α)
  | [] => []
  | e :: rest =>
    let (trigger, f) := f.step e
    trigger.toList ++ triggers f rest

end EventFilter

end MemberAgent
