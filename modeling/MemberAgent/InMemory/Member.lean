import MemberAgent.Client
import MemberAgent.InMemory.Hub

/-! A member cluster in memory: objects under their plural, namespace and name, and the records of
what was applied. Uids come from one counter. Deleting a record withdraws it from the owners of
every object and removes the objects that it was the last to own. -/

namespace MemberAgent.InMemory

structure ObjectKey where
  resource : String
  «namespace» : String
  name : String
  deriving DecidableEq

namespace ObjectKey

instance : Ord ObjectKey where
  compare := compareLex (compareOn ObjectKey.resource) <|
    compareLex (compareOn ObjectKey.namespace) (compareOn ObjectKey.name)

instance : Std.TransOrd ObjectKey :=
  show Std.TransCmp (compareLex _ (compareLex _ _)) from inferInstance

/-- Where an object of a resource is stored. -/
def ofObject (mapping : ResourceMapping) (object : ApiObject) : ObjectKey :=
  ⟨mapping.plural, object.metadata.namespace.getD "", object.metadata.anyName⟩

def ofTracked (r : TrackedResource) : ObjectKey := ⟨r.resource, r.namespace, r.name⟩

end ObjectKey

structure Member where
  objects : Table ObjectKey ApiObject := ∅
  applied : Table String AppliedWork := ∅
  failingDeletes : List ObjectKey := []
  /-- The number in the last uid. It has no bound; a counter of 64 bits stops when it would overflow. -/
  lastUid : Nat := 0
  /-- How often an object has been written, without a bound too. What a cluster with counters of 64 bits
  comes to is all here, and it never comes to `2 ^ 64` writes. -/
  writes : Nat := 0

namespace Member

def object? (m : Member) (key : ObjectKey) : Option ApiObject := m.objects.get? key

def applied? (m : Member) (name : String) : Option AppliedWork := m.applied.get? name

/-- The next uid, of its sort. -/
def freshUid (m : Member) (sort : String) : String := s!"{sort}-{m.lastUid + 1}"

def put (m : Member) (key : ObjectKey) (object : ApiObject) : Member :=
  { m with objects := m.objects.insert key object }

def putApplied (m : Member) (name : String) (applied : AppliedWork) : Member :=
  { m with applied := m.applied.insert name applied }

/-- The owners of an object but this one. -/
def ownersWithout (uid : String) (object : ApiObject) : List OwnerReference :=
  object.metadata.owners.filter fun o => o.uid ≠ uid

def disown (uid : String) (object : ApiObject) : ApiObject :=
  { object with
    metadata := { object.metadata with ownerReferences := some (ownersWithout uid object) } }

/-- Whether an object has owners, and no other than this one. -/
def isOnlyOwner (uid : String) (object : ApiObject) : Bool :=
  !object.metadata.owners.isEmpty && (ownersWithout uid object).isEmpty

/-- Withdraws an owner from every object. Objects that lose their last owner go. -/
def collectGarbage (m : Member) (uid : String) : Member :=
  { m with
    objects :=
      (m.objects.filter fun _ o => !isOnlyOwner uid o).mapValues fun _ o => disown uid o }

/-- A record as it is first stored. -/
def stored (m : Member) (applied : AppliedWork) : AppliedWork :=
  { applied with
    metadata :=
      { applied.metadata with
        uid := some (m.freshUid "aw")
        resourceVersion := some "1" } }

def createApplied (m : Member) (applied : AppliedWork) : Except Failure (AppliedWork × Member) :=
  let name := applied.name
  if m.applied.contains name then
    .error (.refused 409 "AlreadyExists" s!"appliedworks \"{name}\" already exists")
  else
    let created := m.stored applied
    .ok (created, { m.putApplied name created with lastUid := m.lastUid + 1 })

/-- Deletes a record and what only it owns. -/
def deleteApplied (m : Member) (name : String) : Member :=
  match m.applied? name with
  | none => m
  | some applied =>
    let rest := { m with applied := m.applied.erase name }
    match applied.metadata.uid with
    | none => rest
    | some uid => rest.collectGarbage uid

def updateResources (m : Member) (observed : AppliedWork) (resources : List TrackedResource) :
    Except Failure Member :=
  let name := observed.name
  match m.applied? name with
  | none => .error (notFound "appliedwork")
  | some stored =>
    if stored.metadata.resourceVersion ≠ observed.metadata.resourceVersion then
      .error (outdated "appliedwork")
    else
      .ok <| m.putApplied name
        { stored with
          status := some { appliedResources := resources }
          metadata := bumped stored.metadata }

def createObject (m : Member) (mapping : ResourceMapping) (object : ApiObject) :
    Except Failure (ApiObject × Member) :=
  let key := ObjectKey.ofObject mapping object
  if m.objects.contains key then .error (.refused 409 "AlreadyExists" "object already exists")
  else
    let created :=
      { object with
        metadata :=
          { object.metadata with
            uid := some (m.freshUid "obj")
            resourceVersion := some "1" } }
    .ok (created, { m.put key created with lastUid := m.lastUid + 1, writes := m.writes + 1 })

/-- A write by someone who has seen the version of `observed`. -/
def write (m : Member) (mapping : ResourceMapping) (observed : ApiObject)
    (change : ApiObject → ApiObject) : Except Failure (ApiObject × Member) :=
  let key := ObjectKey.ofObject mapping observed
  match m.object? key with
  | none => .error (notFound "object")
  | some stored =>
    if stored.metadata.resourceVersion ≠ observed.metadata.resourceVersion then
      .error (outdated "object")
    else
      let changed := change stored
      .ok (changed, { m.put key changed with writes := m.writes + 1 })

/-- The stored uid stays. -/
def replaceObject (m : Member) (mapping : ResourceMapping) (object : ApiObject) :
    Except Failure (ApiObject × Member) :=
  m.write mapping object fun stored =>
    { object with
      metadata :=
        { object.metadata with
          uid := stored.metadata.uid
          resourceVersion := some (nextVersion stored.metadata.resourceVersion) } }

def patchOwners (m : Member) (mapping : ResourceMapping) (live : ApiObject)
    (owners : List OwnerReference) : Except Failure Member :=
  Prod.snd <$> m.write mapping live fun stored =>
    { stored with metadata := bumped { stored.metadata with ownerReferences := some owners } }

/-- Deletes the object of an entry, if it is still the one that the entry means. -/
def deleteTracked (m : Member) (r : TrackedResource) : Except Failure (Deletion × Member) :=
  let key := ObjectKey.ofTracked r
  if m.failingDeletes.contains key then
    .error (.refused 500 "InternalError" "etcdserver: request timed out")
  else match m.object? key with
    | none => .ok (.alreadyGone, m)
    | some object =>
      if r.uid.isSome ∧ r.uid ≠ object.metadata.uid then .ok (.alreadyGone, m)
      else .ok (.deleted object.metadata.uid, { m with objects := m.objects.erase key })

/-! What others do to the cluster. -/

/-- Stores a record that tracks these resources, in place of one of its name. -/
def seedApplied (m : Member) (applied : AppliedWork) (resources : List TrackedResource) : Member :=
  let seeded := { m.stored applied with status := some { appliedResources := resources } }
  { m.putApplied applied.name seeded with lastUid := m.lastUid + 1 }

def removeApplied (m : Member) (name : String) : Member :=
  { m with applied := m.applied.erase name }

def markAppliedDeleting (m : Member) (name : String) (now : Timestamp) : Member :=
  match m.applied? name with
  | none => m
  | some applied =>
    m.putApplied name
      { applied with metadata := { applied.metadata with deletionTimestamp := some now } }

def removeObject (m : Member) (key : ObjectKey) : Member :=
  { m with objects := m.objects.erase key }

def failDeletes (m : Member) (key : ObjectKey) : Member :=
  { m with failingDeletes := key :: m.failingDeletes }

def healDeletes (m : Member) (key : ObjectKey) : Member :=
  { m with failingDeletes := m.failingDeletes.filter (· ≠ key) }

/-- Creates an object, or writes it over the one that is there. -/
def putObject (m : Member) (mapping : ResourceMapping) (object : ApiObject) : Member :=
  let written := match m.object? (.ofObject mapping object) with
    | none => m.createObject mapping object
    | some live =>
      m.replaceObject mapping
        { object with
          metadata := { object.metadata with resourceVersion := live.metadata.resourceVersion } }
  match written with
  | .ok (_, m) => m
  | .error _ => m

end Member

end MemberAgent.InMemory
