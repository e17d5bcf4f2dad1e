import MemberAgent.Failure
import MemberAgent.Text.Basic
import MemberAgent.Work.Work

/-! A hub in memory. Every write names the copy it was made from, by its version, and makes a new one; if
the stored Work has moved on, nothing changes. -/

namespace MemberAgent.InMemory

/-- The version after a write; what is no number counts as zero. Numbers are read in 64 bits, and counted
without a bound: a counter of 64 bits that checks for overflow stops where the one after the last of them
is written here. -/
def nextVersion (version : Option String) : String :=
  toString ((version.bind Text.natural64?).getD 0 + 1)

def bumped (m : ObjectMeta) : ObjectMeta :=
  { m with resourceVersion := some (nextVersion m.resourceVersion) }

def notFound (what : String) : Failure := .refused 404 "NotFound" s!"{what} not found"

def outdated (what : String) : Failure := .refused 409 "Conflict" s!"{what} has been modified"

structure WorkName where
  «namespace» : String
  name : String
  deriving DecidableEq

namespace WorkName

instance : Ord WorkName where
  compare := compareLex (compareOn WorkName.namespace) (compareOn WorkName.name)

instance : Std.TransOrd WorkName :=
  show Std.TransCmp (compareLex _ _) from inferInstance

def ofWork (w : Work) : WorkName := ⟨w.namespace, w.name⟩

end WorkName

structure Hub where
  works : Table WorkName Work := ∅

namespace Hub

def work? (h : Hub) (name : WorkName) : Option Work := h.works.get? name

def put (h : Hub) (name : WorkName) (w : Work) : Hub := { h with works := h.works.insert name w }

/-- Stores a Work at its first version; a uid and a generation are filled in. -/
def insert (h : Hub) (w : Work) : Hub :=
  let filled :=
    { w.metadata with
      uid := some (w.metadata.uid.getD s!"work-{w.name}")
      resourceVersion := some "1"
      generation := some (w.metadata.generation.getD 1) }
  h.put (.ofWork w) { w with metadata := filled }

/-- Edits the manifests, which makes a new generation. Generations have no bound; a counter of 64 bits and a
sign stops when one would overflow. -/
def updateManifests (h : Hub) (name : WorkName) (manifests : List Json) : Option Hub :=
  (h.work? name).map fun w =>
    h.put name
      { w with
        manifests
        metadata := bumped { w.metadata with generation := w.metadata.generation.map (· + 1) } }

/-- A Work without finalizers goes at once, another one is marked. -/
def requestDeletion (h : Hub) (name : WorkName) (now : Timestamp) : Hub :=
  match h.work? name with
  | none => h
  | some w =>
    if (w.metadata.finalizers.getD []).isEmpty then { h with works := h.works.erase name }
    else h.put name { w with metadata := bumped { w.metadata with deletionTimestamp := some now } }

/-- A write by someone who has seen `observed`. The Work goes if nothing is left of it. -/
def write (h : Hub) (observed : Work) (change : Work → Option Work) : Except Failure Hub :=
  let name := WorkName.ofWork observed
  match h.work? name with
  | none => .error (notFound "work")
  | some stored =>
    if stored.metadata.resourceVersion ≠ observed.metadata.resourceVersion then
      .error (outdated "work")
    else match change stored with
      | some w => .ok (h.put name w)
      | none => .ok { h with works := h.works.erase name }

def patchStatus (h : Hub) (observed : Work) (status : WorkStatus) : Except Failure Hub :=
  h.write observed fun stored =>
    some { stored with status := some status, metadata := bumped stored.metadata }

/-- Attaching a finalizer that is there makes no new version. -/
def addFinalizer (h : Hub) (observed : Work) (finalizer : String) : Except Failure Hub :=
  h.write observed fun stored =>
    let finalizers := stored.metadata.finalizers.getD []
    if finalizers.contains finalizer then some stored
    else
      some
        { stored with
          metadata :=
            bumped { stored.metadata with finalizers := some (finalizers ++ [finalizer]) } }

/-- A Work marked for deletion goes with its last finalizer. -/
def removeFinalizer (h : Hub) (observed : Work) (finalizer : String) : Except Failure Hub :=
  h.write observed fun stored =>
    let rest := stored.metadata.finalizers.map (List.filter (· ≠ finalizer))
    if stored.isDeleting && (rest.getD []).isEmpty then none
    else some { stored with metadata := bumped { stored.metadata with finalizers := rest } }

end Hub

end MemberAgent.InMemory
