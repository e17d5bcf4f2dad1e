import MemberAgent.Http.Wire

/-! Discovery: the lists of everything that the member cluster serves, group by group and version by
version, and after them those of the group without a name. -/

namespace MemberAgent.Http

open Discovery

/-- A list that the server keeps under a path of its own. -/
def fetch {α : Type} (path : String) (read : Json → Json.Reading α) : Exchange α :=
  ask .member ((prepare .get path).mapError fun _ => .invalidAddress) read

def fetchListing (root : String) (v : GroupVersion) : Exchange VersionListing := do
  return { version := v.version, list := ← fetch s!"{root}/{v.groupVersion}" ResourceList.ofJson }

/-- The listings of all versions of a group, which cannot be without versions. -/
def fetchGroup (root : String) (g : Group) : Exchange (String × List VersionListing) := do
  if g.versions.isEmpty then throw (.emptyGroup g.name)
  return (g.name, ← g.versions.mapM (fetchListing root))

/-- The table of kinds. Of two groups of one name the later one counts. -/
def fetchKinds : Exchange KindTable := do
  let groups ← (← fetch "/apis" readGroups).mapM (fetchGroup "/apis")
  let versions ← fetch "/api" readCoreVersions
  let core ← fetchGroup "/api" { name := "", versions := versions.map fun v => ⟨v, v⟩ }
  return kindTable (Table.ofList (groups ++ [core])).values

/-- Answers what a lookup needs over the wire. -/
def answerLookup : (c : LookupCall) → Program wire c.Reply
  | .known => .perform (I := wire) .known
  | .discover => fetchKinds.run
  | .remember table => .perform (I := wire) (.remember table)

def findMapping (kind : Kind) : Program wire (Except ClientFault (Option ResourceMapping)) :=
  (lookup kind).interpret answerLookup

end MemberAgent.Http
