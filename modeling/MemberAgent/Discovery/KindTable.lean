import MemberAgent.Discovery.Listing
import MemberAgent.Discovery.Maturity
import MemberAgent.Mapping

/-! The table of kinds of a cluster, as its lists of resources give it. -/

namespace MemberAgent

/-- The resource of each kind that a cluster serves. -/
abbrev KindTable := Table Kind ResourceMapping

namespace Discovery

/-- A version of a group, with what the cluster lists under it. -/
structure VersionListing where
  version : String
  list : ResourceList

namespace ResourceList

/-- The first resource of a name says whether its objects are in namespaces. -/
def isNamespaced (l : ResourceList) (name : String) : Bool :=
  ((l.resources.find? fun r => r.name = name).map ListedResource.namespaced).getD false

def mapping (l : ResourceList) (r : ListedResource) : ResourceMapping :=
  let (group, version) := splitApiVersion l.groupVersion
  { group := r.group.getD group
    version := r.version.getD version
    apiVersion := joinApiVersion group version
    kind := r.kind
    plural := r.name
    namespaced := l.isNamespaced r.name }

/-- The resources of a list that are not parts of others. -/
def mappings (l : ResourceList) : List ResourceMapping :=
  (l.resources.filter fun r => !r.name.contains '/').map l.mapping

end ResourceList

/-- The listings of a group: the first of each version, the most mature ones first. -/
def sortedListings (listings : List VersionListing) : List VersionListing :=
  (firstByKey VersionListing.version listings).mergeSort fun a b =>
    (Maturity.ofName a.version).precedes (.ofName b.version)

/-- The last of several resources of one kind counts. -/
def kindTable (groups : List (List VersionListing)) : KindTable :=
  Table.ofList <| (groups.flatMap sortedListings).flatMap fun v =>
    v.list.mappings.map fun m => (m.lookedUpAs, m)

end Discovery

end MemberAgent
