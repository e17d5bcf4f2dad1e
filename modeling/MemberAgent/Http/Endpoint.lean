import MemberAgent.Failure
import MemberAgent.Http.Message
import MemberAgent.Http.Target
import MemberAgent.Mapping
import MemberAgent.Work.AppliedWork

/-! Where the server of a cluster serves its resources, and the requests that read and write
them. -/

namespace MemberAgent.Http

/-- A request that may turn out not to be one. -/
abbrev Prepared := Except ClientFault Request

/-- The collection of all objects of a resource, in one namespace if the resource has them. -/
structure Endpoint where
  resource : ResourceMapping
  «namespace» : String

namespace Endpoint

def path (e : Endpoint) : String :=
  let root := if e.resource.group.isEmpty then "api" else "apis"
  let place := if e.resource.namespaced then s!"namespaces/{e.namespace}/" else ""
  s!"/{root}/{e.resource.apiVersion}/{place}{e.resource.plural}"

end Endpoint

/-- A request without a body to a path and a query. -/
def prepare (method : Method) (target : String) : Prepared :=
  match Target.ofText? target with
  | some t => .ok { method, path := t.path, query := t.query }
  | none => .error .invalidUri

def Prepared.withBody (p : Prepared) (contentType : ContentType) (body : Json) : Prepared :=
  p.map fun r => { r with contentType := some contentType, body := some body }

namespace Endpoint

/-- A request on one object, whose name cannot be empty. `part` is what of the object is meant, if
not all of it. -/
def onObject (e : Endpoint) (method : Method) (name part : String) : Prepared :=
  if name.isEmpty then .error .emptyName else prepare method s!"{e.path}/{name}{part}?"

def get (e : Endpoint) (name : String) : Prepared := e.onObject .get name ""

def create (e : Endpoint) (object : Json) : Prepared :=
  Prepared.withBody (prepare .post s!"{e.path}?") .json object

def replace (e : Endpoint) (name : String) (object : Json) : Prepared :=
  (e.onObject .put name "").withBody .json object

def mergePatch (e : Endpoint) (name : String) (patch : Json) : Prepared :=
  (e.onObject .patch name "").withBody .mergePatch patch

def mergePatchStatus (e : Endpoint) (name : String) (patch : Json) : Prepared :=
  (e.onObject .patch name "/status").withBody .mergePatch patch

def delete (e : Endpoint) (name : String) (options : Json) : Prepared :=
  (e.onObject .delete name "").withBody .json options

/-- The first page of all objects. -/
def list (e : Endpoint) : Prepared := prepare .get s!"{e.path}?&limit=500"

/-- What happens to the objects after a version. The server ends the watch after some seconds, and
tells from time to time how far it has got. -/
def watch (e : Endpoint) (version : String) : Prepared :=
  prepare .get <|
    s!"{e.path}?&watch=true&timeoutSeconds=25&allowWatchBookmarks=true" ++
      s!"&resourceVersion={formEncoded version}"

end Endpoint

end MemberAgent.Http

namespace MemberAgent

/-- Works on the hub. -/
def Work.resource : ResourceMapping :=
  let (group, version) := splitApiVersion workApiVersion
  { group, version, apiVersion := workApiVersion, kind := "Work", plural := "works"
    namespaced := true }

/-- Records on the member cluster. -/
def AppliedWork.resource : ResourceMapping :=
  let (group, version) := splitApiVersion workApiVersion
  { group, version, apiVersion := workApiVersion, kind := "AppliedWork", plural := "appliedworks"
    namespaced := false }

end MemberAgent
