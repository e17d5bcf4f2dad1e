import MemberAgent.Json.Location

/-! Requests to the API server of a cluster, and what comes back. -/

namespace MemberAgent

/-- The clusters that the agent talks to. -/
inductive Cluster where
  | hub
  | member
  deriving DecidableEq, Repr

namespace Http

inductive Method where
  | get
  | post
  | put
  | patch
  | delete
  deriving DecidableEq, Repr

/-- How a body is meant: as the object itself, as a merge patch, or as the fields that its sender
answers for. -/
inductive ContentType where
  | json
  | mergePatch
  | applyPatch
  deriving DecidableEq, Repr

structure Request where
  method : Method
  path : String
  query : String := ""
  contentType : Option ContentType := none
  body : Option Json := none
  deriving DecidableEq

structure Response where
  status : Nat
  body : String
  deriving DecidableEq

/-- A response, or the reason why there is none. -/
abbrev Reply := Except String Response

namespace Response

def isRefusal (r : Response) : Bool := 400 ≤ r.status && r.status < 600

end Response

/-- The standard phrases of the codes that refuse a request. -/
def refusalPhrases : List (Nat × String) := [
  (400, "Bad Request"),
  (401, "Unauthorized"),
  (402, "Payment Required"),
  (403, "Forbidden"),
  (404, "Not Found"),
  (405, "Method Not Allowed"),
  (406, "Not Acceptable"),
  (407, "Proxy Authentication Required"),
  (408, "Request Timeout"),
  (409, "Conflict"),
  (410, "Gone"),
  (411, "Length Required"),
  (412, "Precondition Failed"),
  (413, "Payload Too Large"),
  (414, "URI Too Long"),
  (415, "Unsupported Media Type"),
  (416, "Range Not Satisfiable"),
  (417, "Expectation Failed"),
  (418, "I'm a teapot"),
  (421, "Misdirected Request"),
  (422, "Unprocessable Entity"),
  (423, "Locked"),
  (424, "Failed Dependency"),
  (425, "Too Early"),
  (426, "Upgrade Required"),
  (428, "Precondition Required"),
  (429, "Too Many Requests"),
  (431, "Request Header Fields Too Large"),
  (451, "Unavailable For Legal Reasons"),
  (500, "Internal Server Error"),
  (501, "Not Implemented"),
  (502, "Bad Gateway"),
  (503, "Service Unavailable"),
  (504, "Gateway Timeout"),
  (505, "HTTP Version Not Supported"),
  (506, "Variant Also Negotiates"),
  (507, "Insufficient Storage"),
  (508, "Loop Detected"),
  (510, "Not Extended"),
  (511, "Network Authentication Required")]

def statusLine (code : Nat) : String :=
  let phrase := (refusalPhrases.lookup code).getD "<unknown status code>"
  s!"{code} {phrase}"

end Http

end MemberAgent
