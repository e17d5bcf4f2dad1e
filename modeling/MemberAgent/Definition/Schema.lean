import MemberAgent.Json.Basic

/-! Schemas of the values in a custom resource: what each field means, and which values it takes. -/

namespace MemberAgent.Definition

open Json

/-- A schema, as the list of its fields. -/
abbrev Schema := List (String × Json)

namespace Schema

def json (s : Schema) : Json := ofFields s

def ofType (type : String) : Schema := [("type", .str type)]

def withDescription (description : String) (s : Schema) : Schema :=
  ("description", .str description) :: s

/-- The value of a field that is left out. -/
def withDefault (value : Json) (s : Schema) : Schema := ("default", value) :: s

def withFormat (format : String) (s : Schema) : Schema := ("format", .str format) :: s

/-- Null is a value too. -/
def orNull (s : Schema) : Schema := ("nullable", .bool true) :: s

def text : Schema := ofType "string"

/-- One of some words. -/
def word (words : List String) : Schema := ("enum", .arr (words.map .str)) :: text

def time : Schema := text.withFormat "date-time"

def integer : Schema := (ofType "integer").withFormat "int64"

/-- A number that is not negative. -/
def natural : Schema :=
  ("minimum", .float (Double.zero false)) :: (ofType "integer").withFormat "uint32"

def listOf (item : Schema) : Schema := ("items", item.json) :: ofType "array"

/-- An object with any fields. -/
def anyObject : Schema :=
  ("x-kubernetes-preserve-unknown-fields", .bool true) :: ofType "object"

/-- An object with these fields, of which some are required. -/
def object (fields : List (String × Schema)) (required : List String) : Schema :=
  let names := if required.isEmpty then [] else [("required", Json.arr (required.map .str))]
  ("properties", ofFields (fields.map fun f => (f.1, f.2.json))) :: names ++ ofType "object"

end Schema

end MemberAgent.Definition
