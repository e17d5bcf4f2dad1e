import MemberAgent.Json.Writer
import MemberAgent.Yaml.Scalar

/-! The block form of YAML: a field or an item a line, two blanks of indentation for what belongs to
it, and the items of a sequence right under its key. -/

namespace MemberAgent.Yaml

/-- Whether a text can stand without quotes and still be read as itself. -/
def standsPlain (s : String) : Bool :=
  let cs := s.toList
  startsPlain false cs && plainLength false cs = cs.length && !cs.getLast?.any isBlank &&
    plainValue s = .str s && plainValue s.toLower = .str s.toLower

def singleQuoted (s : String) : String :=
  let doubled := s.toList.flatMap fun c => if c = '\'' then ['\'', '\''] else [c]
  String.ofList ('\'' :: doubled ++ ['\''])

def indent (line : String) : String := if line.isEmpty then line else "  " ++ line

/-- A text of several lines: a bar that tells how it ends, and the lines. -/
def literalLines (s : String) : List String :=
  let ls := s.toList.splitOn '\n'
  if ls.getLast? = some [] then
    let body := ls.dropLast
    let mark := if body.getLast? = some [] then "|+" else "|"
    mark :: body.map String.ofList
  else "|-" :: ls.map String.ofList

/-- A text as the lines after its key: the rest of the key's line, and what is below it. -/
def textLines (s : String) : List String :=
  if s.contains '\n' then literalLines s
  else if standsPlain s then [s]
  else [singleQuoted s]

/-- What stands in the line of a key or a dash, and the lines below it. -/
def after (head : String) : List String → List String
  | [] => [head]
  | first :: rest => s!"{head} {first}" :: rest.map indent

mutual

/-- The lines of a value that stands by itself. -/
def valueLines : Json → List String
  | .str s => textLines s
  | .arr [] => ["[]"]
  | .obj [] => ["\x7b\x7d"]
  | .arr (item :: rest) => itemLines (item :: rest)
  | .obj (field :: rest) => fieldLines (field :: rest)
  | j => [j.text]

def itemLines : List Json → List String
  | [] => []
  | item :: rest => after "-" (valueLines item) ++ itemLines rest

def fieldLines : List (String × Json) → List String
  | [] => []
  | (key, value) :: rest =>
    (match value with
      | .arr (item :: items) => s!"{key}:" :: itemLines (item :: items)
      | .obj (field :: fields) => s!"{key}:" :: (fieldLines (field :: fields)).map indent
      | value => after s!"{key}:" (valueLines value)) ++ fieldLines rest

end

def text (j : Json) : String := String.join ((valueLines j).map fun l => l ++ "\n")

end MemberAgent.Yaml
