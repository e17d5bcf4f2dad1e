import MemberAgent.Yaml.Scalar

/-! Reading YAML as far as configuration files need it: documents, mappings and sequences by
indentation or between brackets, single values on one line, and literal texts. Anchors, tags and
values that go on over several lines are refused. -/

namespace MemberAgent.Yaml

/-- The rest of a text, and the column at which it starts. -/
structure Cursor where
  rest : List Char
  column : Nat

namespace Cursor

def drop (c : Cursor) (n : Nat) : Cursor := ⟨c.rest.drop n, c.column + n⟩

/-- Goes to `rest`, which is later on the same line. -/
def goTo (c : Cursor) (rest : List Char) : Cursor := c.drop (c.rest.length - rest.length)

/-- Whether nothing but a comment follows on the line. -/
def endsLine (c : Cursor) : Bool :=
  match c.rest.dropWhile isBlank with
  | [] => true
  | d :: _ => isBreak d || d = '#'

end Cursor

/-- The next character that is neither blank nor in a comment. -/
def skipFrom (comment : Bool) (column : Nat) : List Char → Cursor
  | [] => ⟨[], 0⟩
  | c :: rest =>
    if c = '\n' then skipFrom false 0 rest
    else if comment || isBlank c || c = '\r' then skipFrom comment (column + 1) rest
    else if c = '#' then skipFrom true (column + 1) rest
    else ⟨c :: rest, column⟩

def Cursor.skip (c : Cursor) : Cursor := skipFrom false c.column c.rest

/-- A mapping, in which no key occurs twice. -/
def mapping (fields : List (String × Json)) : Option Json :=
  if (fields.map (·.1)).Nodup then some (.ofFields fields) else none

mutual

/-- A value between brackets. -/
def flow : Nat → Cursor → Option (Json × Cursor)
  | 0, _ => none
  | fuel + 1, c => match c.rest with
    | '[' :: _ => do
      let (items, c) ← flowItems fuel (c.drop 1).skip
      return (.arr items, c)
    | '\x7b' :: _ => do
      let (fields, c) ← flowFields fuel (c.drop 1).skip
      return (← mapping fields, c)
    | _ => do
      let (value, rest) ← scalar true c.rest
      return (value, c.goTo rest)

def flowItems : Nat → Cursor → Option (List Json × Cursor)
  | 0, _ => none
  | fuel + 1, c =>
    if c.rest.head? = some ']' then some ([], c.drop 1)
    else do
      let (item, c) ← flow fuel c
      let c := c.skip
      match c.rest with
      | ',' :: _ =>
        let (items, c) ← flowItems fuel (c.drop 1).skip
        return (item :: items, c)
      | ']' :: _ => return ([item], c.drop 1)
      | _ => none

/-- The value of a key, which may be left out. -/
def flowValue : Nat → Cursor → Option (Json × Cursor)
  | 0, _ => none
  | fuel + 1, c => match c.rest with
    | ':' :: _ =>
      let c := (c.drop 1).skip
      match c.rest with
      | ',' :: _ | '\x7d' :: _ => some (.null, c)
      | _ => flow fuel c
    | _ => some (.null, c)

def flowFields : Nat → Cursor → Option (List (String × Json) × Cursor)
  | 0, _ => none
  | fuel + 1, c =>
    if c.rest.head? = some '\x7d' then some ([], c.drop 1)
    else do
      let (.str key, rest) ← scalar true c.rest | none
      let (value, c) ← flowValue fuel (c.goTo rest).skip
      let c := c.skip
      match c.rest with
      | ',' :: _ =>
        let (fields, c) ← flowFields fuel (c.drop 1).skip
        return ((key, value) :: fields, c)
      | '\x7d' :: _ => return ([(key, value)], c.drop 1)
      | _ => none

end

/-- Whether an item of a sequence starts here. -/
def startsItem (c : Cursor) : Bool :=
  match c.rest with
  | '-' :: rest => standsAlone false rest
  | _ => false

/-- A key and the place after its colon. -/
def key? (c : Cursor) : Option (Json × Cursor) := do
  let (key, rest) ← scalar false c.rest
  let ':' :: rest := rest.dropWhile isBlank | none
  if standsAlone false rest then some (key, c.goTo rest) else none

/-- The lines of a text, without their ends. -/
def lines (cs : List Char) : List (List Char) := cs.splitOn '\n'

def indentation (line : List Char) : Nat := (line.takeWhile (· = ' ')).length

def isEmptyLine (line : List Char) : Bool := line.all fun c => isBlank c || c = '\r'

/-- How the end of a literal text is meant: with one line end, with none, or as it stands. -/
def chomp (mark : Option Char) (body : List (List Char)) : Option (List (List Char)) :=
  let full := (body.reverse.dropWhile List.isEmpty).reverse
  match mark with
  | none => some (if full.isEmpty then full else full ++ [[]])
  | some '-' => some full
  | some '+' => some (body ++ [[]])
  | some _ => none

/-- A literal text, given from its bar on: the lines that are indented by at least `minimum` and by
as much as the first one. -/
def literal (minimum : Nat) (cs : List Char) : Option (Json × Cursor) := do
  let head :: rest := lines (cs.drop 1) | none
  let mark ← match head.filter fun c => !(isBlank c || c = '\r') with
    | [] => some none
    | [c] => some (some c)
    | _ => none
  let width := max minimum ((rest.find? fun l => !isEmptyLine l).elim 0 indentation)
  let body := rest.takeWhile fun l => isEmptyLine l || width ≤ indentation l
  let after := rest.drop body.length
  let text ← chomp mark (body.map (List.drop width))
  return (.str (String.ofList (['\n'].intercalate text)), ⟨['\n'].intercalate after, 0⟩)

/-- A value that starts in the middle of a line and ends with a line. -/
def onLine (minimum : Nat) (c : Cursor) : Option (Json × Cursor) := do
  match c.rest with
  | '|' :: _ => literal minimum c.rest
  | '[' :: _ | '\x7b' :: _ =>
    let (value, c) ← flow (2 * c.rest.length) c
    if c.endsLine then return (value, c) else none
  | _ =>
    let (value, rest) ← scalar false c.rest
    let c := c.goTo rest
    if c.endsLine then return (value, c) else none

mutual

/-- A value at the start of a line, or after the dash of an item; one that is not indented enough is
nothing. -/
def block : Nat → Nat → Cursor → Option (Json × Cursor)
  | 0, _, _ => none
  | fuel + 1, minimum, c =>
    if c.rest.isEmpty || c.column < minimum then some (.null, c)
    else if startsItem c then do
      let (items, c) ← blockItems fuel c.column c
      return (.arr items, c)
    else if (key? c).isSome then do
      let (fields, c) ← blockFields fuel c.column c
      return (← mapping fields, c)
    else onLine minimum c

/-- The items whose dashes stand in one column. -/
def blockItems : Nat → Nat → Cursor → Option (List Json × Cursor)
  | 0, _, _ => none
  | fuel + 1, column, c => do
    let (item, c) ← block fuel (column + 1) (c.drop 1).skip
    let c := c.skip
    if c.rest.isEmpty || c.column < column then return ([item], c)
    else if column < c.column then none
    else if startsItem c then
      let (items, c) ← blockItems fuel column c
      return (item :: items, c)
    else return ([item], c)

/-- The fields whose keys stand in one column. The items of a sequence may stand under its key. -/
def blockFields : Nat → Nat → Cursor → Option (List (String × Json) × Cursor)
  | 0, _, _ => none
  | fuel + 1, column, c => do
    let (.str key, c) ← key? c | none
    let (value, c) ←
      if c.endsLine then
        let next := c.skip
        block fuel (if startsItem next then column else column + 1) next
      else onLine (column + 1) c.skip
    let c := c.skip
    if c.rest.isEmpty || c.column < column then return ([(key, value)], c)
    else if column < c.column then none
    else
      let (fields, c) ← blockFields fuel column c
      return ((key, value) :: fields, c)

end

def document (cs : List Char) : Option Json := do
  let (value, c) ← block (4 * cs.length + 4) 0 (skipFrom false 0 cs)
  if c.skip.rest.isEmpty then some value else none

/-- Whether a line is a mark between documents. -/
def isMark (mark line : List Char) : Bool := mark.isPrefixOf line && standsAlone false (line.drop 3)

/-- The lines of each document. A mark may have the first value of its document behind it. -/
def splitDocuments : List (List Char) → List (List (List Char))
  | [] => [[]]
  | line :: rest =>
    let documents := splitDocuments rest
    if isMark "---".toList line then [] :: consLine ([' ', ' ', ' '] ++ line.drop 3) documents
    else if isMark "...".toList line then [] :: documents
    else consLine line documents
where
  consLine (line : List Char) : List (List (List Char)) → List (List (List Char))
    | [] => [[line]]
    | d :: rest => (line :: d) :: rest

/-- The documents of a text. What stands before the first mark is one only if there is something,
and a text without anything is one document that says nothing. -/
def documents (s : String) : Option (List Json) :=
  let all := (splitDocuments (lines s.toList)).map fun ls => ['\n'].intercalate ls
  let written := match all with
    | first :: second :: rest =>
      if (skipFrom false 0 first).rest.isEmpty then second :: rest else first :: second :: rest
    | all => all
  written.mapM document

end MemberAgent.Yaml
