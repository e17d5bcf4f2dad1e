/-! Paths and queries of requests. A target that holds a character which would have to be encoded is
refused; a fragment is not sent. -/

namespace MemberAgent.Http

structure Target where
  path : String
  query : String
  deriving DecidableEq, Repr

def isPathChar (c : Char) : Bool := 0x20 < c.toNat && c != '<' && c != '>' && c != '\x60'

def isQueryChar (c : Char) : Bool := 0x20 < c.toNat && c != '"' && c != '<' && c != '>'

/-- The path of a target ends at the first question mark, its query at the fragment. -/
def Target.ofText? (s : String) : Option Target :=
  let sent := s.toList.takeWhile (· != '#')
  let path := sent.takeWhile (· != '?')
  let query := (sent.drop path.length).drop 1
  if path.all isPathChar && query.all isQueryChar then
    some ⟨String.ofList path, String.ofList query⟩
  else none

/-- The digits of a byte in base sixteen, upper case. -/
def byteDigits (b : UInt8) : List Char :=
  [(Nat.digitChar (b.toNat / 16)).toUpper, (Nat.digitChar (b.toNat % 16)).toUpper]

/-- A value in a query: letters, digits and four marks stand for themselves, a blank is a plus sign,
and any other byte is written by its number. -/
def formEncoded (s : String) : String :=
  String.ofList <| s.toUTF8.toList.flatMap fun b =>
    let c := Char.ofNat b.toNat
    if b < 0x80 && (c.isAlphanum || c = '*' || c = '-' || c = '.' || c = '_') then [c]
    else if c = ' ' then ['+']
    else '%' :: byteDigits b

end MemberAgent.Http
