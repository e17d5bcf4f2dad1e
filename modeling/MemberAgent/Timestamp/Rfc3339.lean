import MemberAgent.Timestamp.Basic
import MemberAgent.Text.Basic

/-! Dates and times as text. Writing gives UTC with a `Z` and as many groups of three fractional
digits as the time needs. Reading is lenient: leading zeros may be missing, blanks may stand around
the numbers, the date and the time may be parted by `T`, `t` or a blank, and any offset below a day
is accepted. -/

namespace MemberAgent.Timestamp

inductive Fault where
  | outOfRange
  | tooShort
  | invalid
  | tooLong
  deriving DecidableEq, Repr

def Fault.message : Fault → String
  | outOfRange => "input is out of range"
  | tooShort => "premature end of input"
  | invalid => "input contains invalid characters"
  | tooLong => "trailing input"

/-- A number in decimal digits, with zeros in front up to a width. -/
def padded (width n : Nat) : List Char :=
  let digits := Nat.toDigits 10 n
  List.replicate (width - digits.length) '0' ++ digits

/-- Four digits, or a sign and at least four when the year does not lie between 0 and 9999. -/
def yearChars (year : Int) : List Char :=
  if 0 ≤ year ∧ year ≤ 9999 then padded 4 year.toNat
  else (if year < 0 then '-' else '+') :: padded 4 year.natAbs

def fractionChars (nanosecond : Nat) : List Char :=
  if nanosecond = 0 then []
  else if nanosecond % 1000000 = 0 then '.' :: padded 3 (nanosecond / 1000000)
  else if nanosecond % 1000 = 0 then '.' :: padded 6 (nanosecond / 1000)
  else '.' :: padded 9 nanosecond

def wholeChars (t : Timestamp) : List Char :=
  yearChars t.year ++ '-' :: padded 2 t.month ++ '-' :: padded 2 t.day ++ 'T' ::
    padded 2 t.hour ++ ':' :: padded 2 t.minute ++ ':' :: padded 2 t.second

def chars (t : Timestamp) : List Char := t.wholeChars ++ fractionChars t.nanosecond ++ ['Z']

def text (t : Timestamp) : String := String.ofList t.chars

/-- The text without fractions of a second. -/
def secondsText (t : Timestamp) : String := String.ofList (t.wholeChars ++ ['Z'])

/-- Reads from the front of a text and answers with the rest. -/
abbrev Scan := StateT (List Char) (Except Fault)

def fail {α : Type} (fault : Fault) : Scan α := throw fault

def digitsValue (cs : List Char) : Nat := cs.foldl (fun n c => n * 10 + (c.toNat - '0'.toNat)) 0

/-- At least one digit, and at most `width`. -/
def digits (width : Nat) : Scan (List Char) := do
  let cs ← get
  match cs with
  | [] => fail .tooShort
  | _ =>
    let found := (cs.take width).takeWhile Char.isDigit
    if found.isEmpty then fail .invalid
    set (cs.drop found.length)
    return found

def skipBlanks : Scan Unit := modify Text.trimStart

def literal (c : Char) : Scan Unit := do
  match ← get with
  | [] => fail .tooShort
  | x :: rest => if x = c then set rest else fail .invalid

/-- A number of at most two digits between two bounds. -/
def twoDigits (low high : Nat) : Scan Nat := do
  skipBlanks
  let n := digitsValue (← digits 2)
  if low ≤ n ∧ n ≤ high then return n else fail .outOfRange

/-- A signed year may have any number of digits. -/
def yearNumber : Scan Int := do
  skipBlanks
  match ← get with
  | '-' :: rest =>
    set rest
    return -(digitsValue (← digits rest.length) : Int)
  | '+' :: rest =>
    set rest
    return digitsValue (← digits rest.length)
  | _ => return digitsValue (← digits 4)

def boundedYear : Scan Int := do
  let year ← yearNumber
  if -0x80000000 ≤ year ∧ year < 0x80000000 then return year else fail .outOfRange

/-- The first nine digits count. -/
def fraction : Scan Nat := do
  match ← get with
  | '.' :: rest =>
    set rest
    let found ← digits 9
    modify (List.dropWhile Char.isDigit)
    return digitsValue found * Nat.pow 10 (9 - found.length)
  | _ => return 0

def separator : Scan Unit := do
  match ← get with
  | c :: rest => if c = 't' ∨ c = 'T' ∨ c = ' ' then set rest else fail .invalid
  | [] => fail .tooShort

/-- The next two characters, of which one that is not a digit is refused. -/
def digitPair : Scan (Char × Char) := do
  match ← get with
  | a :: b :: rest =>
    if a.isDigit ∧ b.isDigit then
      set rest
      return (a, b)
    else fail .invalid
  | [a] => fail (if a.utf8Size < 2 then .tooShort else .invalid)
  | [] => fail .tooShort

def sign : Scan Bool := do
  match ← get with
  | [] => fail .tooShort
  | c :: rest =>
    if c = '+' then
      set rest
      return false
    else if c = '-' ∨ c = '−' then
      set rest
      return true
    else fail .invalid

/-- Minutes ahead of UTC, as a sign, two digits of hours and two of minutes. -/
def numericOffset : Scan Int := do
  let negative ← sign
  let (h, h') ← digitPair
  modify (List.dropWhile fun c => c = ':' || Text.isBlank c)
  let (m, m') ← digitPair
  let minute := digitsValue [m, m']
  if 60 ≤ minute then fail .outOfRange
  let minutes : Int := digitsValue [h, h'] * 60 + minute
  return if negative then -minutes else minutes

def offset : Scan Int := do
  match ← get with
  | 'Z' :: rest | 'z' :: rest =>
    set rest
    return 0
  | u :: t :: c :: rest =>
    if [u, t, c].map Char.toUpper = ['U', 'T', 'C'] then
      set rest
      return 0
    else numericOffset
  | _ => numericOffset

/-- The fields of a date and a time as written, before they are checked against the calendar. -/
structure Reading where
  year : Int
  month : Nat
  day : Nat
  hour : Nat
  minute : Nat
  second : Nat
  nanosecond : Nat
  offset : Int

def reading : Scan Reading := do
  let year ← boundedYear
  skipBlanks
  literal '-'
  let month ← twoDigits 1 12
  skipBlanks
  literal '-'
  let day ← twoDigits 1 31
  separator
  let hour ← twoDigits 0 23
  skipBlanks
  literal ':'
  let minute ← twoDigits 0 59
  skipBlanks
  literal ':'
  let second ← twoDigits 0 60
  let nanosecond ← fraction
  skipBlanks
  let offset ← offset
  return { year, month, day, hour, minute, second, nanosecond, offset }

def Reading.timestamp? (r : Reading) : Option Timestamp := do
  let t ← ofFields? r.year r.month r.day r.hour r.minute r.second r.nanosecond
  if -(24 * 60) < r.offset ∧ r.offset < 24 * 60 then t.ofLocal r.offset else none

def ofChars (cs : List Char) : Except Fault Timestamp := do
  let (r, rest) ← reading.run cs
  if Text.trimStart rest ≠ [] then throw .tooLong
  match r.timestamp? with
  | some t => pure t
  | none => throw .outOfRange

def ofText (s : String) : Except Fault Timestamp := ofChars s.toList

end MemberAgent.Timestamp
