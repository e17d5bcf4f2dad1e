import MemberAgent.Text.Basic

/-! How mature an API version is, by its name: `v1` is stable, `v1beta2` and `v1alpha1` are not yet,
and any other name says nothing. -/

namespace MemberAgent.Discovery

inductive Maturity where
  | stable (major : Nat)
  | beta (major : Nat) (minor : Option Nat)
  | alpha (major : Nat) (minor : Option Nat)
  | unknown (name : String)
  deriving DecidableEq, Repr

namespace Maturity

def natural32? (cs : List Char) : Option Nat := do
  let n ← Text.natural64? (String.ofList cs)
  if n < 0x100000000 then some n else none

/-- A minor number, which may be left out. -/
def minor? : List Char → Option (Option Nat)
  | [] => some none
  | cs => (natural32? cs).map some

def parse? (name : String) : Option Maturity := do
  let 'v' :: rest := name.toList | none
  let major ← natural32? (rest.takeWhile Char.isDigit)
  match rest.dropWhile Char.isDigit with
  | [] => return .stable major
  | 'a' :: 'l' :: 'p' :: 'h' :: 'a' :: minor => return .alpha major (← minor? minor)
  | 'b' :: 'e' :: 't' :: 'a' :: minor => return .beta major (← minor? minor)
  | _ => none

def ofName (name : String) : Maturity := (parse? name).getD (.unknown name)

def rank : Maturity → Nat
  | unknown _ => 0
  | alpha .. => 1
  | beta .. => 2
  | stable _ => 3

def major : Maturity → Nat
  | stable major | beta major _ | alpha major _ => major
  | unknown _ => 0

/-- No minor number comes before the first one. -/
def minorRank : Maturity → Nat
  | beta _ (some minor) | alpha _ (some minor) => minor + 1
  | _ => 0

def name : Maturity → String
  | unknown name => name
  | _ => ""

/-- Whether `a` comes no later than `b` when the most mature versions come first. Versions that say
nothing come last, in the order of their names. -/
def precedes (a b : Maturity) : Bool :=
  match compare b.rank a.rank, compare b.major a.major, compare b.minorRank a.minorRank with
  | .lt, _, _ => true
  | .gt, _, _ => false
  | .eq, .lt, _ => true
  | .eq, .gt, _ => false
  | .eq, .eq, .lt => true
  | .eq, .eq, .gt => false
  | .eq, .eq, .eq => a.name ≤ b.name

end Maturity

end MemberAgent.Discovery
