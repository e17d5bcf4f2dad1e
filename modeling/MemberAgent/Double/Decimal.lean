import MemberAgent.Double.Basic

/-! Decimal text of floating-point numbers. Reading rounds the digits, then scales by one power of
ten, each step to the nearest number. Writing takes the fewest digits that lie within half a step of
the number and, of those, the nearest to it; positional notation ends at `10 ^ 16` and below
`10 ^ -5`. -/

namespace MemberAgent.Double

/-- The largest power of ten that one scaling step uses. -/
def largestPower : Nat := 308

def powerOfTen (n : Nat) : Option Double := ofNat (Nat.pow 10 n)

/-- Takes `10 ^ -n` from a number, at most `10 ^ 308` in one step. -/
def scaleDown (x : Double) (n : Nat) : Option Double :=
  if n ≤ largestPower then powerOfTen n >>= x.div
  else if x.isZero then some x
  else do
    let smaller ← powerOfTen largestPower >>= x.div
    scaleDown smaller (n - largestPower)
termination_by n
decreasing_by simp only [largestPower] at *; omega

def scaleUp (x : Double) (n : Nat) : Option Double :=
  if n ≤ largestPower then powerOfTen n >>= x.mul
  else if x.isZero then some x
  else none

/-- The number written as `significand * 10 ^ exponent`; none when it is too large. -/
def ofDecimal (negative : Bool) (significand : Nat) (exponent : Int) : Option Double := do
  let x ← ofNat significand
  let scaled ← if exponent < 0 then scaleDown x (-exponent).toNat else scaleUp x exponent.toNat
  pure (if negative then scaled.negate else scaled)

/-- Whether the gap below a number is half the gap above it. -/
def isLowerBoundary (x : Double) : Bool := x.fraction = 0 && 1 < x.exponentField

/-- In units of a quarter step: twice the number, and the ends of the interval that rounds to it. -/
structure Interval where
  low : Nat
  middle : Nat
  high : Nat
  closed : Bool

def interval (x : Double) : Interval where
  low := 4 * x.significand - if x.isLowerBoundary then 1 else 2
  middle := 4 * x.significand
  high := 4 * x.significand + 2
  closed := x.significand % 2 = 0

/-- A decimal number `digits * 10 ^ exponent`. -/
structure Decimal where
  digits : Nat
  exponent : Int
  deriving DecidableEq, Repr

/-- The multiple of `10 ^ t` nearest to the number, provided it reads back as the number. -/
def onGrid? (x : Double) (t : Int) : Option Decimal :=
  let i := x.interval
  let unit := x.exponent - 2
  let scale := Nat.pow 2 unit.toNat * Nat.pow 10 (-t).toNat
  let grid := Nat.pow 2 (-unit).toNat * Nat.pow 10 t.toNat
  let n := divideToEven (i.middle * scale) grid
  let inside (c : Nat) : Bool :=
    if i.closed then i.low * scale ≤ c * grid && c * grid ≤ i.high * scale
    else i.low * scale < c * grid && c * grid < i.high * scale
  if inside n then some ⟨n, t⟩
  else if inside (n + 1) then some ⟨n + 1, t⟩
  else none

/-- The first of the grids `10 ^ t`, `10 ^ (t - 1)`, … that has a point which reads back. -/
def firstGrid (x : Double) : Nat → Int → Decimal
  | 0, _ => ⟨0, 0⟩
  | fuel + 1, t => match x.onGrid? t with
    | some d => d
    | none => firstGrid x fuel (t - 1)

/-- The shortest decimal number that reads back as `x`. The coarsest grid tried is coarser than any
number, the finest is finer than the least gap. -/
def shortest (x : Double) : Decimal :=
  if x.isZero then ⟨0, 0⟩ else firstGrid x 640 310

/-- Digits and the place of the point: positional from `10 ^ -5` up to `10 ^ 16`, with a fraction
always, otherwise one digit before the point and an exponent. -/
def layout (digits : List Char) (exponent : Int) : List Char :=
  let length : Int := digits.length
  let point := length + exponent
  if 0 ≤ exponent ∧ point ≤ 16 then
    digits ++ List.replicate exponent.toNat '0' ++ ['.', '0']
  else if 0 < point ∧ point ≤ 16 then
    digits.take point.toNat ++ '.' :: digits.drop point.toNat
  else if -5 < point ∧ point ≤ 0 then
    '0' :: '.' :: List.replicate (-point).toNat '0' ++ digits
  else
    let power := 'e' :: (toString (point - 1)).toList
    match digits with
    | [d] => d :: power
    | d :: rest => d :: '.' :: rest ++ power
    | [] => power

def chars (x : Double) : List Char :=
  let d := x.shortest
  let digits := layout (Nat.toDigits 10 d.digits) d.exponent
  if x.negative then '-' :: digits else digits

def text (x : Double) : String := String.ofList x.chars

end MemberAgent.Double
