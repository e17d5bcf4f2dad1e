/-! Binary floating-point numbers of 64 bits, held as their bits and computed with in exact natural
arithmetic. `Double.ofRatio` rounds a quotient to the nearest number, a tie to the even one;
products and quotients are that rounding of the exact result. -/

namespace MemberAgent

/-- A finite number: a sign, eleven bits of exponent and 52 bits of fraction. -/
structure Double where
  bits : UInt64
  deriving DecidableEq

namespace Double

def negative (x : Double) : Bool := x.bits >>> 63 = 1

def exponentField (x : Double) : Nat := ((x.bits >>> 52) &&& 0x7FF).toNat

def fraction (x : Double) : Nat := (x.bits &&& 0xFFFFFFFFFFFFF).toNat

/-- The first bit of a significand of full length, `2 ^ 52`, which is not stored. -/
def hiddenBit : Nat := 0x10000000000000

/-- The magnitude is `significand * 2 ^ exponent`. -/
def significand (x : Double) : Nat :=
  if x.exponentField = 0 then x.fraction else hiddenBit + x.fraction

def exponent (x : Double) : Int :=
  if x.exponentField = 0 then -1074 else (x.exponentField : Int) - 1075

def isZero (x : Double) : Bool := x.significand = 0

def signBit (negative : Bool) : UInt64 := if negative then 0x8000000000000000 else 0

def zero (negative : Bool) : Double := ⟨signBit negative⟩

def negate (x : Double) : Double := ⟨x.bits ^^^ signBit true⟩

/-- The nearest natural number to a quotient, a tie going to the even one. -/
def divideToEven (num den : Nat) : Nat :=
  let q := num / den
  let twice := 2 * (num % den)
  if den < twice ∨ (twice = den ∧ q % 2 = 1) then q + 1 else q

/-- Sign, and `significand * 2 ^ exponent`, where the significand has 53 bits or the exponent is the
least one. A significand of `2 ^ 53`, the result of rounding up, carries into the exponent. None
when the number is too large. -/
def encode (negative : Bool) (significand : Nat) (exponent : Int) : Option Double :=
  let magnitude :=
    if significand < hiddenBit then significand
    else (exponent + 1075).toNat * hiddenBit + (significand - hiddenBit)
  if magnitude < 2047 * hiddenBit then
    some ⟨signBit negative ||| UInt64.ofNat magnitude⟩
  else none

/-- The number nearest to a quotient; none when that is beyond the largest one. -/
def ofRatio (negative : Bool) (num den : Nat) : Option Double :=
  if num = 0 then some (zero negative)
  else
    let guess : Int := (num.log2 : Int) - den.log2
    let below := num * Nat.pow 2 (-guess).toNat < den * Nat.pow 2 guess.toNat
    let top := if below then guess - 1 else guess
    let exponent := max (top - 52) (-1074)
    encode negative
      (divideToEven (num * Nat.pow 2 (-exponent).toNat) (den * Nat.pow 2 exponent.toNat)) exponent

def ofNat (n : Nat) : Option Double := ofRatio false n 1

/-- The magnitude as a quotient. -/
def numerator (x : Double) : Nat := x.significand * Nat.pow 2 x.exponent.toNat

def denominator (x : Double) : Nat := Nat.pow 2 (-x.exponent).toNat

def mul (x y : Double) : Option Double :=
  ofRatio (x.negative != y.negative) (x.numerator * y.numerator) (x.denominator * y.denominator)

/-- The divisor is not zero. -/
def div (x y : Double) : Option Double :=
  ofRatio (x.negative != y.negative) (x.numerator * y.denominator) (x.denominator * y.numerator)

end Double

end MemberAgent
