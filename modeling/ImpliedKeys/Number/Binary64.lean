/-!
# Binary fractions of 64 bits

A number with a fraction is held as the bits of a double. Rounding is to the nearest double, a tie
going to the even one, and is done in exact arithmetic on natural numbers. Written out, a double
has the fewest decimal digits that read back as it.
-/
namespace ImpliedKeys

/-- A double-precision number, given by its bits. -/
structure Binary64 where
  bits : UInt64
  deriving DecidableEq, Inhabited

namespace Binary64

def twoTo (n : Nat) : Nat := Nat.pow 2 n

def tenTo (n : Nat) : Nat := Nat.pow 10 n

def infinityBits : Nat := 0x7ff * twoTo 52

def isNegative (x : Binary64) : Bool := twoTo 63 ≤ x.bits.toNat

def magnitude (x : Binary64) : Nat := x.bits.toNat % twoTo 63

def isFinite (x : Binary64) : Bool := x.magnitude < infinityBits

def isNaN (x : Binary64) : Bool := infinityBits < x.magnitude

def ofMagnitude (negative : Bool) (bits : Nat) : Binary64 :=
  ⟨UInt64.ofNat (if negative then twoTo 63 + bits else bits)⟩

/-- The integer nearest to a quotient, a tie going to the even one. -/
def roundDiv (num den : Nat) : Nat :=
  let floor := num / den
  let twice := 2 * (num % den)
  if twice < den then floor
  else if den < twice then floor + 1
  else floor + floor % 2

/-- The exponent of two below which the digits of a quotient are rounded away: 53 digits are kept,
and fewer near zero. -/
def unitExponent (num den : Nat) : Int :=
  let low := max ((num.log2 : Int) - den.log2 - 53) (-1074)
  if num * twoTo (-low).toNat < den * twoTo low.toNat * twoTo 53 then low else low + 1

def roundQuotient (num den : Nat) : Nat :=
  if num = 0 then 0
  else
    let e := unitExponent num den
    let digits := roundDiv (num * twoTo (-e).toNat) (den * twoTo e.toNat)
    min infinityBits (digits + (e + 1074).toNat * twoTo 52)

/-- The significand `m` and the exponent `e` of a finite double, whose size is `m * 2 ^ e`. -/
def parts (x : Binary64) : Nat × Int :=
  let field : Nat := x.magnitude / twoTo 52
  let fraction : Nat := x.magnitude % twoTo 52
  if field = 0 then (fraction, -1074) else (twoTo 52 + fraction, (field : Int) - 1075)

def quotient (x : Binary64) : Nat × Nat :=
  let (m, e) := x.parts
  (m * twoTo e.toNat, twoTo (-e).toNat)

def digitCount (n : Nat) : Nat := (Nat.toDigits 10 n).length

/-- The double nearest to `digits * 10 ^ exponent`. -/
def ofDecimal (negative : Bool) (digits : Nat) (exponent : Int) : Binary64 :=
  let lead := exponent + digitCount digits
  ofMagnitude negative <|
    if digits = 0 ∨ lead < -330 then 0
    else if 310 < lead then infinityBits
    else roundQuotient (digits * tenTo exponent.toNat) (tenTo (-exponent).toNat)

def mulSizes (x y : Binary64) : Binary64 :=
  ofMagnitude false (roundQuotient (x.quotient.1 * y.quotient.1) (x.quotient.2 * y.quotient.2))

def divSizes (x y : Binary64) : Binary64 :=
  ofMagnitude false (roundQuotient (x.quotient.1 * y.quotient.2) (x.quotient.2 * y.quotient.1))

/-- Whether two doubles are equal as numbers: the two zeros are, an undefined number equals
nothing. -/
def sameNumber (x y : Binary64) : Bool :=
  !x.isNaN && !y.isNaN && (x = y || (x.magnitude = 0 && y.magnitude = 0))

/-- The least exponent of ten above a positive quotient. -/
def decimalTop (num den : Nat) : Int :=
  let guess := ((num.log2 : Int) - den.log2 - 1) * 30103 / 100000
  let above (k : Int) : Bool := num * tenTo (-k).toNat < den * tenTo k.toNat
  if above guess then guess else if above (guess + 1) then guess + 1 else guess + 2

/-- The point on the grid of the multiples of `10 ^ exponent` that reads back as a double. Only the
two neighbours of the double can, and the nearer one is asked first. -/
def onGrid? (x : Binary64) (exponent : Int) : Option Nat :=
  let (num, den) := x.quotient
  let up := tenTo exponent.toNat
  let down := tenTo (-exponent).toNat
  let near := roundDiv (num * down) (den * up)
  let below := num * down / (den * up)
  [near, below, below + 1].find? fun point => roundQuotient (point * up) down = x.magnitude

/-- The fewest decimal digits that read back as a positive finite double, as `(digits, exponent)`;
of several such numbers the nearest. Seventeen digits always do. -/
def shortest (x : Binary64) : Nat × Int :=
  let top := decimalTop x.quotient.1 x.quotient.2
  let hit := (List.range 17).findSome? fun n =>
    let exponent := top - 1 - Int.ofNat n
    (x.onGrid? exponent).map fun digits =>
      if digits % 10 = 0 then (digits / 10, exponent + 1) else (digits, exponent)
  hit.getD (x.quotient.1, 0)

end Binary64

end ImpliedKeys
