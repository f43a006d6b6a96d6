import SeedGrowth.Decimal.Rounding

/-!
# Reals in binary

A real is stored in 64 bits: a sign, eleven bits of exponent and 52 bits of
fraction. Its shape shows it as `± m · 2^q` with whole numbers `m` and `q`, so
that its value can be handled exactly. The way back takes any nonnegative
quotient to the stored real nearest to it.
-/
namespace SeedGrowth.Binary64

/-- What a stored real stands for. -/
inductive Shape where
  /-- The number `± m · 2^q`, with `m < 2^53` and `-1074 ≤ q`. -/
  | finite (negative : Bool) (m : Nat) (q : Int)
  | infinite (negative : Bool)
  | nan
deriving DecidableEq

/-- The least exponent of a stored real. -/
def leastExponent : Int := -1074

/-- The weight of the sign among the 64 bits. -/
def signWeight : Nat := 1 <<< 63

/-- The weight of the least bit of the exponent; fractions are below it. -/
def exponentWeight : Nat := 1 <<< 52

/-- The bits of infinity: the greatest exponent with the fraction zero. -/
def infinityBits : Nat := 2047 * exponentWeight

/-- The bits of what is not a number: the greatest exponent with half a fraction. -/
def nanBits : Nat := infinityBits + exponentWeight / 2

/-- The shape of the real with the given bits. -/
def shapeOfBits (bits : Nat) : Shape :=
  let negative := bits / signWeight % 2 == 1
  let exponent : Nat := bits / exponentWeight % 2048
  let fraction : Nat := bits % exponentWeight
  if exponent = 2047 then
    if fraction = 0 then .infinite negative else .nan
  else if exponent = 0 then .finite negative fraction leastExponent
  else .finite negative (exponentWeight + fraction) (exponent + leastExponent - 1)

/-- The shape of a real. -/
def shape (x : Float) : Shape := shapeOfBits x.toBits.toNat

/-- The largest `e` with `2^e ≤ num / den`, for positive `num` and `den`. -/
def binaryExponent (num den : Nat) : Int :=
  let e : Int := (num.log2 : Int) - den.log2
  let (up, down) := Decimal.ratioPow 2 e
  if den * up ≤ num * down then e else e - 1

/-- Bits of the stored real nearest to `num / den`, the even one of two equally
near, without its sign; the bits of infinity if that lies out of range. -/
def nearestBits (num den : Nat) : Nat :=
  if num = 0 then 0
  else
    let q := max (binaryExponent num den - 52) leastExponent
    let (up, down) := Decimal.ratioPow 2 q
    let m := Decimal.roundDiv (num * down) (den * up)
    let bits := if m < exponentWeight then m else (q - leastExponent).toNat * exponentWeight + m
    min bits infinityBits

/-- The real with the given sign and bits. -/
def withSign (negative : Bool) (bits : Nat) : Float :=
  Float.ofBits (UInt64.ofNat (if negative then signWeight + bits else bits))

/-- The stored real nearest to `± num / den`. -/
def nearest (negative : Bool) (num den : Nat) : Float :=
  withSign negative (nearestBits num den)

/-- The nearest stored real, unless that is out of range. -/
def nearest? (negative : Bool) (num den : Nat) : Option Float :=
  let bits := nearestBits num den
  if bits < infinityBits then some (withSign negative bits) else none

/-- The real stored for a whole number, unless that is out of range. -/
def ofInt? (n : Int) : Option Float := nearest? (n < 0) n.natAbs 1

/-- A real that is not a number. -/
def notANumber : Float := 0.0 / 0.0

/-- The real is this whole number. -/
def Shape.isInt : Shape → Int → Bool
  | .finite negative m q, n =>
    let (up, down) := Decimal.ratioPow 2 q
    (if negative then -(m * up : Int) else m * up) == n * down
  | _, _ => false

/-- The real is not a number. -/
def isNaN (x : Float) : Bool := shape x == .nan

/-- The real has a minus sign. -/
def isNegative (x : Float) : Bool :=
  match shape x with
  | .finite negative _ _ => negative
  | .infinite negative => negative
  | .nan => false

/-- The whole number that a finite real comes to when its fraction is dropped. -/
def truncate (negative : Bool) (m : Nat) (q : Int) : Int :=
  let (up, down) := Decimal.ratioPow 2 q
  let whole : Int := (m * up / down : Nat)
  if negative then -whole else whole

/-- The whole number that a real is, if it is one. -/
def Shape.toInt? (shape : Shape) : Option Int :=
  match shape with
  | .finite negative m q =>
    let n := truncate negative m q
    if shape.isInt n then some n else none
  | _ => none

end SeedGrowth.Binary64
