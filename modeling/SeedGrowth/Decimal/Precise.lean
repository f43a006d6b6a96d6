import SeedGrowth.Decimal.Layout

/-!
# Decimals of a given precision

A real is written with a given number of places, or with a given number of digits
in all, a half going to the even neighbour. Texts here have no sign and belong to
`m · 2^q`. A form can insist on a point where no digit follows it.
-/
namespace SeedGrowth.Decimal

/-- The digits after the point, with the point; without digits the point stands only
if it is insisted on. -/
def fraction (point : Bool) (digits : List Char) : String :=
  if digits.isEmpty ∧ !point then "" else "." ++ String.ofList digits

/-- A real has fewer digits than these, and fewer places; what follows them is zeros. -/
def exactLimit : Nat := 1100

/-- `m · 2^q` with a given number of places. -/
def fixedText (places : Nat) (point : Bool) (m : Nat) (q : Int) : String :=
  let (up, down) := ratioPow 2 q
  let exact := min places exactLimit
  let digits := (padded (exact + 1) (roundDiv (m * up * Nat.pow 10 exact) down)).toList ++
    List.replicate (places - exact) '0'
  String.ofList (digits.take (digits.length - places)) ++
    fraction point (digits.drop (digits.length - places))

/-- `m · 2^q` in units of `10^p`. -/
def inUnits (m : Nat) (q p : Int) : Nat :=
  let (up, down) := ratioPow 2 q
  let (tenUp, tenDown) := ratioPow 10 p
  roundDiv (m * up * tenDown) (down * tenUp)

/-- `m · 2^q` rounded to a number of digits, one or more; zero has all its digits
zero and the first of them before the point. -/
def significant (count : Nat) (m : Nat) (q : Int) : Digits :=
  let exponent := if m = 0 then 0 else decimalExponent m q
  let p := exponent + 1 - count
  let n := inUnits m q p
  if n < Nat.pow 10 count then ⟨n, p⟩ else ⟨n / 10, p + 1⟩

/-- The digits of `m · 2^q` rounded to a number of them, one or more, and the exponent
of the first. -/
def leading (count : Nat) (m : Nat) (q : Int) : List Char × Int :=
  let exact := min count exactLimit
  let d := significant exact m q
  ((padded exact d.digits).toList ++ List.replicate (count - exact) '0',
    d.exponent + (exact - 1 : Nat))

/-- The sign and the digits of an exponent, two or more. -/
def exponentText (letter : Char) (exponent : Int) : String :=
  String.singleton letter ++ (if exponent < 0 then "-" else "+") ++ padded 2 exponent.natAbs

/-- `m · 2^q` with one digit before the point, a number of places, and an exponent. -/
def scientificText (places : Nat) (point : Bool) (letter : Char) (m : Nat) (q : Int) : String :=
  let (digits, exponent) := leading (places + 1) m q
  String.ofList (digits.take 1) ++ fraction point (digits.drop 1) ++ exponentText letter exponent

/-- Digits without the zeros at their end. -/
def stripZeros (digits : List Char) : List Char := (digits.reverse.dropWhile (· = '0')).reverse

/-- `m · 2^q` with a number of digits, positionally unless its first digit lies
below the fourth place or there are zeros to be added before the point. Zeros at the
end of the places are left out, unless all digits are asked for. -/
def generalText (count : Nat) (all : Bool) (letter : Char) (m : Nat) (q : Int) : String :=
  let (digits, exponent) := leading count m q
  let trim (places : List Char) := if all then places else stripZeros places
  if exponent < -4 ∨ (count : Int) ≤ exponent then
    String.ofList (digits.take 1) ++ fraction all (trim (digits.drop 1)) ++
      exponentText letter exponent
  else if exponent < 0 then
    "0" ++ fraction all (trim ((zeros (-exponent - 1).toNat).toList ++ digits))
  else
    let whole := exponent.toNat + 1
    String.ofList (digits.take whole) ++ fraction all (trim (digits.drop whole))

/-- The text of a real with a fixed number of places. -/
def fixed (places : Nat) (x : Float) : String :=
  match Binary64.shape x with
  | .nan => "nan"
  | .infinite negative => (if negative then "-" else "") ++ "inf"
  | .finite negative m q => (if negative then "-" else "") ++ fixedText places false m q

end SeedGrowth.Decimal
