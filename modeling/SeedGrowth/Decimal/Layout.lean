import SeedGrowth.Decimal.Shortest

/-!
# Layouts of decimals

A decimal is written positionally or with an exponent. Which exponents are
positional is a matter of the layout.
-/
namespace SeedGrowth.Decimal

/-- A layout of shortest decimals. -/
structure Layout where
  /-- The least exponent of the first digit that is written positionally. -/
  least : Int
  /-- The greatest exponent of the first digit that is written positionally. -/
  greatest : Int
  /-- The number of digits that an exponent has at least. -/
  exponentWidth : Nat
  /-- The text of infinity. -/
  infinity : String
  /-- The text of what is not a number. -/
  nan : String

/-- Zeros in a row. -/
def zeros (count : Nat) : String := String.ofList (List.replicate count '0')

/-- A natural number with zeros in front up to a width. -/
def padded (width n : Nat) : String :=
  let digits := toString n
  zeros (width - digits.length) ++ digits

/-- A positional text; at least one place follows the point. -/
def Digits.positional (d : Digits) : String :=
  let text := (toString d.digits).toList
  if 0 ≤ d.exponent then String.ofList text ++ zeros d.exponent.toNat ++ ".0"
  else
    let places := (-d.exponent).toNat
    if places < text.length then
      String.ofList (text.take (text.length - places)) ++ "." ++
        String.ofList (text.drop (text.length - places))
    else "0." ++ zeros (places - text.length) ++ String.ofList text

/-- A text with an exponent: one digit, a point if more digits follow, and the
exponent with its sign. -/
def Digits.scientific (d : Digits) (width : Nat) : String :=
  let text := (toString d.digits).toList
  let exponent := d.exponent + (text.length - 1 : Nat)
  let fraction := if text.length ≤ 1 then "" else "." ++ String.ofList (text.drop 1)
  let sign := if exponent < 0 then "-" else "+"
  String.ofList (text.take 1) ++ fraction ++ "e" ++ sign ++ padded width exponent.natAbs

/-- The text of a real in a layout. -/
def Layout.text (layout : Layout) (x : Float) : String :=
  match Binary64.shape x with
  | .nan => layout.nan
  | .infinite negative => (if negative then "-" else "") ++ layout.infinity
  | .finite negative m q =>
    let sign := if negative then "-" else ""
    if m = 0 then sign ++ "0.0"
    else
      let d := shortest m q
      let first := d.exponent + ((toString d.digits).length - 1 : Nat)
      sign ++ if layout.least ≤ first ∧ first ≤ layout.greatest then d.positional
        else d.scientific layout.exponentWidth

end SeedGrowth.Decimal
