import SeedGrowth.Binary64.Basic

/-!
# The shortest decimal of a real

Among the decimals that are read back as a given real, `shortest` finds one with
the fewest digits, and of those the nearest to the real. The decimals with a
given number of digits form a grid, and if any point of a grid is read back as
the real, one of the real's two neighbours on that grid is; so the grids are
tried from the coarsest on, two points each, in whole numbers.
-/
namespace SeedGrowth.Decimal

/-- The number `digits · 10^exponent`. -/
structure Digits where
  digits : Nat
  exponent : Int
deriving DecidableEq

/-- `10^e` is at most `m · 2^q`. -/
def tenPowLe (e : Int) (m : Nat) (q : Int) : Bool :=
  let (up, down) := ratioPow 2 q
  let (tenUp, tenDown) := ratioPow 10 e
  tenUp * down ≤ m * up * tenDown

/-- The exponent of the first decimal digit of `m · 2^q`, for positive `m`. -/
def decimalExponent (m : Nat) (q : Int) : Int :=
  let guess := ((m.log2 : Int) + q) * 30103 / 100000
  if tenPowLe (guess + 1) m q then guess + 1
  else if tenPowLe guess m q then guess
  else guess - 1

/-- The numbers that are read as `m · 2^q`, in quarters of `2^q`: the two ends,
and whether the ends belong to them. -/
structure Reach where
  low : Nat
  high : Nat
  closed : Bool

/-- Halfway to either neighbour; the lower neighbour of a power of two is only
half as far. Ties are read as the even `m`. -/
def reach (m : Nat) (q : Int) : Reach where
  low := if m = Binary64.exponentWeight ∧ Binary64.leastExponent < q then 4 * m - 1 else 4 * m - 2
  high := 4 * m + 2
  closed := m % 2 == 0

/-- The better of the two neighbours of `m · 2^q` among the multiples of
`10^p`, if any is read back. -/
def gridPoint? (m : Nat) (q p : Int) : Option Nat :=
  let (up, down) := ratioPow 2 (q - 2)
  let (tenUp, tenDown) := ratioPow 10 p
  let unit := up * tenDown
  let step := down * tenUp
  let ends := reach m q
  let inReach n :=
    if ends.closed then ends.low * unit ≤ n * step && n * step ≤ ends.high * unit
    else ends.low * unit < n * step && n * step < ends.high * unit
  let below := 4 * m * unit / step
  let above := below + 1
  let nearer :=
    let toBelow := 4 * m * unit - below * step
    let toAbove := above * step - 4 * m * unit
    if toBelow < toAbove ∨ (toBelow = toAbove ∧ below % 2 = 0) then (below, above)
    else (above, below)
  if inReach nearer.1 then some nearer.1
  else if inReach nearer.2 then some nearer.2
  else none

/-- Tries the grids of `10^p`, `10^(p-1)` and so on. -/
def searchGrids (m : Nat) (q : Int) : Nat → Int → Digits
  | 0, p => ⟨0, p⟩
  | grids + 1, p =>
    match gridPoint? m q p with
    | some n => ⟨n, p⟩
    | none => searchGrids m q grids (p - 1)

/-- Moves the zeros at the end of the digits into the exponent. -/
def Digits.strip (d : Digits) : Nat → Digits
  | 0 => d
  | rounds + 1 =>
    if d.digits % 10 = 0 ∧ d.digits ≠ 0 then
      Digits.strip ⟨d.digits / 10, d.exponent + 1⟩ rounds
    else d

/-- The shortest decimal that is read back as `m · 2^q`, for positive `m`.
Seventeen digits tell any two stored reals apart. -/
def shortest (m : Nat) (q : Int) : Digits :=
  (searchGrids m q 17 (decimalExponent m q)).strip 18

end SeedGrowth.Decimal
