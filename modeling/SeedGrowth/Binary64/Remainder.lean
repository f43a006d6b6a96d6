import SeedGrowth.Binary64.Basic

/-!
# Remainders of reals

The remainder of a division takes the sign of the divisor. Both operands are
written over one power of two, so that the remainder of whole numbers decides
and no digit is lost; only the last step, which moves the remainder to the
divisor's side of zero, can round.
-/
namespace SeedGrowth.Binary64

/-- The remainder with the sign of the dividend. -/
def truncatedRemainder (x y : Float) : Float :=
  match shape x, shape y with
  | .finite negative m q, .finite _ m' q' =>
    let least := min q q'
    let rest := (m <<< (q - least).toNat) % (m' <<< (q' - least).toNat)
    let (up, down) := Decimal.ratioPow 2 least
    nearest negative (rest * up) down
  | .finite _ _ _, .infinite _ => x
  | _, _ => notANumber

/-- The remainder with the sign of the divisor. -/
def floorRemainder (x y : Float) : Float :=
  let rest := truncatedRemainder x y
  if isNaN rest then rest
  else if rest == 0.0 then withSign (isNegative y) 0
  else if isNegative rest == isNegative y then rest
  else rest + y

end SeedGrowth.Binary64
