/-!
# Rounding quotients

A quotient of natural numbers is rounded to the nearest whole number, and a
quotient that lies halfway goes to the even neighbour.
-/
namespace SeedGrowth.Decimal

/-- The whole number nearest to `num / den`, the even one of two equally near. -/
def roundDiv (num den : Nat) : Nat :=
  let floor := num / den
  let rest := num % den
  if 2 * rest < den ∨ (2 * rest = den ∧ floor % 2 = 0) then floor else floor + 1

theorem roundDiv_le (num den : Nat) : roundDiv num den ≤ num / den + 1 := by
  simp only [roundDiv]
  split <;> omega

/-- Powers with whole exponents, as a numerator and a denominator. -/
def ratioPow (base : Nat) (exponent : Int) : Nat × Nat :=
  (base.pow exponent.toNat, base.pow (-exponent).toNat)

end SeedGrowth.Decimal
