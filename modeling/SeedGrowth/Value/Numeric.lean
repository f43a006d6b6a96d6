import SeedGrowth.Fault

/-!
# Numbers as whole and as real

A number is made real by the stored real nearest to it, and whole by dropping its
fraction. Either can fail: there are whole numbers beyond the reals, and reals that
no whole number comes near.
-/
namespace SeedGrowth

namespace Number

/-- The real that a number is stored as. -/
def toReal : Number → Except Fault Float
  | .int n =>
    match Binary64.ofInt? n with
    | some x => .ok x
    | none => .error .tooLargeForReal
  | .real x => .ok x

/-- The whole number of a number. -/
def toInteger : Number → Except Fault Int
  | .int n => .ok n
  | .real x =>
    match Binary64.shape x with
    | .finite negative m q => .ok (Binary64.truncate negative m q)
    | .infinite _ => .error (.noInteger true)
    | .nan => .error (.noInteger false)

/-- The opposite number. -/
def negate : Number → Number
  | .int n => .int (-n)
  | .real x => .real (-x)

/-- The number is zero; what is not a number is not. -/
def isZero : Number → Bool
  | .int n => n == 0
  | .real x => x == 0.0

@[simp] theorem toInteger_int (n : Int) : (Number.int n).toInteger = .ok n := rfl

@[simp] theorem toReal_real (x : Float) : (Number.real x).toReal = .ok x := rfl

end Number

end SeedGrowth
