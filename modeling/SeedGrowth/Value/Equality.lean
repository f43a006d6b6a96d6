import SeedGrowth.Binary64.Basic
import SeedGrowth.Fault

/-!
# Equality of values

Numbers are equal by what they amount to, whether whole, real or truth values;
a fixed row never equals an open one. A real that is not a number does not equal
itself, but it is recognised by its mark, and items of rows and names are compared
by what is recognised. Values can serve as names if no open row is in them.
-/
namespace SeedGrowth

/-- Numbers are equal if they amount to the same. -/
def Number.same : Number → Number → Bool
  | .int m, .int n => m == n
  | .real x, .real y => x == y
  | .int n, .real x | .real x, .int n => (Binary64.shape x).isInt n

/-- Both values are the same real that is not a number. -/
def Value.sameMark : Value → Value → Bool
  | .nan m, .nan n => m == n
  | _, _ => false

mutual

/-- Equality of values. -/
def Value.same : Value → Value → Bool
  | .null, .null => true
  | .text s, .text t => s == t
  | .tuple vs, .tuple ws => Value.sameAll vs ws
  | .list vs, .list ws => Value.sameAll vs ws
  | v, w =>
    match v.number?, w.number? with
    | some x, some y => x.same y
    | _, _ => false

/-- Equality of rows, item by item. -/
def Value.sameAll : List Value → List Value → Bool
  | [], [] => true
  | v :: vs, w :: ws => (Value.sameMark v w || Value.same v w) && Value.sameAll vs ws
  | _, _ => false

end

instance : BEq Value := ⟨Value.same⟩

/-- A value is recognised as another. -/
def Value.alike (v w : Value) : Bool := v.sameMark w || v.same w

mutual

/-- The value holds no open row. -/
def Value.hashable : Value → Bool
  | .list _ => false
  | .tuple items => Value.hashableAll items
  | _ => true

/-- No value of the row holds an open row. -/
def Value.hashableAll : List Value → Bool
  | [] => true
  | v :: vs => Value.hashable v && Value.hashableAll vs

end

end SeedGrowth
