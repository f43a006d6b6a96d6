import SeedGrowth.Value.Text

/-!
# Places and counts given as values

A place or a count is given as a value and compared with bounds before it is
used. Only numbers can be compared; a real can be, but is of no use afterwards.
-/
namespace SeedGrowth

/-- The numbers from zero up to a natural number, which is one of them or not. -/
inductive Bound where
  | below (limit : Nat)
  | upTo (limit : Nat)

/-- A number is within a bound. -/
def Bound.holds : Bound → Number → Bool
  | below limit, .int n => 0 ≤ n && n < limit
  | upTo limit, .int n => 0 ≤ n && n ≤ limit
  | below limit, .real x => 0.0 ≤ x && x < Binary64.nearest false limit 1
  | upTo limit, .real x => 0.0 ≤ x && x ≤ Binary64.nearest false limit 1

/-- The natural number within a bound that a value stands for. A number out of bounds
is reported by its text, and a real within them is told to be unusable. -/
def Value.bounded (v : Value) (bound : Bound) (outside : String → Fault) (unusable : Mismatch) :
    Except Fault Nat :=
  match v.number? with
  | none => .error (.mismatch (.order v.kind))
  | some x =>
    if bound.holds x then
      match x with
      | .int n => .ok n.toNat
      | .real _ => .error (.mismatch unusable)
    else do throw (outside (← v.written))

theorem Value.bounded_natCast {n : Nat} {bound : Bound} (h : bound.holds (.int n) = true)
    (outside : String → Fault) (unusable : Mismatch) :
    (Value.int n).bounded bound outside unusable = .ok n := by
  simp [Value.bounded, Value.number?, h]

/-- The place that a value stands for in a row of some kind. -/
def Value.place (row : Kind) (v : Value) : Except Fault Int :=
  match v.whole? with
  | some n => if fitsPlace n then .ok n else .error .placeTooLarge
  | none => .error (.mismatch (.place row v.kind))

/-- The item at a place; places below zero count from the end. -/
def itemAt {α : Type} (items : List α) (place : Int) : Option α :=
  if 0 ≤ place then items[place.toNat]?
  else if -place ≤ items.length then items[(items.length + place).toNat]?
  else none

/-- The item of a row at a place. -/
def itemOf {α : Type} (row : Kind) (items : List α) (place : Value) : Except Fault α := do
  match itemAt items (← place.place row) with
  | some item => .ok item
  | none => .error (.itemOutOfRange row)

end SeedGrowth
