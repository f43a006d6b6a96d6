import SeedGrowth.Decimal.Layout

/-!
# Values

What a match is worth: nothing, a truth value, a number, a text, or a row of
values that is either fixed or open. Numbers are whole or real, and truth values
count as the whole numbers zero and one wherever a number is asked for.
-/
namespace SeedGrowth

/-- The worth of a match. -/
inductive Value where
  | null
  | truth (b : Bool)
  | int (n : Int)
  | real (x : Float)
  /-- A real that is not a number, as it was given. It equals nothing, but its mark
  tells it from others of its kind. -/
  | nan (mark : Nat)
  | text (s : String)
  /-- A row of a fixed length. -/
  | tuple (items : List Value)
  /-- A row that can grow. -/
  | list (items : List Value)
deriving Inhabited

/-- The kinds of values. -/
inductive Kind where
  | null
  | truth
  | int
  | real
  | text
  | tuple
  | list
deriving DecidableEq

/-- The word for a kind in messages. -/
def Kind.label : Kind → String
  | .null => "NoneType"
  | .truth => "bool"
  | .int => "int"
  | .real => "float"
  | .text => "str"
  | .tuple => "tuple"
  | .list => "list"

/-- The kind of a value. -/
def Value.kind : Value → Kind
  | .null => .null
  | .truth _ => .truth
  | .int _ => .int
  | .real _ => .real
  | .nan _ => .real
  | .text _ => .text
  | .tuple _ => .tuple
  | .list _ => .list

/-- A number, whole or real. -/
inductive Number where
  | int (n : Int)
  | real (x : Float)
deriving Inhabited

/-- The value of a number. -/
def Number.toValue : Number → Value
  | .int n => .int n
  | .real x => .real x

/-- The number zero or one that a truth value counts as. -/
def ofTruth (b : Bool) : Int := if b then 1 else 0

/-- The number that a value counts as. -/
def Value.number? : Value → Option Number
  | .truth b => some (.int (ofTruth b))
  | .int n => some (.int n)
  | .real x => some (.real x)
  | .nan _ => some (.real Binary64.notANumber)
  | _ => none

@[simp] theorem Value.number?_toValue (x : Number) : x.toValue.number? = some x := by
  cases x <;> rfl

/-- The whole number that a value counts as, if it is not real. -/
def Value.whole? : Value → Option Int
  | .truth b => some (ofTruth b)
  | .int n => some n
  | _ => none

/-- The text of a truth value. -/
def truthText (b : Bool) : String := if b then "True" else "False"

/-- Reals from `10^-4` up to below `10^16` are written positionally, and an
exponent has two digits or more. -/
def realLayout : Decimal.Layout where
  least := -4
  greatest := 15
  exponentWidth := 2
  infinity := "inf"
  nan := "nan"

/-- Places and counts are stored in 64 bits, one of which is a sign. -/
def placeLimit : Nat := 1 <<< 63

/-- The number can be stored as a place or a count. -/
def fitsPlace (n : Int) : Bool := -placeLimit ≤ n && n < placeLimit

/-- How many items are held in memory where nothing else is said, far fewer than can be
counted. -/
def memoryLimit : Nat := 1 <<< 28

end SeedGrowth
