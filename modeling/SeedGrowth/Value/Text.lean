import SeedGrowth.Decimal.Reading
import SeedGrowth.Fault

/-!
# The text of values

A value is written so that its kind can be told: texts are quoted, fixed rows
stand in round brackets and open rows in square ones, and a fixed row of one item
ends in a comma. A value's plain text is the written form, except that a text is
its own plain text. Whole numbers beyond the limit on digits cannot be written.
-/
namespace SeedGrowth

/-- The decimal form of a whole number within the limit on digits. -/
def integerText (n : Int) : Except Fault String :=
  if n.natAbs < Nat.pow 10 Decimal.digitLimit then .ok (toString n) else .error .unwritableInteger

mutual

/-- The written form of a value. -/
def Value.written : Value → Except Fault String
  | .null => .ok "None"
  | .truth b => .ok (truthText b)
  | .int n => integerText n
  | .real x => .ok (realLayout.text x)
  | .nan _ => .ok realLayout.nan
  | .text s => .ok (Text.quoteString s)
  | .tuple [v] => do return "(" ++ (← Value.written v) ++ ",)"
  | .tuple items => do return "(" ++ ", ".intercalate (← Value.writtenAll items) ++ ")"
  | .list items => do return "[" ++ ", ".intercalate (← Value.writtenAll items) ++ "]"

/-- The written forms of the values of a row. -/
def Value.writtenAll : List Value → Except Fault (List String)
  | [] => .ok []
  | v :: vs => do return (← Value.written v) :: (← Value.writtenAll vs)

end

mutual

/-- A value can be written: no whole number in it is beyond the limit on digits. -/
def Value.writable : Value → Bool
  | .int n => n.natAbs < Nat.pow 10 Decimal.digitLimit
  | .tuple items => Value.writableAll items
  | .list items => Value.writableAll items
  | _ => true

/-- All values of a row can be written. -/
def Value.writableAll : List Value → Bool
  | [] => true
  | v :: vs => Value.writable v && Value.writableAll vs

end

/-- The plain text of a value. -/
def Value.plain : Value → Except Fault String
  | .text s => .ok s
  | v => v.written

/-- The plain text of a number. -/
def Number.plain (x : Number) : Except Fault String := x.toValue.plain

end SeedGrowth
