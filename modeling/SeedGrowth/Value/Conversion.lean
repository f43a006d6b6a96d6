import SeedGrowth.Value.Arithmetic
import SeedGrowth.Value.Index
import SeedGrowth.Value.Literal

/-!
# Conversions of values

Readings of values as numbers and texts, their sizes and their items. A
`Conversion` is a function on values by its name, as grammars use them on the
values of matches.
-/
namespace SeedGrowth

/-- The whole number of a value; reals lose their fractions. -/
def Value.toInteger (v : Value) : Except Fault Value :=
  match v with
  | .text s => integerOfText s
  | v =>
    match v.number? with
    | some x => Value.int <$> x.toInteger
    | none => .error (.mismatch (.toInteger v.kind))

/-- The real of a value. -/
def Value.toReal (v : Value) : Except Fault Value :=
  match v with
  | .text s => realOfText s
  | v =>
    match v.number? with
    | some x => Value.real <$> x.toReal
    | none => .error (.mismatch (.toReal v.kind))

/-- The number of characters or items. -/
def Value.size : Value → Except Fault Value
  | .text s => .ok (.int s.length)
  | .tuple items | .list items => .ok (.int items.length)
  | v => .error (.mismatch (.size v.kind))

/-- An item of a row, or a character of a text. -/
def Value.item (v : Value) (place : Value) : Except Fault Value :=
  match v with
  | .text s => (Value.text ∘ String.singleton) <$> itemOf .text s.toList place
  | .tuple items | .list items => itemOf v.kind items place
  | v => .error (.mismatch (.item v.kind))

/-- The item at a place that is counted from zero. -/
def Value.itemAt (v : Value) (place : Nat) : Except Fault Value := v.item (.int place)

mutual

/-- The texts inside a value, one after the other; nothing counts as the empty
text. -/
def Value.joined : Value → Except Fault String
  | .null => .ok ""
  | .text s => .ok s
  | .tuple items => Value.joinedAll items
  | .list items => Value.joinedAll items
  | v => .error (.mismatch (.iteration v.kind))

/-- The texts inside the values of a row. -/
def Value.joinedAll : List Value → Except Fault String
  | [] => .ok ""
  | v :: vs => do return (← Value.joined v) ++ (← Value.joinedAll vs)

end

/-- A function on the value of a match. -/
inductive Conversion where
  | integer
  | real
  | size
  | text
  | negate
  | joined
  | item (place : Value)
  /-- The first and the third item. -/
  | pair
  /-- One more than the first item. -/
  | successor
  | constant (value : Literal)
  /-- The value with a label before it. -/
  | labelled (label : Literal)
  | raise (message : String)
  /-- An operation between the first and the third item. -/
  | operation (op : Operation)

/-- The function that a conversion names. -/
def Conversion.apply : Conversion → Value → Except Fault Value
  | .integer, v => v.toInteger
  | .real, v => v.toReal
  | .size, v => v.size
  | .text, v => Value.text <$> v.plain
  | .negate, v => v.negate
  | .joined, v => Value.text <$> v.joined
  | .item place, v => v.item place
  | .pair, v => do return .tuple [← v.itemAt 0, ← v.itemAt 2]
  | .successor, v => do Operation.add.apply (← v.itemAt 0) (.int 1)
  | .constant value, _ => value
  | .labelled label, v => do return .tuple [← label, v]
  | .raise message, _ => .error (.raised message)
  | .operation op, v => do op.apply (← v.itemAt 0) (← v.itemAt 2)

end SeedGrowth
