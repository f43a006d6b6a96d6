import SeedGrowth.Binary64.Remainder
import SeedGrowth.Value.Filling

/-!
# Arithmetic

Whole numbers stay whole except in quotients. As soon as one operand is real,
the other is made real first, which fails for whole numbers out of range. The
remainder goes with the floor of the quotient. Sums also join texts and rows,
products repeat them, and a remainder of a text is that text filled with values.
-/
namespace SeedGrowth

/-- The operations between two numbers. -/
inductive Operation where
  | add
  | subtract
  | multiply
  | divide
  | remainder
deriving DecidableEq

/-- The sign of an operation. -/
def Operation.symbol : Operation → String
  | .add => "+"
  | .subtract => "-"
  | .multiply => "*"
  | .divide => "/"
  | .remainder => "%"

/-- The quotient of whole numbers, rounded once. -/
def divideWhole (m n : Int) : Except Fault Number :=
  if n = 0 then .error (.zeroDivision .quotient)
  else
    match Binary64.nearest? (decide (m < 0) != decide (n < 0)) m.natAbs n.natAbs with
    | some x => .ok (.real x)
    | none => .error .quotientTooLarge

/-- An operation on whole numbers. -/
def Operation.onWhole : Operation → Int → Int → Except Fault Number
  | .add, m, n => .ok (.int (m + n))
  | .subtract, m, n => .ok (.int (m - n))
  | .multiply, m, n => .ok (.int (m * n))
  | .divide, m, n => divideWhole m n
  | .remainder, m, n =>
    if n = 0 then .error (.zeroDivision .remainder) else .ok (.int (m.fmod n))

/-- An operation on reals. -/
def Operation.onReal : Operation → Float → Float → Except Fault Number
  | .add, x, y => .ok (.real (x + y))
  | .subtract, x, y => .ok (.real (x - y))
  | .multiply, x, y => .ok (.real (x * y))
  | .divide, x, y =>
    if y == 0.0 then .error (.zeroDivision .realQuotient) else .ok (.real (x / y))
  | .remainder, x, y =>
    if y == 0.0 then .error (.zeroDivision .realRemainder)
    else .ok (.real (Binary64.floorRemainder x y))

/-- An operation on numbers. -/
def Operation.onNumbers (op : Operation) : Number → Number → Except Fault Number
  | .int m, .int n => op.onWhole m n
  | a, b => do op.onReal (← a.toReal) (← b.toReal)

/-- The items in a row as often as a count says; never, if it is not positive. -/
def repeated {α : Type} (count : Int) (items : List α) : List α :=
  (List.replicate count.toNat items).flatten

/-- A count of repetitions, which is whole and can be stored. -/
def Value.count (v : Value) : Except Fault Int :=
  match v.whole? with
  | some n => if fitsPlace n then .ok n else .error .countTooLarge
  | none => .error (.mismatch (.repetition v.kind))

/-- A row, repeated, if there is memory for it. An empty row stays empty however
often it is repeated. -/
def repeatRow {α : Type} (items : List α) (count : Int) : Except Fault (List α) :=
  if items.isEmpty then .ok []
  else if memoryLimit ≤ items.length * count.toNat then .error .outOfMemory
  else .ok (repeated count items)

/-- A text, repeated. -/
def repeatText (s : String) (count : Int) : Except Fault String :=
  if placeLimit ≤ s.length * count.toNat then .error .textTooLong
  else String.ofList <$> repeatRow s.toList count

/-- A text or row, repeated. -/
def Value.repeat? (count : Value) : Value → Option (Except Fault Value)
  | .text s => some do return .text (← repeatText s (← count.count))
  | .tuple items => some do return .tuple (← repeatRow items (← count.count))
  | .list items => some do return .list (← repeatRow items (← count.count))
  | _ => none

/-- The sum of values that are not both numbers. -/
def Value.join : Value → Value → Except Fault Value
  | .text s, .text t => .ok (.text (s ++ t))
  | .tuple vs, .tuple ws => .ok (.tuple (vs ++ ws))
  | .list vs, .list ws => .ok (.list (vs ++ ws))
  | v, w =>
    match v.kind with
    | .text | .tuple | .list => .error (.mismatch (.concatenation v.kind w.kind))
    | _ => .error (.mismatch (.binary "+" v.kind w.kind))

/-- The product of values that are not both numbers: a row times a count, in
either order. -/
def Value.times (v w : Value) : Except Fault Value :=
  match w.repeat? v, v.repeat? w with
  | some product, _ => product
  | none, some product => product
  | none, none => .error (.mismatch (.binary "*" v.kind w.kind))

/-- The remainder of values that are not both numbers, which is a text with slots
filled. -/
def Value.fill : Value → Value → Except Fault Value
  | .text s, w => fillText s w
  | v, w => .error (.mismatch (.binary "%" v.kind w.kind))

/-- An operation on values. -/
def Operation.apply (op : Operation) (v w : Value) : Except Fault Value :=
  match v.number?, w.number? with
  | some x, some y => Number.toValue <$> op.onNumbers x y
  | _, _ =>
    match op with
    | .add => v.join w
    | .multiply => v.times w
    | .remainder => v.fill w
    | op => .error (.mismatch (.binary op.symbol v.kind w.kind))

@[simp] theorem Operation.apply_toValue (op : Operation) (x y : Number) :
    op.apply x.toValue y.toValue = Number.toValue <$> op.onNumbers x y := by
  simp [Operation.apply]

/-- The opposite of a value. -/
def Value.negate (v : Value) : Except Fault Value :=
  match v.number? with
  | some x => .ok x.negate.toValue
  | none => .error (.mismatch (.unary "-" v.kind))

end SeedGrowth
