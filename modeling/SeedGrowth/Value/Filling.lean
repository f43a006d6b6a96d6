import SeedGrowth.Decimal.Precise
import SeedGrowth.Value.Numeric
import SeedGrowth.Value.Text

/-!
# Filling values into texts

A text can have slots for values. A slot begins with a per cent sign and ends with
a letter for its kind; between them there may be marks, a width and a precision. A
star in place of a width or precision takes it from the values. The values of a
fixed row are used one after the other, and any other value is used by itself. All
values must be used, except that an open row can be left over. A doubled per cent
sign stands for one.
-/
namespace SeedGrowth

/-- The values that have not been used yet. -/
structure Supply where
  rest : List Value
  /-- The value is an open row. -/
  isOpen : Bool

namespace Supply

/-- The values that a value supplies. -/
def ofValue : Value → Supply
  | .tuple items => ⟨items, false⟩
  | .list items => ⟨[.list items], true⟩
  | v => ⟨[v], false⟩

/-- The next value, and those after it. -/
def next (supply : Supply) : Except Fault (Value × Supply) :=
  match supply.rest with
  | [] => .error (.misfilling .tooFewValues)
  | v :: rest => .ok (v, { supply with rest })

/-- The next value, which has to be whole. -/
def nextWhole (supply : Supply) : Except Fault (Int × Supply) := do
  let (v, supply) ← supply.next
  match v.whole? with
  | some n => return (n, supply)
  | none => throw (.misfilling .notWhole)

/-- Nothing may be left over but an open row. -/
def isDone (supply : Supply) : Bool := supply.rest.isEmpty || supply.isOpen

end Supply

/-- Precisions are stored in 32 bits, one of which is a sign. -/
def precisionLimit : Nat := 1 <<< 31

/-- The room for a sign and a mark. -/
def markRoom : Nat := 3

/-- A slot for a value. -/
structure Slot where
  /-- The value stands at the left of the slot. -/
  leftward : Bool
  /-- A number that is not below zero has a plus sign. -/
  signed : Bool
  /-- A number that is not below zero has a space for a sign. -/
  spaced : Bool
  /-- The base of a whole number is marked, and the point of a real is kept. -/
  marked : Bool
  /-- There are zeros in front of a number. -/
  zeroed : Bool
  width : Nat
  precision : Option Nat
  kind : Char

/-- The brackets around the name of a slot are closed, given how many are open. -/
def closes : Nat → List Char → Bool
  | _, [] => false
  | depth, ')' :: rest => depth ≤ 1 || closes (depth - 1) rest
  | depth, '(' :: rest => closes (depth + 1) rest
  | depth, _ :: rest => closes depth rest

/-- Slots with names are refused: only an open row could know them, and its items are
known by their places. -/
def refuseName (supply : Supply) : List Char → Except Fault Unit
  | '(' :: rest =>
    if !supply.isOpen then .error (.misfilling .unnamedValues)
    else if closes 1 rest then .error (.mismatch (.place .list .text))
    else .error (.misfilling .unfinishedName)
  | _ => .ok ()

/-- Reads a width, which is below zero for a value at the left; zero if there is none. -/
def readWidth (text : List Char) (supply : Supply) :
    Except Fault (Int × List Char × Supply) :=
  match text with
  | '*' :: rest => do
    let (n, supply) ← supply.nextWhole
    if fitsPlace n then return (n, rest, supply) else throw (.misfilling .takenWidthTooLarge)
  | text =>
    let digits := text.takeWhile Text.isAsciiDigit
    if Text.numberOf digits < placeLimit then
      .ok (Text.numberOf digits, text.drop digits.length, supply)
    else .error (.misfilling .widthTooLarge)

/-- Reads a precision after its point; one below zero counts as zero. -/
def readPrecision (text : List Char) (supply : Supply) :
    Except Fault (Option Nat × List Char × Supply) :=
  match text with
  | '.' :: '*' :: rest => do
    let (n, supply) ← supply.nextWhole
    if -precisionLimit ≤ n ∧ n < precisionLimit then return (some n.toNat, rest, supply)
    else throw (.misfilling .takenPrecisionTooLarge)
  | '.' :: text =>
    let digits := text.takeWhile Text.isAsciiDigit
    if Text.numberOf digits < precisionLimit then
      .ok (some (Text.numberOf digits), text.drop digits.length, supply)
    else .error (.misfilling .precisionTooLarge)
  | text => .ok (none, text, supply)

/-- A letter for the size of a number, which has no meaning here. -/
def isSizeLetter (c : Char) : Bool := c = 'h' || c = 'l' || c = 'L'

/-- Drops a letter for a size. -/
def dropSizeLetter : List Char → List Char
  | c :: rest => if isSizeLetter c then rest else c :: rest
  | [] => []

/-- A mark of a slot. -/
def isMark (c : Char) : Bool := c = '-' || c = '+' || c = ' ' || c = '#' || c = '0'

/-- Reads a slot after its per cent sign. -/
def Slot.read (text : List Char) (supply : Supply) : Except Fault (Slot × List Char × Supply) := do
  refuseName supply text
  let marks := text.takeWhile isMark
  let (width, text, supply) ← readWidth (text.drop marks.length) supply
  let (precision, text, supply) ← readPrecision text supply
  match dropSizeLetter text with
  | [] => throw (.misfilling .unfinished)
  | kind :: rest =>
    let slot : Slot := {
      leftward := '-' ∈ marks || width < 0
      signed := '+' ∈ marks
      spaced := ' ' ∈ marks
      marked := '#' ∈ marks
      zeroed := '0' ∈ marks
      width := width.natAbs
      precision
      kind }
    return (slot, rest, supply)

namespace Slot

/-- Spaces in a row. -/
def spaces (count : Nat) : String := String.ofList (List.replicate count ' ')

/-- A text in a slot. -/
def layText (slot : Slot) (text : String) : Except Fault String :=
  if memoryLimit ≤ slot.width then .error .outOfMemory
  else
    let room := spaces (slot.width - text.length)
    .ok (if slot.leftward then text ++ room else room ++ text)

/-- The sign of a number. -/
def sign (slot : Slot) (negative : Bool) : String :=
  if negative then "-" else if slot.signed then "+" else if slot.spaced then " " else ""

/-- A number in a slot: zeros stand between the mark and the digits, and spaces
outside. -/
def layNumber (slot : Slot) (negative : Bool) (mark digits : String) : Except Fault String :=
  let front := slot.sign negative ++ mark
  if memoryLimit ≤ slot.width then .error .outOfMemory
  else if slot.zeroed ∧ !slot.leftward then
    .ok (front ++ Decimal.zeros (slot.width - front.length - digits.length) ++ digits)
  else slot.layText (front ++ digits)

/-- Upper case for kinds that are in upper case. -/
def inCase (slot : Slot) (text : String) : String :=
  if slot.kind.isUpper then text.map Char.toUpper else text

/-- A whole number in a slot, in a base, with its mark. -/
def layWhole (slot : Slot) (base : Nat) (mark : String) (n : Int) : Except Fault String :=
  let precision := slot.precision.getD 0
  if precisionLimit ≤ precision + markRoom then .error (.misfilling .precisionOverflow)
  else if base = 10 ∧ !(Value.int n).writable then .error .unwritableInteger
  else if memoryLimit ≤ precision then .error .outOfMemory
  else
    let digits := String.ofList (Nat.toDigits base n.natAbs)
    let padded := Decimal.zeros (precision - digits.length) ++ digits
    slot.layNumber (n < 0) (slot.inCase (if slot.marked then mark else "")) (slot.inCase padded)

/-- The text of a real without its sign. -/
def realText (slot : Slot) (x : Float) : String :=
  let precision := slot.precision.getD 6
  match Binary64.shape x with
  | .nan => slot.inCase "nan"
  | .infinite _ => slot.inCase "inf"
  | .finite _ m q =>
    let letter := if slot.kind.isUpper then 'E' else 'e'
    match slot.kind.toLower with
    | 'f' => Decimal.fixedText precision slot.marked m q
    | 'e' => Decimal.scientificText precision slot.marked letter m q
    | _ => Decimal.generalText (max precision 1) slot.marked letter m q

/-- The character that a value is or has the number of. -/
def character : Value → Except Fault Char
  | .text s =>
    match s.toList with
    | [c] => .ok c
    | _ => .error (.misfilling .noCharacter)
  | v =>
    match v.whole? with
    | none => .error (.misfilling .noCharacter)
    | some n =>
      if 0 ≤ n ∧ n < 0x110000 then .ok (Char.ofNat n.toNat)
      else .error (.misfilling .characterOutOfRange)

/-- The first characters of a text, if there is a precision. -/
def cut (slot : Slot) (text : String) : String :=
  match slot.precision with
  | some count => Text.truncate count text
  | none => text

/-- A value in a slot, given where the kind of the slot stands. -/
def fill (slot : Slot) (v : Value) (position : Nat) : Except Fault String := do
  match slot.kind with
  | 's' => slot.layText (slot.cut (← v.plain))
  | 'r' => slot.layText (slot.cut (← v.written))
  | 'a' => slot.layText (slot.cut (Text.inAscii (← v.written)))
  | 'c' => slot.layText (String.singleton (← character v))
  | 'd' | 'i' | 'u' =>
    match v.number? with
    | some x => slot.layWhole 10 "" (← x.toInteger)
    | none => throw (.misfilling (.noNumber slot.kind v.kind))
  | 'o' | 'x' | 'X' =>
    match v.whole? with
    | some n => if slot.kind = 'o' then slot.layWhole 8 "0o" n else slot.layWhole 16 "0x" n
    | none => throw (.misfilling (.noInteger slot.kind v.kind))
  | 'e' | 'E' | 'f' | 'F' | 'g' | 'G' =>
    match v.number? with
    | some x =>
      let x ← x.toReal
      slot.layNumber (Binary64.isNegative x) "" (slot.realText x)
    | none => throw (.misfilling (.noReal v.kind))
  | kind => throw (.misfilling (.unknownKind kind position))

end Slot

/-- Fills values into what is left of a text of some length. Every round uses up a
character or more. -/
def fillFrom (length : Nat) : (rounds : Nat) → List Char → Supply → Except Fault (List Char)
  | 0, _, _ => .ok []
  | rounds + 1, text, supply =>
    let run := text.takeWhile (· ≠ '%')
    match text.drop run.length with
    | [] => if supply.isDone then .ok run else .error (.misfilling .tooManyValues)
    | _ :: '%' :: rest => do return run ++ '%' :: (← fillFrom length rounds rest supply)
    | _ :: rest => do
      let (slot, rest, supply) ← Slot.read rest supply
      let (v, supply) ← supply.next
      let filled ← slot.fill v (length - rest.length - 1)
      return run ++ filled.toList ++ (← fillFrom length rounds rest supply)

/-- A text with a value, or the values of a fixed row, filled in. -/
def fillText (s : String) (v : Value) : Except Fault Value := do
  let text := s.toList
  return .text (String.ofList (← fillFrom text.length (text.length + 1) text (.ofValue v)))

end SeedGrowth
