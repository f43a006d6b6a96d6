import SeedGrowth.Text.Blank
import SeedGrowth.Text.Digit
import SeedGrowth.Binary64.Basic

/-!
# Reading numbers

Numbers are read from texts with blanks at either end, an optional sign and
digits of any script. Between two digits there may be one low line. A whole
number may have 4300 digits at most; a real may have any number of them, a
point and an exponent, and may be infinite or not a number.
-/
namespace SeedGrowth.Decimal

open Text

/-- The most digits that a whole number is read from or written with. -/
def digitLimit : Nat := 4300

/-- Blanks that may stand around a number. -/
def isMargin (c : Char) : Bool := isPlainBlank c || wideBlanks.holds c.toNat

/-- A text without the blanks around it. -/
def trim (text : List Char) : List Char :=
  ((text.dropWhile isMargin).reverse.dropWhile isMargin).reverse

/-- Reads a sign; `true` stands for minus. -/
def readSign : List Char → Bool × List Char
  | '-' :: rest => (true, rest)
  | '+' :: rest => (false, rest)
  | rest => (false, rest)

/-- The digits that go on a run, and what follows the run. Fails on a low line
that no digit follows. -/
def moreDigits : List Char → Option (List Nat × List Char)
  | [] => some ([], [])
  | '_' :: rest =>
    match rest with
    | [] => none
    | c :: rest =>
      match digitValue? c with
      | none => none
      | some value => (moreDigits rest).map fun (values, rest) => (value :: values, rest)
  | c :: rest =>
    match digitValue? c with
    | none => some ([], c :: rest)
    | some value => (moreDigits rest).map fun (values, rest) => (value :: values, rest)

/-- A run of digits with single low lines between them. Fails if it does not
start with a digit. -/
def readDigits : List Char → Option (List Nat × List Char)
  | [] => none
  | c :: rest =>
    match digitValue? c with
    | none => none
    | some value => (moreDigits rest).map fun (values, rest) => (value :: values, rest)

/-- The number with the given decimal digits. -/
def ofDigits (digits : List Nat) : Nat := digits.foldl (fun n digit => 10 * n + digit) 0

/-- Why a text is not read as a whole number. -/
inductive IntegerFault where
  | malformed
  | tooLong (digits : Nat)

/-- Reads a whole number. The limit on digits is tested before what follows
them. -/
def readInteger (text : List Char) : Except IntegerFault Int :=
  let (negative, rest) := readSign (trim text)
  match readDigits rest with
  | none => .error .malformed
  | some (digits, rest) =>
    if digitLimit < digits.length then .error (.tooLong digits.length)
    else if rest.isEmpty then
      .ok (if negative then -(ofDigits digits : Int) else ofDigits digits)
    else .error .malformed

/-- Digits that may be missing altogether. -/
def readDigits? (text : List Char) : Option (List Nat × List Char) :=
  match text with
  | c :: _ => if (digitValue? c).isSome then readDigits text else some ([], text)
  | [] => some ([], [])

/-- An exponent, or zero if none follows. -/
def readExponent (text : List Char) : Option (Int × List Char) :=
  match text with
  | c :: rest =>
    if c = 'e' ∨ c = 'E' then
      let (negative, rest) := readSign rest
      (readDigits rest).map fun (digits, rest) =>
        (if negative then -(ofDigits digits : Int) else ofDigits digits, rest)
    else some (0, text)
  | [] => some (0, [])

/-- The real nearest to `± n · 10^exponent`, where `n` has the given digits. The
exponents that leave the range whatever the digits are, are told apart first. -/
def realOf (negative : Bool) (digits : List Nat) (exponent : Int) : Float :=
  let n := ofDigits digits
  let size : Int := (toString n).length + exponent
  if n = 0 then Binary64.withSign negative 0
  else if 400 < size then Binary64.withSign negative Binary64.infinityBits
  else if size < -400 then Binary64.withSign negative 0
  else
    let (up, down) := ratioPow 10 exponent
    Binary64.nearest negative (n * up) down

/-- The words for reals that have no digits. -/
def readWord (negative : Bool) (text : List Char) : Option Float :=
  let word := String.ofList (text.map Char.toLower)
  if word = "inf" ∨ word = "infinity" then some (Binary64.withSign negative Binary64.infinityBits)
  else if word = "nan" then some (Binary64.withSign negative Binary64.nanBits)
  else none

/-- Reads a real: digits, a point with digits after it, an exponent. A digit
stands before or after the point. -/
def readReal (text : List Char) : Option Float :=
  let (negative, unsigned) := readSign (trim text)
  match readWord negative unsigned with
  | some x => some x
  | none => do
    let (whole, rest) ← readDigits? unsigned
    let (fraction, rest) ←
      match rest with
      | '.' :: rest => readDigits? rest
      | _ => some ([], rest)
    if whole.isEmpty ∧ fraction.isEmpty then none
    else
      let (exponent, rest) ← readExponent rest
      if rest.isEmpty then
        some (realOf negative (whole ++ fraction) (exponent - fraction.length))
      else none

end SeedGrowth.Decimal
