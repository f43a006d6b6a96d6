import SeedGrowth.Capacity.Basic
import SeedGrowth.Text.Quoted

/-!
# Faults

Whatever can go wrong apart from a match that fails, each by its cause. The
wording of all messages is in `Fault.message`.
-/
namespace SeedGrowth

/-- The divisions that have no answer at a divisor of zero. -/
inductive ZeroDivision where
  | quotient
  | realQuotient
  | remainder
  | realRemainder
deriving DecidableEq

/-- Kinds of values that an operation does not take. -/
inductive Mismatch where
  | unary (symbol : String) (operand : Kind)
  | binary (symbol : String) (left right : Kind)
  | concatenation (left right : Kind)
  | repetition (count : Kind)
  | toInteger (operand : Kind)
  | toReal (operand : Kind)
  | size (operand : Kind)
  | item (operand : Kind)
  /-- A place in a row that is not a whole number. -/
  | place (row operand : Kind)
  /-- The end of a piece of text that is not a whole number. -/
  | cut
  /-- A value that is not above or below zero. -/
  | order (operand : Kind)
  | iteration (operand : Kind)
deriving DecidableEq

/-- Why values cannot be filled into the slots of a text. -/
inductive Misfilling where
  /-- There are more slots than values. -/
  | tooFewValues
  /-- There are more values than slots. -/
  | tooManyValues
  /-- The text ends inside a slot. -/
  | unfinished
  /-- The text ends inside the name of a slot. -/
  | unfinishedName
  /-- A slot has a name, but the values have none. -/
  | unnamedValues
  /-- A slot of a kind that there is not, and where its kind stands. -/
  | unknownKind (kind : Char) (position : Nat)
  /-- A width or precision taken from a value that is not a whole number. -/
  | notWhole
  | widthTooLarge
  | precisionTooLarge
  /-- A precision that leaves no room for a sign and a mark. -/
  | precisionOverflow
  /-- A width taken from a value that is too large. -/
  | takenWidthTooLarge
  /-- A precision taken from a value that is too large. -/
  | takenPrecisionTooLarge
  /-- A value that is neither a character nor the number of one. -/
  | noCharacter
  /-- A number that is not that of a character. -/
  | characterOutOfRange
  /-- No number, where one is to be written with ten digits. -/
  | noNumber (slot : Char) (operand : Kind)
  /-- No whole number, where one is to be written with eight or sixteen digits. -/
  | noInteger (slot : Char) (operand : Kind)
  /-- No number, where a real is to be written. -/
  | noReal (operand : Kind)
deriving DecidableEq

/-- A source that does not match: where the match ended, and the line there. -/
structure Mismatched where
  file : String
  line : Int
  column : Int
  text : String
deriving DecidableEq

/-- Causes of failure. -/
inductive Fault where
  /-- A capacity that is not a positive multiple of the word size, as it was given. -/
  | badCapacity (capacity : String)
  /-- A count too large to be stored. -/
  | countTooLarge
  /-- A place too large to be stored. -/
  | placeTooLarge
  /-- More than there is memory for. -/
  | outOfMemory
  /-- A text that would be too long. -/
  | textTooLong
  /-- A registry without room for another name. -/
  | registryFull (capacity : Capacity)
  | flagOutOfRange (flag : String) (capacity : Nat)
  | countOutOfRange (count : String) (length : Nat)
  | itemOutOfRange (row : Kind)
  /-- A name that cannot be looked up. -/
  | unhashable (kind : Kind)
  /-- A cursor whose payload carries no flags. -/
  | flagless
  /-- A registry or rule that is not there. -/
  | unknownName (name : String)
  | zeroDivision (division : ZeroDivision)
  /-- A whole number beyond the reals. -/
  | tooLargeForReal
  /-- A quotient of whole numbers beyond the reals. -/
  | quotientTooLarge
  /-- A real that no whole number comes near. -/
  | noInteger (infinite : Bool)
  | malformedInteger (text : String)
  | malformedReal (text : String)
  /-- A whole number of too many digits to be read. -/
  | integerTooLong (digits : Nat)
  /-- A whole number of too many digits to be written. -/
  | unwritableInteger
  | mismatch (operands : Mismatch)
  | misfilling (cause : Misfilling)
  /-- Raised on request. -/
  | raised (message : String)
  /-- A literal that should have been one character. -/
  | notOneCharacter (text : String)
  /-- A pattern that cannot be read. -/
  | badPattern
  /-- A pattern that asks for more rounds of a repetition than can be counted. -/
  | tooManyRounds
  | unmatched (place : Mismatched)
deriving DecidableEq, Inhabited

/-- The message of every source that does not match. -/
def unmatchedMessage : String := "leftrec parse failure"

/-- The part of a file's name after its last slash. -/
def baseName (file : String) : String :=
  String.ofList (file.toList.reverse.takeWhile (· ≠ '/')).reverse

/-- The line that a message names; one too large to be stored is shown as `-1`. -/
def Mismatched.shownLine (place : Mismatched) : Int :=
  if fitsPlace place.line then place.line else -1

/-- The message, with the file and the line of the failure. -/
def Mismatched.message (place : Mismatched) : String :=
  s!"{unmatchedMessage} ({baseName place.file}, line {place.shownLine})"

/-- The wording of a division that has no answer. -/
def ZeroDivision.message : ZeroDivision → String
  | .quotient => "division by zero"
  | .realQuotient => "float division by zero"
  | .remainder => "integer modulo by zero"
  | .realRemainder => "float modulo"

/-- The wording of a place that is not a whole number. -/
def placeMessage (row operand : Kind) : String :=
  match row with
  | .text => s!"string indices must be integers, not '{operand.label}'"
  | row => s!"{row.label} indices must be integers or slices, not {operand.label}"

/-- The wording of an operation on the wrong kinds of values. -/
def Mismatch.message : Mismatch → String
  | .unary symbol operand => s!"bad operand type for unary {symbol}: '{operand.label}'"
  | .binary symbol left right =>
    s!"unsupported operand type(s) for {symbol}: '{left.label}' and '{right.label}'"
  | .concatenation left right =>
    s!"can only concatenate {left.label} (not \"{right.label}\") to {left.label}"
  | .repetition count => s!"can't multiply sequence by non-int of type '{count.label}'"
  | .toInteger operand =>
    s!"int() argument must be a string, a bytes-like object or a real number, not '{operand.label}'"
  | .toReal operand => s!"float() argument must be a string or a real number, not '{operand.label}'"
  | .size operand => s!"object of type '{operand.label}' has no len()"
  | .item operand => s!"'{operand.label}' object is not subscriptable"
  | .place row operand => placeMessage row operand
  | .cut => "slice indices must be integers or None or have an __index__ method"
  | .order operand => s!"'<=' not supported between instances of 'int' and '{operand.label}'"
  | .iteration operand => s!"'{operand.label}' object is not iterable"

/-- The kind of a slot as it is shown, which is in ASCII. -/
def shownKind (kind : Char) : Char := if '\x1f' ≤ kind ∧ kind < '\x7f' then kind else '?'

/-- The wording of values that cannot be filled into a text. -/
def Misfilling.message : Misfilling → String
  | .tooFewValues => "not enough arguments for format string"
  | .tooManyValues => "not all arguments converted during string formatting"
  | .unfinished => "incomplete format"
  | .unfinishedName => "incomplete format key"
  | .unnamedValues => "format requires a mapping"
  | .unknownKind kind position =>
    let number := String.ofList (Text.hexadecimal 1 kind.toNat)
    s!"unsupported format character '{shownKind kind}' (0x{number}) at index {position}"
  | .notWhole => "* wants int"
  | .widthTooLarge => "width too big"
  | .precisionTooLarge => "precision too big"
  | .precisionOverflow => "precision too large"
  | .takenWidthTooLarge => "Python int too large to convert to C ssize_t"
  | .takenPrecisionTooLarge => "Python int too large to convert to C int"
  | .noCharacter => "%c requires int or char"
  | .characterOutOfRange => "%c arg not in range(0x110000)"
  | .noNumber slot operand => s!"%{slot} format: a real number is required, not {operand.label}"
  | .noInteger slot operand => s!"%{slot} format: an integer is required, not {operand.label}"
  | .noReal operand => s!"must be real number, not {operand.label}"

/-- What the limit on digits is, for the two messages about it. -/
def digitLimitText : String := "Exceeds the limit (4300 digits) for integer string conversion"

/-- How the limit could be raised. -/
def digitLimitAdvice : String := "; use sys.set_int_max_str_digits() to increase the limit"

/-- The wording of counts and places that are too large. -/
def unstorableText : String := "cannot fit 'int' into an index-sized integer"

/-- The word for a row of values of which an item was asked. -/
def Kind.rowLabel : Kind → String
  | .text => "string"
  | kind => kind.label

/-- The message of a fault. -/
def Fault.message : Fault → String
  | .badCapacity capacity => s!"capacity must be a positive multiple of 64, got {capacity}"
  | .countTooLarge | .placeTooLarge => unstorableText
  | .outOfMemory => ""
  | .textTooLong => "repeated string is too long"
  | .registryFull capacity =>
    s!"Recursive tracers exceed the maximum number ({capacity.text}). Use a registry with a " ++
      s!"wider capacity (e.g. {capacity.doubled.text}) to extend it."
  | .flagOutOfRange flag capacity => s!"flag {flag} out of range for capacity {capacity}"
  | .countOutOfRange count length => s!"cannot take {count} characters from {length}"
  | .itemOutOfRange row => s!"{row.rowLabel} index out of range"
  | .unhashable kind => s!"unhashable type: '{kind.label}'"
  | .flagless => "'NoneType' object has no attribute 'get_recursive_info'"
  | .unknownName name => Text.quoteString name
  | .zeroDivision division => division.message
  | .tooLargeForReal => "int too large to convert to float"
  | .quotientTooLarge => "integer division result too large for a float"
  | .noInteger true => "cannot convert float infinity to integer"
  | .noInteger false => "cannot convert float NaN to integer"
  | .malformedInteger text =>
    "invalid literal for int() with base 10: " ++ Text.truncate 200 (Text.quoteString text)
  | .malformedReal text => "could not convert string to float: " ++ Text.quoteString text
  | .integerTooLong digits => digitLimitText ++ s!": value has {digits} digits" ++ digitLimitAdvice
  | .unwritableInteger => digitLimitText ++ digitLimitAdvice
  | .mismatch operands => operands.message
  | .misfilling cause => cause.message
  | .raised message => message
  | .notOneCharacter text => text
  | .badPattern => ""
  | .tooManyRounds => "the repetition number is too large"
  | .unmatched place => place.message

end SeedGrowth
