import SeedGrowth.Decimal.Reading
import SeedGrowth.Fault
import SeedGrowth.Pattern.Row

/-!
# Reading patterns

A pattern is read in two steps. First its text is cut into tokens: characters
and classes, brackets, bars and repetitions. Then the tokens are put together
with a stack of the groups that are open. Where no token can be read, a fault takes
its place, so that of several faults the first in the text is reported.
-/
namespace SeedGrowth.Pattern

/-- A part of the text of a pattern. -/
inductive Token where
  | piece (piece : Piece)
  /-- A bracket of a group, which keeps its alternatives together or only brackets
  them. -/
  | openGroup (keeps : Bool)
  | closeGroup
  | bar
  | repetition (least : Nat) (most : Option Nat) (greed : Greed)
  | fault (cause : Fault)

/-- The value of a hexadecimal digit. -/
def hexValue? (c : Char) : Option Nat :=
  if '0' ≤ c ∧ c ≤ '9' then some (c.toNat - '0'.toNat)
  else if 'a' ≤ c ∧ c ≤ 'f' then some (c.toNat - 'a'.toNat + 10)
  else if 'A' ≤ c ∧ c ≤ 'F' then some (c.toNat - 'A'.toNat + 10)
  else none

/-- A character given by a number of hexadecimal digits. -/
def readHex (width : Nat) (text : List Char) : Option (Char × List Char) := do
  let digits ← (text.take width).mapM hexValue?
  let n := digits.foldl (fun n digit => 16 * n + digit) 0
  if digits.length = width ∧ n.isValidChar then some (Char.ofNat n, text.drop width) else none

/-- An octal digit. -/
def isOctal (c : Char) : Bool := '0' ≤ c && c ≤ '7'

/-- A character given by zero and up to two octal digits. -/
def readOctal (text : List Char) : Char × List Char :=
  let digits := (text.take 2).takeWhile isOctal
  (Char.ofNat (digits.foldl (fun n c => 8 * n + (c.toNat - '0'.toNat)) 0), text.drop digits.length)

/-- A letter of the Latin alphabet without marks. -/
def isLetter (c : Char) : Bool := ('a' ≤ c && c ≤ 'z') || ('A' ≤ c && c ≤ 'Z')

/-- The item that a character stands for after a reverse solidus, inside or outside
brackets, and what follows it. -/
def readEscape : List Char → Option (ClassItem × List Char)
  | [] => none
  | 'd' :: rest => some (.digit true, rest)
  | 'D' :: rest => some (.digit false, rest)
  | 's' :: rest => some (.blank true, rest)
  | 'S' :: rest => some (.blank false, rest)
  | 'w' :: rest => some (.word true, rest)
  | 'W' :: rest => some (.word false, rest)
  | 'n' :: rest => some (.single '\n', rest)
  | 't' :: rest => some (.single '\t', rest)
  | 'r' :: rest => some (.single '\r', rest)
  | 'f' :: rest => some (.single '\x0c', rest)
  | 'v' :: rest => some (.single '\x0b', rest)
  | 'a' :: rest => some (.single '\x07', rest)
  | 'x' :: rest => (readHex 2 rest).map fun (c, rest) => (.single c, rest)
  | 'u' :: rest => (readHex 4 rest).map fun (c, rest) => (.single c, rest)
  | 'U' :: rest => (readHex 8 rest).map fun (c, rest) => (.single c, rest)
  | '0' :: rest => let (c, rest) := readOctal rest; some (.single c, rest)
  | c :: rest => if isLetter c || ('1' ≤ c && c ≤ '9') then none else some (.single c, rest)

/-- The token of what follows a reverse solidus outside brackets. -/
def readPieceEscape : List Char → Option (Token × List Char)
  | 'A' :: rest => some (.piece (.boundary .start), rest)
  | 'Z' :: rest => some (.piece (.boundary .veryEnd), rest)
  | 'b' :: rest => some (.piece (.boundary (.edge true)), rest)
  | 'B' :: rest => some (.piece (.boundary (.edge false)), rest)
  | text => (readEscape text).map fun (item, rest) => (.piece (.one (.ofItem item)), rest)

/-- One member of a class, and what follows it. -/
def readMember : List Char → Option (ClassItem × List Char)
  | [] => none
  | '\\' :: 'b' :: rest => some (.single '\x08', rest)
  | '\\' :: rest => readEscape rest
  | c :: rest => some (.single c, rest)

/-- The character that an item consists of. -/
def ClassItem.char? : ClassItem → Option Char
  | .single c => some c
  | _ => none

/-- The items of a class up to its closing bracket, which may stand first for
itself. A hyphen between two characters makes a range of them. -/
def readItems : (fuel : Nat) → (first : Bool) → List Char → Option (List ClassItem × List Char)
  | 0, _, _ => none
  | fuel + 1, first, text => do
    match text, first with
    | ']' :: rest, false => some ([], rest)
    | text, _ =>
      let (item, rest) ← readMember text
      match rest with
      | '-' :: ']' :: rest => some ([item, .single '-'], rest)
      | '-' :: rest =>
        let (last, rest) ← readMember rest
        let low ← item.char?
        let high ← last.char?
        if high < low then none
        else
          let (items, rest) ← readItems fuel false rest
          some (.range low high :: items, rest)
      | rest =>
        let (items, rest) ← readItems fuel false rest
        some (item :: items, rest)

/-- A class after its opening bracket. An item that is given twice counts once. -/
def readClass (text : List Char) : Option (CharClass × List Char) :=
  match text with
  | '^' :: rest => (readItems (text.length + 1) true rest).map fun (items, rest) =>
      (⟨true, items.eraseDups⟩, rest)
  | rest => (readItems (text.length + 1) true rest).map fun (items, rest) =>
      (⟨false, items.eraseDups⟩, rest)

/-- Rounds of a repetition are counted below this number. -/
def roundLimit : Nat := 4294967295

/-- The number of rounds that digits give, if there are any. -/
def roundCount (digits : List Char) : Except Fault (Option Nat) :=
  if digits.isEmpty then .ok none
  else if Decimal.digitLimit < digits.length then .error (.integerTooLong digits.length)
  else if roundLimit ≤ Text.numberOf digits then .error .tooManyRounds
  else .ok (some (Text.numberOf digits))

/-- The digits in braces, after the opening brace: those of the least and the greatest
number of rounds, and what follows. A text of another form is not a repetition. -/
def readBraces (text : List Char) : Option ((List Char × List Char) × List Char) :=
  match text with
  | '}' :: _ => none
  | text =>
    let least := text.takeWhile Text.isAsciiDigit
    match text.drop least.length with
    | ',' :: rest =>
      let most := rest.takeWhile Text.isAsciiDigit
      match rest.drop most.length with
      | '}' :: rest => some ((least, most), rest)
      | _ => none
    | '}' :: rest => some ((least, least), rest)
    | _ => none

/-- The least and the greatest number of rounds that digits give. -/
def roundCounts (least most : List Char) : Except Fault (Nat × Option Nat) := do
  let least := (← roundCount least).getD 0
  let most ← roundCount most
  if most.any (· < least) then throw .badPattern else return (least, most)

/-- The greed that is marked after a repetition. -/
def readGreed : List Char → Greed × List Char
  | '?' :: rest => (.fewest, rest)
  | '+' :: rest => (.all, rest)
  | rest => (.most, rest)

/-- The token of a repetition, and what follows it. -/
def readRepetition (least : Nat) (most : Option Nat) (text : List Char) : Token × List Char :=
  let (greed, rest) := readGreed text
  (.repetition least most greed, rest)

/-- The first token of a text, and what follows it. -/
def readToken? (c : Char) (rest : List Char) : Option (Token × List Char) :=
  match c with
  | '\\' => readPieceEscape rest
  | '[' => (readClass rest).map fun (cls, rest) => (.piece (.one cls), rest)
  | '.' => some (.piece .any, rest)
  | '^' => some (.piece (.boundary .start), rest)
  | '$' => some (.piece (.boundary .finish), rest)
  | '(' =>
    match rest with
    | '?' :: ':' :: rest => some (.openGroup false, rest)
    | '?' :: _ => none
    | rest => some (.openGroup true, rest)
  | ')' => some (.closeGroup, rest)
  | '|' => some (.bar, rest)
  | '*' => some (readRepetition 0 none rest)
  | '+' => some (readRepetition 1 none rest)
  | '?' => some (readRepetition 0 (some 1) rest)
  | '{' =>
    match readBraces rest with
    | none => some (.piece (.one (.single '{')), rest)
    | some ((least, most), rest) =>
      match roundCounts least most with
      | .ok (least, most) => some (readRepetition least most rest)
      | .error cause => some (.fault cause, rest)
  | c => some (.piece (.one (.single c)), rest)

/-- The tokens of a text; there are no more than characters. -/
def tokens : (fuel : Nat) → List Char → List Token
  | _, [] => []
  | 0, _ => []
  | fuel + 1, c :: rest =>
    match readToken? c rest with
    | some (token, rest) => token :: tokens fuel rest
    | none => [.fault .badPattern]

/-- A part of a row: a piece, or the pieces that stood in brackets. -/
structure Part where
  row : Row
  repeatable : Bool

/-- The part that a piece makes up; positions cannot be repeated. -/
def Piece.toPart : Piece → Part
  | .boundary b => ⟨[.boundary b], false⟩
  | piece => ⟨[piece], true⟩

/-- A group that is being read: its alternatives so far, and the parts of the last
one, the latest first. -/
structure OpenGroup where
  /-- The group keeps its alternatives together. -/
  keeps : Bool
  rows : List Row
  parts : List Part

namespace OpenGroup

/-- Nothing has been read. -/
def begin (keeps : Bool) : OpenGroup := ⟨keeps, [], []⟩

/-- The last alternative. -/
def row (group : OpenGroup) : Row := group.parts.foldl (fun rest part => part.row ++ rest) []

/-- All alternatives as one row. -/
def whole (group : OpenGroup) : Row :=
  match group.rows.reverse with
  | [] => group.row
  | first :: others => .ofAlternatives first (others ++ [group.row])

/-- The group as a part of the group around it. -/
def toPart (group : OpenGroup) : Part :=
  ⟨if group.keeps then [.whole group.whole.toPattern] else group.whole, true⟩

/-- The group with another part. -/
def add (group : OpenGroup) (part : Part) : OpenGroup := { group with parts := part :: group.parts }

/-- The group with another alternative. -/
def bar (group : OpenGroup) : OpenGroup :=
  { group with rows := group.row :: group.rows, parts := [] }

end OpenGroup

/-- The row that tokens amount to, given the innermost group and those around it. -/
def assemble : List Token → OpenGroup → List OpenGroup → Except Fault Row
  | [], group, [] => .ok group.whole
  | [], _, _ :: _ => .error .badPattern
  | .fault cause :: _, _, _ => .error cause
  | .piece piece :: rest, group, around => assemble rest (group.add piece.toPart) around
  | .openGroup keeps :: rest, group, around => assemble rest (.begin keeps) (group :: around)
  | .closeGroup :: rest, group, outer :: around => assemble rest (outer.add group.toPart) around
  | .closeGroup :: _, _, [] => .error .badPattern
  | .bar :: rest, group, around => assemble rest group.bar around
  | .repetition least most greed :: rest, group, around =>
    match group.parts with
    | ⟨row, true⟩ :: parts =>
      let part : Part := ⟨[.whole (.rounds least most greed row.toPattern)], false⟩
      assemble rest { group with parts := part :: parts } around
    | _ => .error .badPattern

/-- The pattern that a text describes. -/
def read (text : String) : Except Fault Pattern := do
  return (← assemble (tokens text.length text.toList) (.begin false) []).toPattern

end SeedGrowth.Pattern
