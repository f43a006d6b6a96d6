import SeedGrowth.Text.Printable

/-!
# Quoted text

A text is quoted so that its written form fits on one line: a mark at either
end, a reverse solidus before marks and before itself, letters for the three
common controls, and hexadecimal numbers for whatever cannot be printed.
-/
namespace SeedGrowth.Text

/-- The hexadecimal digits of a number, padded with zeros to a width. -/
def hexadecimal (width : Nat) (n : Nat) : List Char :=
  let digits := Nat.toDigits 16 n
  List.replicate (width - digits.length) '0' ++ digits

/-- The mark to use: a single mark, unless the text holds one and no double
mark. -/
def quoteMark (text : List Char) : Char :=
  if '\'' ∈ text ∧ '"' ∉ text then '"' else '\''

/-- A character written by its number, with as many digits as it may need. -/
def numbered (c : Char) : List Char :=
  if c.toNat < 0x100 then '\\' :: 'x' :: hexadecimal 2 c.toNat
  else if c.toNat < 0x10000 then '\\' :: 'u' :: hexadecimal 4 c.toNat
  else '\\' :: 'U' :: hexadecimal 8 c.toNat

/-- The written form of one character between marks of the given kind. -/
def quoteCharacter (mark c : Char) : List Char :=
  if c = mark || c = '\\' then ['\\', c]
  else if c = '\n' then ['\\', 'n']
  else if c = '\r' then ['\\', 'r']
  else if c = '\t' then ['\\', 't']
  else if isPrintable c then [c]
  else numbered c

/-- The quoted form of a text. -/
def quote (text : List Char) : List Char :=
  let mark := quoteMark text
  mark :: (text.flatMap (quoteCharacter mark) ++ [mark])

/-- The quoted form of a string. -/
def quoteString (text : String) : String := String.ofList (quote text.toList)

/-- A text in ASCII, with all other characters written by their numbers. -/
def inAscii (text : String) : String :=
  String.ofList (text.toList.flatMap fun c => if c < '\x80' then [c] else numbered c)

/-- The first characters of a string. -/
def truncate (count : Nat) (text : String) : String := String.ofList (text.toList.take count)

end SeedGrowth.Text
