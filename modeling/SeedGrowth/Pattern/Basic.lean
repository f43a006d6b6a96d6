import SeedGrowth.Text.Casing
import SeedGrowth.Text.Blank
import SeedGrowth.Text.Word

/-!
# Patterns

A pattern describes texts by classes of characters, positions, and the usual ways
to put patterns together. Repetitions take as many rounds as they can, as few as
they can, or as many as they can without ever giving one back.
-/
namespace SeedGrowth

namespace Pattern

/-- Part of a class of characters. -/
inductive ClassItem where
  | single (c : Char)
  /-- The characters from the first to the last. -/
  | range (first last : Char)
  | digit (within : Bool)
  | blank (within : Bool)
  | word (within : Bool)
deriving DecidableEq

/-- The characters that are of one of the items, or those that are of none. -/
structure CharClass where
  negated : Bool
  items : List ClassItem
deriving DecidableEq

/-- How many rounds of a repetition are preferred. -/
inductive Greed where
  | most
  | fewest
  /-- As many as there are, none of which is given back. -/
  | all
deriving DecidableEq

/-- How characters are compared. -/
structure Options where
  ignoreCase : Bool
  /-- Any character may be a line feed, too. -/
  anyLine : Bool

/-- Whether an item holds a character as it stands. -/
def ClassItem.holds : ClassItem → Char → Bool
  | single s, c => s == c
  | range first last, c => first ≤ c && c ≤ last
  | digit within, c => Text.isDecimalDigit c == within
  | blank within, c => Text.isBlank c == within
  | word within, c => Text.isWordCharacter c == within

/-- The character is in the basic plane of 2^16 characters. -/
def isBasic (c : Char) : Bool := c.toNat < 0x10000

/-- Whether one of several items holds a character that is given in lower case, in any
case. Beyond the basic plane only ranges hold both cases. -/
def ClassItem.holdsVariant : ClassItem → Char → Bool
  | single s, c => if isBasic s then (Text.caseVariants c).contains s else s == c
  | range first last, c => (Text.caseVariants c).any (range first last).holds
  | item, c => item.holds c

/-- Whether one of the items holds a character in any case. A character that is the
only item is compared in either case, whatever plane it is in. -/
def holdsInAnyCase (items : List ClassItem) (c : Char) : Bool :=
  let lower := Text.lowerCase c
  match items with
  | [.single s] => (Text.caseVariants lower).contains s
  | items => items.any fun item => item.holdsVariant lower

/-- Whether a character is of a class. -/
def CharClass.holds (options : Options) (cls : CharClass) (c : Char) : Bool :=
  let held :=
    if options.ignoreCase then holdsInAnyCase cls.items c
    else cls.items.any fun item => item.holds c
  held != cls.negated

/-- The class of one item. -/
def CharClass.ofItem (item : ClassItem) : CharClass := ⟨false, [item]⟩

/-- The class of one character. -/
def CharClass.single (c : Char) : CharClass := .ofItem (.single c)

/-- What is asked of a position. -/
inductive Boundary where
  /-- The beginning of the text. -/
  | start
  /-- The end of the text, or the line feed at the end. -/
  | finish
  /-- The very end of the text. -/
  | veryEnd
  /-- Between a word and something else, or not there; never in an empty text. -/
  | edge (between : Bool)
deriving DecidableEq

end Pattern

open Pattern in
/-- A description of texts. -/
inductive Pattern where
  | empty
  | one (cls : CharClass)
  /-- Any character, as a rule except the line feed. -/
  | any
  | boundary (b : Boundary)
  | append (first second : Pattern)
  | either (first second : Pattern)
  | rounds (least : Nat) (most : Option Nat) (greed : Greed) (body : Pattern)

end SeedGrowth
