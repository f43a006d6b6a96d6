import SeedGrowth.Pattern.Basic

/-!
# Rows of pieces

A pattern is written as alternatives, each a row of pieces. What all alternatives
have in front is common to them and comes before the choice; if each of them is then
left with the characters of a class, the choice is one class of all these characters.
-/
namespace SeedGrowth.Pattern

/-- A piece of a row. -/
inductive Piece where
  | one (cls : CharClass)
  | any
  | boundary (b : Boundary)
  /-- A repetition, a choice or a bracketed group. -/
  | whole (pattern : Pattern)

namespace Piece

/-- The pattern of a piece. -/
def toPattern : Piece → Pattern
  | one cls => .one cls
  | any => .any
  | boundary b => .boundary b
  | whole pattern => pattern

/-- Two pieces are written alike. Wholes are each their own. -/
def alike : Piece → Piece → Bool
  | one cls, one cls' => cls == cls'
  | any, any => true
  | boundary b, boundary b' => b == b'
  | _, _ => false

/-- The characters that a piece holds, given as items of a class. -/
def items? : Piece → Option (List ClassItem)
  | one cls => if cls.negated then none else some cls.items
  | _ => none

end Piece

/-- The pieces of one alternative. -/
abbrev Row := List Piece

namespace Row

/-- The pattern of a row. -/
def toPattern (row : Row) : Pattern :=
  match row with
  | [] => .empty
  | [piece] => piece.toPattern
  | piece :: rest => .append piece.toPattern (toPattern rest)

/-- The items of a row that is a single piece with items. -/
def items? : Row → Option (List ClassItem)
  | [piece] => piece.items?
  | _ => none

/-- What a row and others have in front, and what is left of each. -/
def splitCommon : Row → List Row → Row × List Row
  | [], others => ([], [] :: others)
  | piece :: rest, others =>
    if others.all fun row => row.head?.any piece.alike then
      let (common, rows) := splitCommon rest (others.map List.tail)
      (piece :: common, rows)
    else ([], (piece :: rest) :: others)

/-- The choice between rows, of which there is at least one. -/
def choice : List Row → Pattern
  | [] => .empty
  | [row] => row.toPattern
  | row :: rest => .either row.toPattern (choice rest)

/-- Alternatives as one row. -/
def ofAlternatives (first : Row) (others : List Row) : Row :=
  if others.isEmpty then first
  else
    let (common, rows) := splitCommon first others
    match rows.mapM items? with
    | some items => common ++ [.one ⟨false, items.flatten.eraseDups⟩]
    | none => common ++ [.whole (choice rows)]

@[simp] theorem ofAlternatives_nil (row : Row) : ofAlternatives row [] = row := rfl

end Row

end SeedGrowth.Pattern
