/-!
# Places in a text

A place is an offset with its line and column, the first column of a line being
one. Only a line feed begins a new line. Moving a place over a text depends on the
text alone, and moving over two texts in turn is moving over both at once.
-/
namespace SeedGrowth

/-- An offset into a text, with its line and column. -/
structure Place where
  offset : Int
  line : Int
  column : Int
deriving DecidableEq

namespace Place

/-- The beginning of a text. -/
def start : Place := ⟨0, 1, 1⟩

/-- The characters after the last line feed of a text. -/
def lastLine (text : List Char) : List Char := (text.reverse.takeWhile (· ≠ '\n')).reverse

/-- The place behind a text that begins at the given place. -/
def after (place : Place) (text : List Char) : Place where
  offset := place.offset + text.length
  line := place.line + text.count '\n'
  column :=
    if '\n' ∈ text then (lastLine text).length + 1 else place.column + text.length

@[simp] theorem after_nil (place : Place) : place.after [] = place := by
  simp [after]

@[simp] theorem offset_after (place : Place) (text : List Char) :
    (place.after text).offset = place.offset + text.length := rfl

@[simp] theorem line_after (place : Place) (text : List Char) :
    (place.after text).line = place.line + text.count '\n' := rfl

end Place

end SeedGrowth
