/-!
# Lines of a text

A text is cut into lines at every character that ends a line, a carriage
return and the line feed after it counting as one break. The break belongs to
no line, and a break at the very end opens no further line. `pieces` cuts at
one given character only and keeps the last piece, even an empty one.
-/
namespace SeedGrowth.Text

/-- Line feed, vertical tab, form feed, carriage return, the file, group and
record separators, next line, and the two Unicode separators. -/
def isLineBreak (c : Char) : Bool :=
  ('\x0a' ≤ c && c ≤ '\x0d') || ('\x1c' ≤ c && c ≤ '\x1e') ||
    c = '\x85' || c = '\u2028' || c = '\u2029'

/-- Puts a character in front of the first line. -/
def consLine (c : Char) : List (List Char) → List (List Char)
  | [] => [[c]]
  | line :: rest => (c :: line) :: rest

@[simp] theorem consLine_nil (c : Char) : consLine c [] = [[c]] := rfl

@[simp] theorem consLine_cons (c : Char) (line : List Char) (rest : List (List Char)) :
    consLine c (line :: rest) = (c :: line) :: rest := rfl

/-- The lines of a text, without their breaks. -/
def lines : List Char → List (List Char)
  | [] => []
  | '\r' :: '\n' :: rest => [] :: lines rest
  | c :: rest => if isLineBreak c then [] :: lines rest else consLine c (lines rest)

@[simp] theorem lines_nil : lines [] = [] := rfl

@[simp] theorem lines_return_feed (rest : List Char) :
    lines ('\r' :: '\n' :: rest) = [] :: lines rest := by
  simp [lines]

theorem lines_cons {c : Char} (h : isLineBreak c = false) (rest : List Char) :
    lines (c :: rest) = consLine c (lines rest) := by
  have hr : c ≠ '\r' := by rintro rfl; simp [isLineBreak] at h
  rw [lines.eq_3 _ _ (fun _ hc _ => hr hc), h]
  simp

/-- The pieces between the occurrences of a character; one more than there are
occurrences. -/
def pieces (mark : Char) : List Char → List (List Char)
  | [] => [[]]
  | c :: rest => if c = mark then [] :: pieces mark rest else consLine c (pieces mark rest)

end SeedGrowth.Text
