import SeedGrowth.Text.Ranges

/-!
# Blank characters

White space as the Unicode standard sees it for single characters: the
separators, and the controls whose direction is that of white space or of a
paragraph or segment separator. The zero width space and the byte order mark
are not blank.
-/
namespace SeedGrowth.Text

/-- Blanks beyond the first 128 code points. -/
def wideBlanks : Ranges :=
  [(0x85, 0x85), (0xa0, 0xa0), (0x1680, 0x1680), (0x2000, 0x200a), (0x2028, 0x2029),
   (0x202f, 0x202f), (0x205f, 0x205f), (0x3000, 0x3000)]

/-- A space, a tab or line control, or one of the four information separators. -/
def isNarrowBlank (c : Char) : Bool :=
  c = ' ' || ('\x09' ≤ c && c ≤ '\x0d') || ('\x1c' ≤ c && c ≤ '\x1f')

/-- White space of any width. -/
def isBlank (c : Char) : Bool :=
  isNarrowBlank c || wideBlanks.holds c.toNat

/-- The blanks of plain ASCII text: space, tab, line feed, vertical tab, form
feed and carriage return. -/
def isPlainBlank (c : Char) : Bool :=
  c = ' ' || ('\x09' ≤ c && c ≤ '\x0d')

theorem isBlank_of_isPlainBlank {c : Char} (h : isPlainBlank c = true) : isBlank c = true := by
  simp only [isPlainBlank, Bool.or_eq_true] at h
  simp only [isBlank, isNarrowBlank, Bool.or_eq_true]
  rcases h with h | h
  · exact .inl (.inl (.inl h))
  · exact .inl (.inl (.inr h))

end SeedGrowth.Text
