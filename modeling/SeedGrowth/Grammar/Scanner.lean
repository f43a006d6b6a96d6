import SeedGrowth.Text.Blank
import SeedGrowth.Text.Digit

/-!
# Scanners

A scanner looks at the text ahead and says how many characters it takes, never
more than there are. The ones here take runs of characters; patterns are read
into scanners elsewhere.
-/
namespace SeedGrowth

/-- A function that takes characters off the front of a text. -/
structure Scanner where
  scan : List Char → Option Nat
  scan_le : ∀ {text count}, scan text = some count → count ≤ text.length

namespace Scanner

/-- How many characters at the front are of a class. -/
def run (is : Char → Bool) (text : List Char) : Nat := (text.takeWhile is).length

theorem run_le (is : Char → Bool) (text : List Char) : run is text ≤ text.length :=
  (List.takeWhile_sublist is).length_le

/-- Any number of characters of a class. -/
def many (is : Char → Bool) : Scanner where
  scan text := some (run is text)
  scan_le h := by
    cases h
    exact run_le ..

/-- One character of a class or more. -/
def some1 (is : Char → Bool) : Scanner where
  scan text := if run is text = 0 then none else some (run is text)
  scan_le h := by
    split at h <;> cases h
    exact run_le ..

/-- Any number of blanks. -/
def blanks : Scanner := many Text.isBlank

/-- One digit or more. -/
def digits : Scanner := some1 Text.isAsciiDigit

/-- How many characters of a point and digits are ahead; none without a point. -/
def fractionLength : List Char → Nat
  | '.' :: rest => run Text.isAsciiDigit rest + 1
  | _ => 0

theorem fractionLength_le (text : List Char) : fractionLength text ≤ text.length := by
  unfold fractionLength
  split
  · simp [run_le]
  · exact Nat.zero_le _

/-- Digits, and after them a point with or without digits. -/
def numeral : Scanner where
  scan text :=
    let whole := run Text.isAsciiDigit text
    if whole = 0 then none else some (whole + fractionLength (text.drop whole))
  scan_le {text count} h := by
    simp only at h
    split at h <;> cases h
    have hw := run_le Text.isAsciiDigit text
    have hf := fractionLength_le (text.drop (run Text.isAsciiDigit text))
    rw [List.length_drop] at hf
    omega

end Scanner

end SeedGrowth
