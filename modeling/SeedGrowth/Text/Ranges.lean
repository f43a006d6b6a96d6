/-!
# Character classes given by ranges

A class of characters is a table of code point ranges, both ends included.
The classes of the standard that are too large for a formula are stored so.
-/
namespace SeedGrowth.Text

/-- Ranges of code points, in ascending order and disjoint. -/
abbrev Ranges := List (Nat × Nat)

/-- Some range holds the code point. -/
def Ranges.holds (ranges : Ranges) (point : Nat) : Bool :=
  ranges.any fun (first, last) => first ≤ point && point ≤ last

@[simp] theorem Ranges.holds_nil (point : Nat) : Ranges.holds [] point = false := rfl

@[simp] theorem Ranges.holds_cons (first last : Nat) (rest : Ranges) (point : Nat) :
    Ranges.holds ((first, last) :: rest) point =
      ((first ≤ point && point ≤ last) || Ranges.holds rest point) := rfl

end SeedGrowth.Text
