import SeedGrowth.Value.Basic

/-!
# Capacities

Flags come in words of 64, so the number of flags is a positive multiple of 64.
A `Capacity` is such a number, given by its words. It may have been given as a
real, which is told wherever it is shown.
-/
namespace SeedGrowth

/-- The number of flags in a word. -/
def wordSize : Nat := 64

/-- A number of flags that fills one word or more. -/
structure Capacity where
  words : Nat
  words_pos : 0 < words
  /-- It was given as a real. -/
  real : Bool
deriving DecidableEq

namespace Capacity

/-- The number of flags. -/
def size (c : Capacity) : Nat := c.words * wordSize

/-- The capacity of one word, which is meant where none is given. -/
def standard : Capacity := ⟨1, Nat.one_pos, false⟩

/-- A capacity twice as wide. -/
def doubled (c : Capacity) : Capacity := ⟨2 * c.words, by have := c.words_pos; omega, c.real⟩

/-- A natural number that is whole or real, as the capacity is. -/
def number (c : Capacity) (n : Nat) : Number :=
  if c.real then .real (Binary64.nearest false n 1) else .int n

/-- The number of flags as it was given. -/
def toNumber (c : Capacity) : Number := c.number c.size

/-- The number of words, whole or real as the capacity was given. -/
def wordNumber (c : Capacity) : Number := c.number c.words

/-- The text of a capacity. -/
def text (c : Capacity) : String :=
  match c.toNumber with
  | .int n => toString n
  | .real x => realLayout.text x

theorem size_pos (c : Capacity) : 0 < c.size := Nat.mul_pos c.words_pos (by decide)

theorem wordSize_dvd_size (c : Capacity) : wordSize ∣ c.size := ⟨c.words, Nat.mul_comm _ _⟩

@[simp] theorem size_standard : standard.size = 64 := rfl

@[simp] theorem size_doubled (c : Capacity) : c.doubled.size = 2 * c.size := by
  simp [doubled, size, Nat.mul_assoc]

end Capacity

end SeedGrowth
