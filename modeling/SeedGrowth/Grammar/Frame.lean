import SeedGrowth.Cursor.Basic

/-!
# Matches and frames

A match is a value together with the cursor behind the matched text. Every call
of a guarded rule has a frame while it is unfinished: where it began, the best
match found so far, how much text that takes up, and whether the rule was asked
for again at the same position.
-/
namespace SeedGrowth

/-- A value, and the cursor behind the text that it was read from. -/
structure Match where
  rest : Cursor
  value : Value

/-- A guarded rule that is being evaluated at one position. -/
structure Frame where
  name : Value
  flag : Nat
  position : Nat
  best : Option Match
  length : Nat
  reentered : Bool

namespace Frame

/-- A call that has just begun; its best match is a failure. -/
def begin (name : Value) (flag position : Nat) : Frame := ⟨name, flag, position, none, 0, false⟩

instance : Inhabited Frame := ⟨begin .null 0 0⟩

/-- The value of the best match. -/
def bestValue (f : Frame) : Option Value := f.best.map (·.value)

/-- The written form of a frame. -/
def written (f : Frame) : Except Fault String := do
  let name ← f.name.written
  return s!"Frame({name}, {f.flag}, {f.position}, length={f.length})"

/-- The best match can be written. -/
def writable (f : Frame) : Bool := f.bestValue.all Value.writable

end Frame

/-- What is carried can be written, given the frames. -/
def Carried.writable (frames : Array Frame) : Carried → Bool
  | .value v => v.writable
  | .anchor a => a.frames.all fun (_, id) => (frames.getD id default).writable
  | .flags ⟨_, carried⟩ => writable frames carried

/-- The flags of a cursor can be written, given the frames. -/
def Cursor.writable (frames : Array Frame) (s : Cursor) : Bool :=
  s.payload.flags?.all fun flags => flags.carried.writable frames

/-- How much text a match takes up that began with the given amount of text left. -/
def Match.consumed (m : Match) (position : Nat) : Nat := position - m.rest.remaining

end SeedGrowth
