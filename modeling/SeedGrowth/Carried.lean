import SeedGrowth.Flags.Basic
import SeedGrowth.Value.Equality
import SeedGrowth.Value.Text

/-!
# What flags carry

Flags carry a plain value, other flags, or an anchor. An anchor says at which
position flags were set, by how much text was left there, and which calls set
them: for every flag the number of its call's frame.
-/
namespace SeedGrowth

/-- The number of a frame. -/
abbrev FrameId := Nat

/-- The position where flags were set, and the frames that set them, in the order
in which their flags were first set. -/
structure Anchor where
  position : Int
  frames : List (Nat × FrameId)
deriving DecidableEq

namespace Anchor

/-- An anchor at a position where no call has begun. -/
def empty (position : Int) : Anchor := ⟨position, []⟩

/-- The frame that set a flag. -/
def frame? (a : Anchor) (flag : Nat) : Option FrameId := a.frames.lookup flag

/-- Enters the frame of a flag, in the place of an earlier one if there is one. -/
def insert (a : Anchor) (flag : Nat) (id : FrameId) : Anchor :=
  if (a.frame? flag).isSome then
    { a with frames := a.frames.map fun (key, old) => (key, if key = flag then id else old) }
  else { a with frames := a.frames ++ [(flag, id)] }

/-- Removes the frame of a flag. -/
def erase (a : Anchor) (flag : Nat) : Anchor :=
  { a with frames := a.frames.filter fun (key, _) => key ≠ flag }

/-- Anchors are the same if they have the same frames, in whatever order. -/
def same (a b : Anchor) : Bool :=
  a.position == b.position && a.frames.length == b.frames.length &&
    a.frames.all fun (flag, id) => b.frame? flag == some id

@[simp] theorem position_empty (p : Int) : (empty p).position = p := rfl

@[simp] theorem frame?_empty (p : Int) (flag : Nat) : (empty p).frame? flag = none := rfl

@[simp] theorem position_insert (a : Anchor) (flag : Nat) (id : FrameId) :
    (a.insert flag id).position = a.position := by
  unfold insert; split <;> rfl

@[simp] theorem position_erase (a : Anchor) (flag : Nat) : (a.erase flag).position = a.position :=
  rfl

end Anchor

/-- A value that flags carry. -/
inductive Carried where
  | value (v : Value)
  | anchor (a : Anchor)
  | flags (f : Flags Carried)

namespace Carried

/-- Nothing is carried. -/
def null : Carried := .value .null

instance : Inhabited Carried := ⟨null⟩

/-- Equality of what is carried. -/
def same : Carried → Carried → Bool
  | .value v, .value w => v == w
  | .anchor a, .anchor b => a.same b
  | .flags ⟨ws, c⟩, .flags ⟨vs, d⟩ => ws == vs && same c d
  | _, _ => false

/-- The written form of what is carried, given that of frames. -/
def written (frame : FrameId → Except Fault String) : Carried → Except Fault String
  | .value v => v.written
  | .anchor a => do
    let frames ← a.frames.mapM fun (flag, id) => do
      return toString flag ++ ": " ++ (← frame id)
    return s!"Anchor(position={a.position}, frames=\x7b" ++ ", ".intercalate frames ++ "\x7d)"
  | .flags ⟨words, carried⟩ => do
    return Flags.written (← written frame carried) ⟨words, carried⟩

end Carried

end SeedGrowth
