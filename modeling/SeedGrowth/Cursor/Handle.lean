import SeedGrowth.Cursor.Basic

/-!
# Cursors that share payloads

A payload stays the same when its cursor is split, and is replaced when flags are.
A handle is a cursor together with a number for its payload, so that it can be told
whether two cursors have one payload: then they agree in it, even if a value in it
does not equal itself.
-/
namespace SeedGrowth

/-- A cursor, and the number of its payload. -/
structure Handle where
  cursor : Cursor
  payload : Nat

namespace Handle

/-- The payloads are one, or equal. -/
def samePayload (h k : Handle) : Bool :=
  h.payload == k.payload || h.cursor.payload.same k.cursor.payload

/-- Equality of cursors in all respects. -/
def same (h k : Handle) : Bool :=
  h.cursor.fragment == k.cursor.fragment && h.cursor.place == k.cursor.place && h.samePayload k

/-- Splits off the next characters: the rest, and what was split off. -/
def takeSplit (h : Handle) (count : Value) : Except Fault (Handle × Handle) := do
  let (rest, taken) ← h.cursor.takeSplit count
  return (⟨rest, h.payload⟩, ⟨taken, h.payload⟩)

@[simp] theorem samePayload_self (h : Handle) : h.samePayload h = true := by
  simp [samePayload]

@[simp] theorem same_self (h : Handle) : h.same h = true := by
  simp [same]

end Handle

end SeedGrowth
