import SeedGrowth.Carried
import SeedGrowth.Cursor.Place

/-!
# Cursors

A cursor is what is left of a text, the place where that begins, and a payload
that travels along unchanged. Taking characters off the front moves the place
over them. The payload holds the flags, bare or under a label; a cursor may also
come without any.
-/
namespace SeedGrowth

/-- What a cursor takes along. -/
inductive Payload where
  | absent
  | bare (flags : Flags Carried)
  | labelled (label : Value) (flags : Flags Carried)

/-- The flags in a payload. -/
def Payload.flags? : Payload → Option (Flags Carried)
  | .absent => none
  | .bare flags => some flags
  | .labelled _ flags => some flags

/-- The payload with other flags. -/
def Payload.withFlags : Payload → Flags Carried → Payload
  | .absent, _ => .absent
  | .bare _, flags => .bare flags
  | .labelled label _, flags => .labelled label flags

/-- Equality of payloads; labelled ones are each their own. -/
def Payload.same : Payload → Payload → Bool
  | .absent, .absent => true
  | .bare f, .bare g => f.same Carried.same g
  | _, _ => false

/-- The rest of a text, where it begins, and a payload. -/
structure Cursor where
  fragment : List Char
  place : Place
  payload : Payload

namespace Cursor

/-- A cursor at the beginning of a text. -/
def start (text : List Char) (payload : Payload) : Cursor := ⟨text, .start, payload⟩

/-- A cursor at the beginning of a text, with flags of which none is set. -/
def clear (text : List Char) (capacity : Capacity) : Except Fault Cursor := do
  return start text (.bare (← Flags.allocate capacity .null))

/-- How much text is left. -/
def remaining (s : Cursor) : Nat := s.fragment.length

/-- The cursor behind the next characters. -/
def advance (s : Cursor) (count : Nat) : Cursor :=
  { s with fragment := s.fragment.drop count, place := s.place.after (s.fragment.take count) }

/-- A cursor over the next characters alone. -/
def taken (s : Cursor) (count : Nat) : Cursor := { s with fragment := s.fragment.take count }

/-- Splits off the next characters: the rest, and what was split off. -/
def takeSplit (s : Cursor) (count : Value) : Except Fault (Cursor × Cursor) := do
  let n ← count.bounded (.upTo s.remaining) (.countOutOfRange · s.remaining) .cut
  return (s.advance n, s.taken n)

/-- The flags of a cursor. -/
def flags (s : Cursor) : Except Fault (Flags Carried) :=
  match s.payload.flags? with
  | some flags => .ok flags
  | none => .error .flagless

/-- The cursor with other flags. -/
def withFlags (s : Cursor) (flags : Flags Carried) : Cursor :=
  { s with payload := s.payload.withFlags flags }

/-- Line and column, and the beginning of the text that is left. -/
def text (s : Cursor) : String :=
  s!"{s.place.line}.{s.place.column}: " ++
    Text.truncate 25 (Text.quoteString (String.ofList s.fragment))

@[simp] theorem fragment_advance (s : Cursor) (count : Nat) :
    (s.advance count).fragment = s.fragment.drop count := rfl

@[simp] theorem place_advance (s : Cursor) (count : Nat) :
    (s.advance count).place = s.place.after (s.fragment.take count) := rfl

@[simp] theorem payload_advance (s : Cursor) (count : Nat) :
    (s.advance count).payload = s.payload := rfl

@[simp] theorem fragment_withFlags (s : Cursor) (flags : Flags Carried) :
    (s.withFlags flags).fragment = s.fragment := rfl

@[simp] theorem place_withFlags (s : Cursor) (flags : Flags Carried) :
    (s.withFlags flags).place = s.place := rfl

@[simp] theorem remaining_withFlags (s : Cursor) (flags : Flags Carried) :
    (s.withFlags flags).remaining = s.remaining := rfl

theorem takeSplit_natCast {s : Cursor} {n : Nat} (h : n ≤ s.remaining) :
    s.takeSplit (.int n) = .ok (s.advance n, s.taken n) := by
  rw [takeSplit, Value.bounded_natCast (by simp [Bound.holds, h])]
  rfl

@[simp] theorem remaining_advance (s : Cursor) (count : Nat) :
    (s.advance count).remaining = s.remaining - count := by
  simp [remaining]

end Cursor

end SeedGrowth
