import SeedGrowth.Decimal.Reading
import SeedGrowth.Fault

/-!
# Literals

Numbers are read from texts, which can fail. A literal is a value as it was
written down somewhere: it is read when it is used, and only then a fault shows.
-/
namespace SeedGrowth

/-- A value that was written down, or why it cannot be read. -/
abbrev Literal := Except Fault Value

/-- The whole number that a text is read as. -/
def integerOfText (s : String) : Literal :=
  match Decimal.readInteger s.toList with
  | .ok n => .ok (.int n)
  | .error .malformed => .error (.malformedInteger s)
  | .error (.tooLong digits) => .error (.integerTooLong digits)

/-- The real that a text is read as. -/
def realOfText (s : String) : Literal :=
  match Decimal.readReal s.toList with
  | some x => .ok (.real x)
  | none => .error (.malformedReal s)

end SeedGrowth
