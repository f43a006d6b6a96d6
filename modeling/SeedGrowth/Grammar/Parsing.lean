import SeedGrowth.Grammar.Evaluation
import SeedGrowth.Text.Lines

/-!
# Parsing sources

A source is parsed from its beginning with no flag set, while a given registry
is current. A source that does not match, or not to its end, is reported at the
cursor where the match ended, with the line there. Lines are numbered by line
feeds, but their texts end at any line break.
-/
namespace SeedGrowth

/-- The fault of a source that does not match at a line and column. A line beyond
the last has no text; lines below one are counted from the last line back, and
there must be such a line. -/
def Fault.unmatchedAt (source : String) (line column : Int) (file : String) : Fault :=
  let lines := Text.lines source.toList
  if line ≤ lines.length then
    match itemOf .list lines (.int (line - 1)) with
    | .ok text => .unmatched ⟨file, line, column, String.ofList text⟩
    | .error fault => fault
  else .unmatched ⟨file, line, column, ""⟩

/-- The fault of a source that does not match at a cursor. -/
def Cursor.unmatched (s : Cursor) (source file : String) : Fault :=
  .unmatchedAt source s.place.line s.place.column file

/-- How a source is parsed. -/
structure Request where
  source : String
  registry : Option RegistryId
  /-- The match must reach the end of the source. -/
  complete : Bool
  /-- The name of the source in reports. -/
  file : String

/-- The name of sources that are no files. -/
def unnamedFile : String := "<string>"

namespace Grammar

variable {ρ : Type}

/-- The value of a source. -/
def parse (g : Grammar ρ) (parser : Parser ρ) (request : Request) : Eval Value := do
  let id ← Eval.registryOr request.registry
  let (start, result) ← Eval.within id do
    let capacity ← Eval.read fun session => (session.registry id).capacity
    let start ← Eval.lift (Cursor.clear request.source.toList capacity)
    return (start, ← g.apply parser start)
  match result with
  | none => Eval.fail (start.unmatched request.source request.file)
  | some m =>
    if request.complete && !m.rest.fragment.isEmpty then
      Eval.fail (m.rest.unmatched request.source request.file)
    else return m.value

end Grammar

end SeedGrowth
