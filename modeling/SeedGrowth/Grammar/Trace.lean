import SeedGrowth.Grammar.Frame
import SeedGrowth.Text.Lines

/-!
# Traces

A trace tells how calls of guarded rules went. Its events are indented by how
many calls were unfinished when the call they belong to began. Values in a trace
are cut off at 200 characters and the text ahead at 30.
-/
namespace SeedGrowth

/-- What a trace reports, each with the level of its call. -/
inductive TraceEvent where
  /-- A call begins, with the text ahead of it. -/
  | entered (level : Nat) (name : Value) (ahead : List Char)
  /-- A call inside an unfinished call of the same rule gets the best match so far. -/
  | seeded (level : Nat) (name : Value) (best : Option Value)
  /-- An evaluation of a rule that was asked for again has ended. -/
  | evaluated (level : Nat) (name : Value) (position round : Nat) (result : Option Value)
  /-- The growth ends because the last evaluation failed. -/
  | failed (level : Nat) (best : Option Value)
  /-- The growth ends because the last match was not longer. -/
  | bailed (level : Nat) (best : Option Value)
  /-- A call ends. -/
  | left (level : Nat) (name : Value) (result : Option Value)

namespace TraceEvent

/-- How many calls were unfinished when the call began. -/
def level : TraceEvent → Nat
  | .entered level .. | .seeded level .. | .evaluated level .. | .failed level ..
  | .bailed level .. | .left level .. => level

/-- The space before the report. -/
def indent (level : Nat) : String := String.ofList (List.replicate (2 * level) ' ')

/-- The beginning of the text of a value, or of the text for none. -/
def excerpt (value : Option Value) : Except Fault String := do
  return Text.truncate 200 (← (value.getD .null).plain)

/-- The report of an event. -/
def text (event : TraceEvent) : Except Fault String :=
  (indent event.level ++ ·) <$>
    match event with
    | .entered _ name ahead => do
      let ahead := Text.truncate 30 (Text.quoteString (String.ofList ahead))
      return (← name.plain) ++ s!" ... (looking at {ahead})"
    | .seeded _ name best => do return (← name.plain) ++ " -> " ++ (← excerpt best) ++ " [seed]"
    | .evaluated _ name position round result => do
      return "Recursive " ++ (← name.plain) ++ s!" at {position} depth {round}: " ++
        (← excerpt result)
    | .failed _ best => do return "Fail with " ++ (← excerpt best)
    | .bailed _ best => do return "Bailing with " ++ (← excerpt best)
    | .left _ name result => do return "... " ++ (← name.plain) ++ " -> " ++ (← excerpt result)

/-- The lines of a report, which are more than one if there are line feeds in the
texts that it quotes. -/
def lines (event : TraceEvent) : List String :=
  (Text.pieces '\n' (event.text.toOption.getD "").toList).map String.ofList

end TraceEvent

end SeedGrowth
