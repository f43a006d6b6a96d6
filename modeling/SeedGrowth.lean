import SeedGrowth.Cursor.Handle
import SeedGrowth.Main
import SeedGrowth.Pattern.Matching
import SeedGrowth.Pattern.Reading
import SeedGrowth.Proofs.Binary64.Range
import SeedGrowth.Proofs.Binding.Outcome
import SeedGrowth.Proofs.Calculator.Derivation
import SeedGrowth.Proofs.Calculator.Faults
import SeedGrowth.Proofs.CommandLine.Endings
import SeedGrowth.Proofs.CommandLine.Options
import SeedGrowth.Proofs.CommandLine.Outcome
import SeedGrowth.Proofs.CommandLine.Rows
import SeedGrowth.Proofs.CommandLine.Words
import SeedGrowth.Proofs.Context.Outcome
import SeedGrowth.Proofs.Cursor.Mismatch
import SeedGrowth.Proofs.Cursor.Outcome
import SeedGrowth.Proofs.Cursor.Repetition
import SeedGrowth.Proofs.Cursor.Splitting
import SeedGrowth.Proofs.Decimal.Layout
import SeedGrowth.Proofs.Decimal.Reading
import SeedGrowth.Proofs.Derivation.Outcome
import SeedGrowth.Proofs.DoubleRecursion.Outcome
import SeedGrowth.Proofs.Flags.History
import SeedGrowth.Proofs.LeftRecursion.Outcome
import SeedGrowth.Proofs.MutualRecursion.Outcome
import SeedGrowth.Proofs.Restoration.Outcome
import SeedGrowth.Proofs.Room.Outcome
import SeedGrowth.Proofs.Run.Agreement
import SeedGrowth.Proofs.Run.Nesting
import SeedGrowth.Proofs.Scope.Outcome
import SeedGrowth.Proofs.Scoping.Outcome
import SeedGrowth.Proofs.Seeds.Outcome
import SeedGrowth.Proofs.Trace.Levels
import SeedGrowth.Proofs.Trace.Nesting
import SeedGrowth.Proofs.Trace.Outcome
import SeedGrowth.Proofs.Unguarded.Outcome
import SeedGrowth.Proofs.Verbosity.Outcome
import SeedGrowth.Proofs.Verbosity.Silence
import SeedGrowth.Proofs.Visit.Anchors
import SeedGrowth.Proofs.Visit.Continuation
import SeedGrowth.Proofs.Visit.Course
import SeedGrowth.Proofs.Visit.Outcome
