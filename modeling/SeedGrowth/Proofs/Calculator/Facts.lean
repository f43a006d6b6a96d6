import SeedGrowth.Calculator.Grammar
import SeedGrowth.Proofs.Grammar.Combinators
import SeedGrowth.Proofs.Session.Steps

/-!
# The calculator as a grammar

The grammar of arithmetic is built by combinators, and the names of its guarded rules
are told apart and find room in a registry that has yet to be made.
-/
namespace SeedGrowth.Calculator

theorem ofCombinators : grammar.OfCombinators := by
  intro r
  cases r <;> rfl

theorem namesApart : grammar.NamesApart := by
  intro r r' guard guard' h h' ha
  cases r <;> cases r' <;> cases h <;> cases h' <;> first | rfl | cases ha

theorem namesKnown : grammar.NamesKnown := by
  intro r guard h
  cases r <;> cases h <;> rfl

theorem namesHashable : grammar.NamesHashable := by
  intro r guard h
  cases r <;> cases h <;> rfl

/-- All rules use the current registry, which is made for the first call. -/
theorem hosted : Session.empty.Hosts grammar 0 := by
  intro r guard h
  cases r <;> cases h <;> exact .inr ⟨rfl, rfl⟩

theorem hasRoom : grammar.HasRoom (Session.empty.registry 0) := Grammar.hasRoom_of_le (by decide)

/-- A cursor at the beginning of a sum. -/
def sum : Cursor := .start ['1', '+', '2'] (.bare (.none .standard .null))

end SeedGrowth.Calculator
