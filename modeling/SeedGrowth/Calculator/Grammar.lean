import SeedGrowth.Grammar.Parsing

/-!
# The calculator

Arithmetic by a left-recursive grammar, with blanks allowed before every token
and at the end:

* an expression is a sum or difference of an expression and a term, or a term;
* a term is a product, quotient or remainder of a term and a factor, or a factor;
* a factor is the opposite of a factor, an expression in brackets, or a number.

Operations take place while the source is matched. Expressions and terms are
guarded, so that operations of one rank are grouped from the left.
-/
namespace SeedGrowth.Calculator

/-- The rules of arithmetic. -/
inductive Name where
  | expr
  | term
  | factor
deriving DecidableEq

open SeedGrowth.Parser

/-- The number that a numeral stands for: real if it has a point, else whole. -/
def readNumeral : Value → Except Fault Value
  | .text s => if '.' ∈ s.toList then realOfText s else integerOfText s
  | v => .error (.mismatch (.iteration v.kind))

/-- A numeral. -/
def number : Parser Name := token (mapped (scanner .numeral) readNumeral)

/-- The names by which rules are guarded. -/
def guardName : Name → Option Value
  | .expr => some (.text "leftrec.calc.expr")
  | .term => some (.text "leftrec.calc.term")
  | .factor => none

/-- The bodies of the rules. -/
def body : Name → Parser Name
  | .expr => alt [
      binary (ref .expr) (char '+') (ref .term) .add,
      binary (ref .expr) (char '-') (ref .term) .subtract,
      ref .term]
  | .term => alt [
      binary (ref .term) (char '*') (ref .factor) .multiply,
      binary (ref .term) (char '/') (ref .factor) .divide,
      binary (ref .term) (char '%') (ref .factor) .remainder,
      ref .factor]
  | .factor => alt [
      mapped (preceded (token (char '-')) (ref .factor)) Value.negate,
      delimited (token (char '(')) (ref .expr) (token (char ')')),
      number]

/-- The grammar of arithmetic; its guarded rules use the current registry. -/
def grammar : Grammar Name where
  rule r := ⟨body r, (guardName r).map fun name => ⟨name, none⟩⟩
  names := [.expr, .term, .factor]
  mem_names r := by cases r <;> simp

/-- An expression and the blanks after it. -/
def start : Parser Name := mapped (sequence [ref .expr, blanks]) (·.itemAt 0)

/-- The value of an expression. -/
def evaluate (source : String) (registry : Option RegistryId) : Eval Value :=
  grammar.parse start ⟨source, registry, true, unnamedFile⟩

end SeedGrowth.Calculator
