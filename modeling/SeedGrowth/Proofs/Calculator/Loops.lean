import SeedGrowth.Calculator.Grammar
import SeedGrowth.Proofs.Scope.Points

/-!
# Arithmetic by loops

A calculator without rules that call themselves where they began, and without guards. An
expression is a term, and a loop over sums and differences with further terms; a term is a
factor, and a loop over products, quotients and remainders with further factors. An
operation takes place as soon as its right operand has been read, and a sign that no
operand follows is left unread. What is made of numbers and operations is up to a meaning;
arithmetic is one.
-/
namespace SeedGrowth

/-- The text is made of blanks. -/
def Text.Blank (text : List Char) : Prop := ∀ c ∈ text, isBlank c = true

/-- The character that an operation is written as. -/
def Operation.sign : Operation → Char
  | .add => '+'
  | .subtract => '-'
  | .multiply => '*'
  | .divide => '/'
  | .remainder => '%'

namespace Point

/-- The point behind the blanks ahead. -/
def skipBlanks (s : Point) : Point := s.advance (Scanner.run Text.isBlank s.fragment)

/-- The point behind blanks and a sign, if that is ahead. -/
def past? (sign : Char) (s : Point) : Option Point :=
  if s.skipBlanks.fragment.head? = some sign then some (s.skipBlanks.advance 1) else none

end Point

namespace Calculator

/-- What the parts of an expression come to. -/
structure Meaning (α : Type) where
  number : String → Except Fault α
  opposite : α → Except Fault α
  brackets : α → α
  operation : Operation → α → α → Except Fault α

/-- Arithmetic. -/
def Meaning.values : Meaning Value where
  number text := readNumeral (.text text)
  opposite := Value.negate
  brackets v := v
  operation := Operation.apply

/-- The operations between terms. -/
def sums : List Operation := [.add, .subtract]

/-- The operations between factors. -/
def products : List Operation := [.multiply, .divide, .remainder]

variable {α : Type}

/-- What was made of the text so far, and the point behind it. -/
abbrev Partial (α : Type) : Type := α × Point

/-- The operation the sign of which is ahead, and the point behind the sign. -/
def operationAhead (ops : List Operation) (s : Point) : Option (Operation × Point) :=
  ops.findSome? fun op => (s.past? op.sign).map (op, ·)

namespace Meaning

variable (A : Meaning α)

/-- A numeral, after blanks. -/
def numeral (s : Point) : Except Fault (Option (Partial α)) :=
  match Scanner.numeral.scan s.skipBlanks.fragment with
  | none => return none
  | some count => do
    let x ← A.number (String.ofList (s.skipBlanks.fragment.take count))
    return some (x, s.skipBlanks.advance count)

/-- One more operation, unless its right operand does not match. -/
def further (ops : List Operation) (operand : Point → Except Fault (Option (Partial α))) :
    Partial α → Except Fault (Option (Partial α))
  | (x, s) =>
    match operationAhead ops s with
    | none => return none
    | some (op, s') => do
      match ← operand s' with
      | none => return none
      | some (y, rest) => return some (← A.operation op x y, rest)

/-- Goes on with operations as long as there are any. Each takes up its sign at least, so
that there are no more of them than characters. -/
def chain (ops : List Operation) (operand : Point → Except Fault (Option (Partial α))) :
    (rounds : Nat) → Partial α → Except Fault (Partial α)
  | 0, found => return found
  | rounds + 1, found => do
    match ← A.further ops operand found with
    | none => return found
    | some found => chain ops operand rounds found

/-- An operand, and operations with further operands. -/
def grouped (ops : List Operation) (operand : Point → Except Fault (Option (Partial α)))
    (s : Point) : Except Fault (Option (Partial α)) := do
  match ← operand s with
  | none => return none
  | some (x, rest) => return some (← A.chain ops operand rest.remaining (x, rest))

/-- What follows a minus sign: an operand, of which the opposite is taken. -/
def opposed (operand : Point → Except Fault (Option (Partial α))) (s : Point) :
    Except Fault (Option (Partial α)) := do
  match ← operand s with
  | none => return none
  | some (x, rest) => return some (← A.opposite x, rest)

/-- What follows an opening bracket: an expression, and a closing bracket. -/
def enclosed (inside : Point → Except Fault (Option (Partial α))) (s : Point) :
    Except Fault (Option (Partial α)) := do
  match ← inside s with
  | none => return none
  | some (x, rest) => return (rest.past? ')').map fun rest => (A.brackets x, rest)

/-- The opposite of a factor, an expression in brackets, or a numeral, nested less deep than
a size. Every sign and bracket takes up text, so that the length of the text is deep enough. -/
def factor : (size : Nat) → Point → Except Fault (Option (Partial α))
  | 0, _ => return none
  | size + 1, s =>
    match s.past? '-', s.past? '(' with
    | some inner, _ => A.opposed (factor size) inner
    | none, some inner => A.enclosed (A.grouped sums (A.grouped products (factor size))) inner
    | none, none => A.numeral s

/-- Factors and products, quotients and remainders of them. -/
def term (size : Nat) (s : Point) : Except Fault (Option (Partial α)) :=
  A.grouped products (A.factor size) s

/-- Terms and sums and differences of them. -/
def expression (size : Nat) (s : Point) : Except Fault (Option (Partial α)) :=
  A.grouped sums (A.term size) s

theorem factor_succ (size : Nat) (s : Point) :
    A.factor (size + 1) s = match s.past? '-', s.past? '(' with
      | some inner, _ => A.opposed (A.factor size) inner
      | none, some inner => A.enclosed (A.expression size) inner
      | none, none => A.numeral s := rfl

end Meaning

/-- What a source comes to: an expression, and nothing after it but blanks. -/
def Meaning.calculate (A : Meaning α) (source : String) : Except Fault α := do
  let start : Point := ⟨source.toList, .start⟩
  match ← A.expression (source.length + 1) start with
  | none => throw (.unmatchedAt source 1 1 unnamedFile)
  | some (x, rest) =>
    let rest := rest.skipBlanks
    if rest.fragment.isEmpty then return x
    else throw (.unmatchedAt source rest.place.line rest.place.column unnamedFile)

end Calculator

end SeedGrowth
