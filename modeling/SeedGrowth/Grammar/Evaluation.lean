import SeedGrowth.Grammar.Guard
import SeedGrowth.Grammar.Parser

/-!
# Evaluation of grammars

A parser is evaluated at a cursor, given how rules are called: it matches, it
does not match, or it stops with a fault. A failed match is no fault. Rules are
called with a bound on how deep calls may be nested, which `Grammar.apply` takes
from the length of the text.
-/
namespace SeedGrowth

variable {ρ : Type}

namespace Parser

/-- A match of the next characters. -/
def matchNext (s : Cursor) (count : Nat) : Match :=
  ⟨s.advance count, .text (String.ofList (s.fragment.take count))⟩

/-- Repeats a parser until it fails or its match takes up no text. -/
def repeatWhile (parser : Cursor → Eval (Option Match)) :
    Nat → Cursor → Eval (Cursor × List Value)
  | 0, _ => throw .exhausted
  | rounds + 1, s => do
    match ← parser s with
    | none => return (s, [])
    | some m =>
      if m.rest.place.offset = s.place.offset then return (s, [])
      else do
        let (rest, values) ← repeatWhile parser rounds m.rest
        return (rest, m.value :: values)

mutual

/-- Evaluates a parser. -/
def eval (call : ρ → Cursor → Eval (Option Match)) : Parser ρ → Cursor → Eval (Option Match)
  | tag text, s =>
    return if text.isPrefixOf s.fragment then some (matchNext s text.length) else none
  | scanner rule, s => return (rule.scan s.fragment).map (matchNext s)
  | eof, s => return if s.fragment.isEmpty then some ⟨s, .text ""⟩ else none
  | alt branches, s => evalFirst call branches s
  | sequence items, s => do
    return (← evalAll call items s).map fun (rest, values) => ⟨rest, .tuple values⟩
  | mapped parser change, s => do
    match ← eval call parser s with
    | none => return none
    | some m => return some { m with value := ← Eval.lift (change m.value) }
  | opt parser, s => do
    match ← eval call parser s with
    | none => return some ⟨s, .null⟩
    | some m => return some m
  | many parser, s => do
    let (rest, values) ← repeatWhile (eval call parser) (s.remaining + 1) s
    return some ⟨rest, .list values⟩
  | ref rule, s => call rule s
  | peek parser, s => do return (← eval call parser s).map fun m => { m with rest := s }
  | absent parser, s => do
    match ← eval call parser s with
    | none => return some ⟨s, .text ""⟩
    | some _ => return none
  | edit change, s => do return some ⟨← Eval.lift (s.edit change), .text ""⟩
  | reveal, s => do
    let flags ← Eval.lift s.flags
    let session ← get
    let carried ← Eval.lift (flags.carried.written fun id => (session.frame id).written)
    Eval.log fun _ => .shown (flags.written carried)
    return some ⟨s, .text ""⟩
  | probe label, s => do
    Eval.log (.entered label s)
    return none
  | watch label parser, s => do
    Eval.log (.entered label s)
    let result ← eval call parser s
    Eval.log (.left label result)
    return result

/-- The first match among the branches. -/
def evalFirst (call : ρ → Cursor → Eval (Option Match)) :
    List (Parser ρ) → Cursor → Eval (Option Match)
  | [], _ => return none
  | parser :: rest, s => do
    match ← eval call parser s with
    | none => evalFirst call rest s
    | some m => return some m

/-- The values of all items in a row. -/
def evalAll (call : ρ → Cursor → Eval (Option Match)) :
    List (Parser ρ) → Cursor → Eval (Option (Cursor × List Value))
  | [], s => return some (s, [])
  | parser :: rest, s => do
    match ← eval call parser s with
    | none => return none
    | some m => return (← evalAll call rest m.rest).map fun (s, values) => (s, m.value :: values)

end

end Parser

namespace Grammar

/-- Calls a rule, with a bound on how deep calls may be nested. -/
def call (g : Grammar ρ) : Nat → ρ → Cursor → Eval (Option Match)
  | 0, _, _ => throw .exhausted
  | depth + 1, r, s =>
    let body := (g.rule r).body.eval (g.call depth)
    match (g.rule r).guard with
    | none => body s
    | some guard => guarded guard.name guard.registry body s

/-- Applies a parser to a cursor. -/
def apply (g : Grammar ρ) (parser : Parser ρ) (s : Cursor) : Eval (Option Match) :=
  parser.eval (g.call (g.nestingBound s.remaining)) s

end Grammar

end SeedGrowth
