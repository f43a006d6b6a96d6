import SeedGrowth.Grammar.Evaluation

/-!
# Evaluation by scopes

Another reading of grammars, without flags, anchors and frames. A scope holds the guarded
rules that are unfinished at one position, each with its best result so far, which is a
failure at first; at another position it is empty. A call of a rule in scope is answered
with that result. Any other call of a guarded rule evaluates the body with the rule in
scope, and if the body asked for the rule, again with its last result as the best, as long
as more text is consumed. Rules are told apart by keys, which may be the rules themselves.
-/
namespace SeedGrowth

variable {ρ κ α β : Type}

/-- A point in a text: what is left, and where that begins. -/
structure Point where
  fragment : List Char
  place : Place

/-- A value, and the point behind the text that it was read from. -/
structure Found where
  rest : Point
  value : Value

/-- How much text is left. -/
def Point.remaining (s : Point) : Nat := s.fragment.length

/-- A match of the next characters. -/
def Point.next (s : Point) (count : Nat) : Found :=
  ⟨⟨s.fragment.drop count, s.place.after (s.fragment.take count)⟩,
    .text (String.ofList (s.fragment.take count))⟩

/-- How much text was consumed from a position on. -/
def Found.consumed (m : Found) (position : Nat) : Nat := position - m.rest.remaining

/-- How an evaluation ends, and which rules it called at which positions. -/
structure Account (κ α : Type) where
  outcome : Except Stop α
  asked : List (κ × Nat)

namespace Account

instance : Monad (Account κ) where
  pure a := ⟨.ok a, []⟩
  bind x f :=
    match x.outcome with
    | .ok a => ⟨(f a).outcome, x.asked ++ (f a).asked⟩
    | .error stop => ⟨.error stop, x.asked⟩

/-- Calls of rules were nested deeper, or loops went on longer, than was allowed for. -/
def exhausted : Account κ α := ⟨.error .exhausted, []⟩

/-- An answer or a fault. -/
def lift (x : Except Fault α) : Account κ α := ⟨x.mapError .fault, []⟩

/-- Calls a rule at a position. -/
def ask (key : κ) (position : Nat) : Account κ Unit := ⟨.ok (), [(key, position)]⟩

/-- An answer together with the calls that were made for it. -/
def listen (x : Account κ α) : Account κ (α × List (κ × Nat)) :=
  ⟨x.outcome.map fun a => (a, x.asked), x.asked⟩

end Account

/-- The guarded rules that are unfinished at a position, with their best results. -/
structure Scope (κ : Type) where
  position : Nat
  best : κ → Option (Option Found)

namespace Scope

/-- No rule is unfinished. -/
def empty (position : Nat) : Scope κ := ⟨position, fun _ => none⟩

/-- The scope at a position, which is empty unless it belongs there. -/
def movedTo (scope : Scope κ) (position : Nat) : Scope κ :=
  if scope.position = position then scope else empty position

/-- The scope with a rule and its best result. -/
def add [DecidableEq κ] (scope : Scope κ) (key : κ) (best : Option Found) : Scope κ :=
  { scope with best := fun key' => if key' = key then some best else scope.best key' }

end Scope

namespace Parser

/-- Repeats a parser until it fails or its match takes up no text. -/
def readRepeat (parser : Point → Account κ (Option Found)) :
    Nat → Point → Account κ (Point × List Value)
  | 0, _ => .exhausted
  | rounds + 1, s => do
    match ← parser s with
    | none => return (s, [])
    | some m =>
      if m.rest.remaining = s.remaining then return (s, [])
      else do
        let (rest, values) ← readRepeat parser rounds m.rest
        return (rest, m.value :: values)

mutual

/-- Evaluates a combinator, given how rules are called. -/
def read (call : ρ → Point → Account κ (Option Found)) :
    Parser ρ → Point → Account κ (Option Found)
  | tag text, s => return if text.isPrefixOf s.fragment then some (s.next text.length) else none
  | scanner rule, s => return (rule.scan s.fragment).map s.next
  | eof, s => return if s.fragment.isEmpty then some ⟨s, .text ""⟩ else none
  | alt branches, s => readFirst call branches s
  | sequence items, s => do
    return (← readAll call items s).map fun (rest, values) => ⟨rest, .tuple values⟩
  | mapped parser change, s => do
    match ← read call parser s with
    | none => return none
    | some m => return some { m with value := ← .lift (change m.value) }
  | opt parser, s => do
    match ← read call parser s with
    | none => return some ⟨s, .null⟩
    | some m => return some m
  | many parser, s => do
    let (rest, values) ← readRepeat (read call parser) (s.remaining + 1) s
    return some ⟨rest, .list values⟩
  | ref rule, s => call rule s
  | _, _ => return none

/-- The first match among the branches. -/
def readFirst (call : ρ → Point → Account κ (Option Found)) :
    List (Parser ρ) → Point → Account κ (Option Found)
  | [], _ => return none
  | parser :: rest, s => do
    match ← read call parser s with
    | none => readFirst call rest s
    | some m => return some m

/-- The values of all items in a row. -/
def readAll (call : ρ → Point → Account κ (Option Found)) :
    List (Parser ρ) → Point → Account κ (Option (Point × List Value))
  | [], s => return some (s, [])
  | parser :: rest, s => do
    match ← read call parser s with
    | none => return none
    | some m => return (← readAll call rest m.rest).map fun (s, values) => (s, m.value :: values)

end

end Parser

namespace Scope

/-- How much text the best result consumed; a failure consumes none. -/
def lengthOf (position : Nat) (best : Option Found) : Nat :=
  (best.map (·.consumed position)).getD 0

/-- A result that consumed more text than the best one. -/
def longer? (position : Nat) (best result : Option Found) : Option Found :=
  result.filter fun m => lengthOf position best < m.consumed position

/-- Evaluates a body again, with its last result as the best, as long as more text is
consumed, and gives the best result. -/
def grow (position : Nat) (body : Option Found → Account κ (Option Found)) :
    (rounds : Nat) → (best result : Option Found) → Account κ (Option Found)
  | rounds, best, result =>
    match longer? position best result with
    | none => return best
    | some m =>
      match rounds with
      | 0 => .exhausted
      | rounds + 1 => do grow position body rounds (some m) (← body (some m))

/-- Evaluates a body with a failure as its best result, and lets the result grow if the
body asked for the rule at the position. -/
def evaluate [DecidableEq κ] (key : κ) (position : Nat)
    (body : Option Found → Account κ (Option Found)) : Account κ (Option Found) := do
  let (result, asked) ← (body none).listen
  if (key, position) ∈ asked then grow position body position none result
  else return result

end Scope

namespace Grammar

variable [DecidableEq κ] (key : ρ → κ)

/-- Evaluates a call of a rule in a scope, given how the calls in its body are evaluated. -/
def readRule (g : Grammar ρ) (call : Scope κ → ρ → Point → Account κ (Option Found))
    (scope : Scope κ) (r : ρ) (s : Point) : Account κ (Option Found) := do
  Account.ask (key r) s.remaining
  let scope := scope.movedTo s.remaining
  let body scope := (g.rule r).body.read (call scope) s
  match (g.rule r).guard with
  | none => body scope
  | some _ =>
    match scope.best (key r) with
    | some best => return best
    | none => Scope.evaluate (key r) s.remaining fun best => body (scope.add (key r) best)

/-- Calls a rule in a scope, with a bound on how deep calls may be nested. -/
def readCall (g : Grammar ρ) : Nat → Scope κ → ρ → Point → Account κ (Option Found)
  | 0, _, _, _ => .exhausted
  | depth + 1, scope, r, s => g.readRule key (readCall g depth) scope r s

/-- Applies a parser at a point where no rule is unfinished. -/
def read (g : Grammar ρ) (depth : Nat) (parser : Parser ρ) (s : Point) :
    Account κ (Option Found) :=
  parser.read (g.readCall key depth (.empty s.remaining)) s

end Grammar

end SeedGrowth
