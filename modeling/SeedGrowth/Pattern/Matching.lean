import SeedGrowth.Grammar.Scanner
import SeedGrowth.Pattern.Basic

/-!
# Matching patterns

A pattern is matched at a position by trying its possibilities in order of
preference, each together with what is to follow; the first that leads to a match
of the whole is taken. A round of a repetition that took up no text is not
followed by another.
-/
namespace SeedGrowth.Pattern

/-- A position in a text: the character before it, how many there are before it, and
the text after it. -/
structure Position where
  before : Option Char
  offset : Nat
  ahead : List Char

/-- What is to be matched after a pattern. -/
abbrev Continuation := Position → Option Position

/-- The position behind the next character. -/
def Position.step (p : Position) (is : Char → Bool) (next : Continuation) : Option Position :=
  match p.ahead with
  | [] => none
  | c :: rest => if is c then next ⟨some c, p.offset + 1, rest⟩ else none

/-- A word is on one side of the position only. -/
def Position.atEdge (p : Position) : Bool :=
  p.before.any Text.isWordCharacter != p.ahead.head?.any Text.isWordCharacter

/-- The position is in a text that is empty. -/
def Position.isAlone (p : Position) : Bool := p.before.isNone && p.ahead.isEmpty

/-- The position is as a boundary asks. -/
def Position.isAt (p : Position) : Boundary → Bool
  | .start => p.before.isNone
  | .finish => p.ahead.isEmpty || p.ahead == ['\n']
  | .veryEnd => p.ahead.isEmpty
  | .edge between => p.atEdge == between && !p.isAlone

/-- What stays the same during a repetition. -/
structure Repetition where
  least : Nat
  most : Option Nat
  greed : Greed
  /-- One round. -/
  body : Position → Continuation → Option Position
  /-- What follows the repetition. -/
  next : Continuation

namespace Repetition

/-- Another round is allowed: the limit is not reached, and the round before the
last one did not begin here. -/
def mayGoOn (r : Repetition) (done : Nat) (last : Option Nat) (p : Position) : Bool :=
  r.most.all (done < ·) && last != some p.offset

/-- Rounds that can be given back. -/
def run (r : Repetition) : (fuel : Nat) → (done : Nat) → (last : Option Nat) → Continuation
  | 0, _, _, _ => none
  | fuel + 1, done, last, p =>
    if done < r.least then r.body p (r.run fuel (done + 1) last)
    else
      let again (_ : Unit) :=
        if r.mayGoOn done last p then r.body p (r.run fuel (done + 1) (some p.offset))
        else none
      match r.greed with
      | .fewest => r.next p <|> again ()
      | _ => again () <|> r.next p

/-- Rounds that are kept, up to the first that fails or takes up no text. -/
def runAll (r : Repetition) : (fuel : Nat) → (done : Nat) → Position → Option Position
  | 0, _, _ => none
  | fuel + 1, done, p =>
    if r.most.all (done < ·) then
      match r.body p some with
      | some p' =>
        if done < r.least || p'.offset != p.offset then r.runAll fuel (done + 1) p'
        else some p'
      | none => if done < r.least then none else some p
    else some p

end Repetition

/-- Matches a pattern and what is to follow, in a text of some length. No repetition
has more rounds that take up text than the text has characters. -/
def run (options : Options) (length : Nat) :
    Pattern → Position → Continuation → Option Position
  | empty, p, next => next p
  | one cls, p, next => p.step (cls.holds options) next
  | any, p, next => p.step (fun c => options.anyLine || c != '\n') next
  | boundary b, p, next => if p.isAt b then next p else none
  | append first second, p, next =>
    run options length first p fun p => run options length second p next
  | either first second, p, next =>
    run options length first p next <|> run options length second p next
  | rounds least most greed body, p, next =>
    let r : Repetition := ⟨least, most, greed, run options length body, next⟩
    let fuel := least + length + 2
    match greed with
    | .all => (r.runAll fuel 0 p).bind next
    | _ => r.run fuel 0 none p

/-- The characters that a pattern takes off the front of a text. -/
def scanner (options : Options) (pattern : Pattern) : Scanner where
  scan text :=
    let length := text.length
    (run options length pattern ⟨none, 0, text⟩ some).map fun p => length - p.ahead.length
  scan_le h := by
    obtain ⟨p, _, rfl⟩ := Option.map_eq_some_iff.1 h
    exact Nat.sub_le ..

end SeedGrowth.Pattern
