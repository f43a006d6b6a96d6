import SeedGrowth.Grammar.Scanner
import SeedGrowth.Grammar.Session
import SeedGrowth.Value.Conversion

/-!
# Parsers and grammars

A parser says what to match and what a match is worth. Parsers refer to the
rules of a grammar, of which there are finitely many; a rule is plain or guarded
by a name in a registry. Some parsers do not read anything: they look ahead,
change the flags of the cursor, or write into the log.
-/
namespace SeedGrowth

/-- Changes of a cursor's flags, in the order in which they are made. -/
structure Edit where
  clearAll : Bool
  set : List Literal
  clear : List Literal
  carry : Option Literal
  /-- The position of an anchor without frames. -/
  anchor : Option Int

/-- The flags after the changes. -/
def Edit.apply (edit : Edit) (flags : Flags Carried) : Except Fault (Flags Carried) := do
  let flags := if edit.clearAll then flags.clearAll else flags
  let flags ← edit.set.foldlM (fun flags flag => do flags.set (← flag)) flags
  let flags ← edit.clear.foldlM (fun flags flag => do flags.clear (← flag)) flags
  let flags ← match edit.carry with
    | some v => do pure (flags.carrying (.value (← v)))
    | none => pure flags
  return match edit.anchor with
    | some position => flags.carrying (.anchor (.empty position))
    | none => flags

/-- The cursor with its flags changed. -/
def Cursor.edit (s : Cursor) (edit : Edit) : Except Fault Cursor := do
  return s.withFlags (← edit.apply (← s.flags))

/-- A parser that refers to rules of type `ρ`. -/
inductive Parser (ρ : Type) where
  /-- A given text. -/
  | tag (text : List Char)
  | scanner (scanner : Scanner)
  /-- The end of the text. -/
  | eof
  /-- The first parser that matches. -/
  | alt (branches : List (Parser ρ))
  /-- All parsers in a row. -/
  | sequence (items : List (Parser ρ))
  /-- A match with its value changed. -/
  | mapped (parser : Parser ρ) (change : Value → Except Fault Value)
  /-- A match, or nothing. -/
  | opt (parser : Parser ρ)
  /-- As many matches as there are, up to one that takes up no text. -/
  | many (parser : Parser ρ)
  | ref (rule : ρ)
  /-- A match of the text ahead that does not move the cursor. -/
  | peek (parser : Parser ρ)
  /-- No match of the text ahead. -/
  | absent (parser : Parser ρ)
  /-- The cursor with its flags changed. -/
  | edit (edit : Edit)
  /-- Writes the flags of the cursor into the log. -/
  | reveal
  /-- Writes the cursor into the log, and fails. -/
  | probe (label : String)
  /-- Writes the cursor and the result of a parser into the log. -/
  | watch (label : String) (parser : Parser ρ)

namespace Parser

variable {ρ σ : Type}

/-- One given character. -/
def char (c : Char) : Parser ρ := tag [c]

/-- The character of a literal, which must be one. -/
def char? (text : String) : Except Fault (Parser ρ) :=
  match text.toList with
  | [c] => .ok (char c)
  | _ => .error (.notOneCharacter text)

/-- Matches without reading anything. -/
def empty : Parser ρ := tag []

/-- Never matches. -/
def fail : Parser ρ := alt []

instance : Inhabited (Parser ρ) := ⟨fail⟩

/-- Any number of blanks. -/
def blanks : Parser ρ := scanner .blanks

/-- One digit or more. -/
def digits : Parser ρ := scanner .digits

/-- Two parsers in a row, for the value of the second. -/
def preceded (first second : Parser ρ) : Parser ρ := mapped (sequence [first, second]) (·.itemAt 1)

/-- Three parsers in a row, for the value of the one in the middle. -/
def delimited (left parser right : Parser ρ) : Parser ρ :=
  mapped (sequence [left, parser, right]) (·.itemAt 1)

/-- A parser with blanks before it. -/
def token (parser : Parser ρ) : Parser ρ := preceded blanks parser

/-- An operation between two operands, the sign of which is a token. -/
def binary (left : Parser ρ) (sign : Parser ρ) (right : Parser ρ) (op : Operation) : Parser ρ :=
  mapped (sequence [left, token sign, right]) (Conversion.operation op).apply

mutual

/-- The parser with its references renamed. -/
def rename (f : ρ → σ) : Parser ρ → Parser σ
  | tag text => tag text
  | scanner s => scanner s
  | eof => eof
  | alt branches => alt (renameAll f branches)
  | sequence items => sequence (renameAll f items)
  | mapped parser change => mapped (rename f parser) change
  | opt parser => opt (rename f parser)
  | many parser => many (rename f parser)
  | ref rule => ref (f rule)
  | peek parser => peek (rename f parser)
  | absent parser => absent (rename f parser)
  | edit e => edit e
  | reveal => reveal
  | probe label => probe label
  | watch label parser => watch label (rename f parser)

/-- The parsers with their references renamed. -/
def renameAll (f : ρ → σ) : List (Parser ρ) → List (Parser σ)
  | [] => []
  | parser :: rest => rename f parser :: renameAll f rest

end

end Parser

/-- The name that a rule is guarded by, and the registry it is bound to, if it is
not to use the current one. -/
structure Guard where
  name : Value
  registry : Option RegistryId

/-- A rule, plain or guarded. -/
structure Rule (ρ : Type) where
  body : Parser ρ
  guard : Option Guard

/-- The rule with its references renamed. -/
def Rule.rename {ρ σ : Type} (f : ρ → σ) (rule : Rule ρ) : Rule σ :=
  ⟨rule.body.rename f, rule.guard⟩

/-- Finitely many rules. -/
structure Grammar (ρ : Type) where
  rule : ρ → Rule ρ
  names : List ρ
  mem_names : ∀ r, r ∈ names

namespace Grammar

variable {ρ σ : Type}

/-- A grammar with further rules, which may refer to its own. -/
def extend (base : Grammar σ) (count : Nat) (rule : Fin count → Rule (Fin count ⊕ σ)) :
    Grammar (Fin count ⊕ σ) where
  rule
    | .inl i => rule i
    | .inr r => (base.rule r).rename .inr
  names := (List.finRange count).map .inl ++ base.names.map .inr
  mem_names
    | .inl i => by simp
    | .inr r => by simp [base.mem_names r]

/-- How deep the calls of rules in a text of the given length can be nested. At
one position a guarded rule is not called inside itself, and a chain of plain
rules that comes back to its beginning without reading anything has no end. Flags
that are changed on the way may let rules in again, for which room is left. -/
def nestingBound (g : Grammar ρ) (length : Nat) : Nat :=
  (length + 1) * (g.names.length + 1) * (g.names.length + 1) * wordSize

end Grammar

end SeedGrowth
