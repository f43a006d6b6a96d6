import SeedGrowth.Grammar.Parser

/-!
# Derivations

A grammar read without any order: alternatives are tried in no order, an optional parser is
free to take nothing, and a rule stands for its body, however often it comes back to itself.
A derivation says how a text can be built like that, and what it is worth. The text that
follows it matters to scanners, which may look ahead, and to the end of the text.

Texts, rows and repetitions keep all that was read, so that without functions that change
values the leaves of a value spell out the text that it was derived from.
-/
namespace SeedGrowth

variable {ρ : Type}

mutual

/-- The parser derives the text, where it is followed by another, and is worth the value. -/
inductive Grammar.Derives (g : Grammar ρ) :
    Parser ρ → (text after : List Char) → Value → Prop where
  | tag (text after : List Char) : Derives g (.tag text) text after (.text (String.ofList text))
  | scanner {rule : Scanner} {text after : List Char} :
      rule.scan (text ++ after) = some text.length →
      Derives g (.scanner rule) text after (.text (String.ofList text))
  | eof : Derives g .eof [] [] (.text "")
  | alt {branches : List (Parser ρ)} {branch : Parser ρ} {text after : List Char} {v : Value} :
      branch ∈ branches → Derives g branch text after v → Derives g (.alt branches) text after v
  | sequence {items : List (Parser ρ)} {text after : List Char} {values : List Value} :
      DerivesRow g items text after values →
      Derives g (.sequence items) text after (.tuple values)
  | mapped {parser : Parser ρ} {change : Value → Except Fault Value} {text after : List Char}
      {v w : Value} : Derives g parser text after v → change v = .ok w →
      Derives g (.mapped parser change) text after w
  | nothing (parser : Parser ρ) (after : List Char) : Derives g (.opt parser) [] after .null
  | taken {parser : Parser ρ} {text after : List Char} {v : Value} :
      Derives g parser text after v → Derives g (.opt parser) text after v
  | many {parser : Parser ρ} {text after : List Char} {values : List Value} :
      DerivesEach g parser text after values → Derives g (.many parser) text after (.list values)
  | ref {r : ρ} {text after : List Char} {v : Value} :
      Derives g (g.rule r).body text after v → Derives g (.ref r) text after v

/-- The parsers derive a text in a row. -/
inductive Grammar.DerivesRow (g : Grammar ρ) :
    List (Parser ρ) → (text after : List Char) → List Value → Prop where
  | nil (after : List Char) : DerivesRow g [] [] after []
  | cons {parser : Parser ρ} {items : List (Parser ρ)} {text text' after : List Char} {v : Value}
      {values : List Value} : Derives g parser text (text' ++ after) v →
      DerivesRow g items text' after values →
      DerivesRow g (parser :: items) (text ++ text') after (v :: values)

/-- One parser derives a text again and again, each time with some text. -/
inductive Grammar.DerivesEach (g : Grammar ρ) :
    Parser ρ → (text after : List Char) → List Value → Prop where
  | nil (parser : Parser ρ) (after : List Char) : DerivesEach g parser [] after []
  | cons {parser : Parser ρ} {text text' after : List Char} {v : Value} {values : List Value} :
      text ≠ [] → Derives g parser text (text' ++ after) v →
      DerivesEach g parser text' after values →
      DerivesEach g parser (text ++ text') after (v :: values)

end

mutual

/-- The texts at the leaves of a value, from left to right. -/
def Value.leaves : Value → List Char
  | .text s => s.toList
  | .tuple items | .list items => leavesAll items
  | _ => []

/-- The texts at the leaves of the values of a row. -/
def Value.leavesAll : List Value → List Char
  | [] => []
  | v :: values => v.leaves ++ leavesAll values

end

mutual

/-- The parser does not change values. -/
def Parser.keepsValues : Parser ρ → Bool
  | .tag _ | .scanner _ | .eof | .ref _ | .edit _ | .reveal | .probe _ => true
  | .alt parsers | .sequence parsers => allKeepValues parsers
  | .opt parser | .many parser | .peek parser | .absent parser | .watch _ parser =>
    keepsValues parser
  | .mapped _ _ => false

/-- None of the parsers changes values. -/
def Parser.allKeepValues : List (Parser ρ) → Bool
  | [] => true
  | parser :: rest => keepsValues parser && allKeepValues rest

end

/-- No rule of the grammar changes values. -/
def Grammar.KeepsValues (g : Grammar ρ) : Prop := ∀ r, (g.rule r).body.keepsValues = true

namespace Parser

theorem keepsValues_of_mem {parsers : List (Parser ρ)} (h : allKeepValues parsers = true)
    {parser : Parser ρ} (hmem : parser ∈ parsers) : parser.keepsValues = true := by
  induction parsers with
  | nil => cases hmem
  | cons first rest ih =>
    obtain ⟨hfirst, hrest⟩ := Bool.and_eq_true_iff.1 h
    rcases List.mem_cons.1 hmem with rfl | hmem
    · exact hfirst
    · exact ih hrest hmem

end Parser

namespace Grammar

variable {g : Grammar ρ}

mutual

/-- The leaves of the value of a derivation are its text, if no value is changed. -/
theorem Derives.leaves_eq (hg : g.KeepsValues) {parser : Parser ρ} {text after : List Char}
    {v : Value} : g.Derives parser text after v → parser.keepsValues = true → v.leaves = text
  | .tag text _, _ => String.toList_ofList
  | .scanner _, _ => String.toList_ofList
  | .eof, _ => rfl
  | .alt hmem h, hp => h.leaves_eq hg (Parser.keepsValues_of_mem hp hmem)
  | .sequence h, hp => h.leavesAll_eq hg hp
  | .nothing _ _, _ => rfl
  | .taken h, hp => h.leaves_eq hg hp
  | .many h, hp => h.leavesAll_eq hg hp
  | .ref (r := r) h, _ => h.leaves_eq hg (hg r)

theorem DerivesRow.leavesAll_eq (hg : g.KeepsValues) {items : List (Parser ρ)}
    {text after : List Char} {values : List Value} : g.DerivesRow items text after values →
    Parser.allKeepValues items = true → Value.leavesAll values = text
  | .nil _, _ => rfl
  | .cons h hrest, hp => by
    obtain ⟨hparser, hitems⟩ := Bool.and_eq_true_iff.1 hp
    rw [Value.leavesAll, h.leaves_eq hg hparser, hrest.leavesAll_eq hg hitems]

theorem DerivesEach.leavesAll_eq (hg : g.KeepsValues) {parser : Parser ρ}
    {text after : List Char} {values : List Value} : g.DerivesEach parser text after values →
    parser.keepsValues = true → Value.leavesAll values = text
  | .nil _ _, _ => rfl
  | .cons _ h hrest, hp => by
    rw [Value.leavesAll, h.leaves_eq hg hp, hrest.leavesAll_eq hg hp]

end

end Grammar

end SeedGrowth
