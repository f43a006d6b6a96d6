import SeedGrowth.Grammar.Parser

/-!
# What a parser takes up and what it calls first

How many characters every match of a parser takes up at least, and which rules a parser
may call before it has read anything, as far as that can be read off the parser. Where
the second part of a row may be reached without reading, its calls come first as well.
-/
namespace SeedGrowth.Parser

variable {ρ : Type}

mutual

/-- How many characters every match takes up at least. -/
def least : Parser ρ → Nat
  | tag text => text.length
  | alt branches => leastFirst branches
  | sequence items => leastAll items
  | mapped parser _ | watch _ parser => least parser
  | _ => 0

/-- How many characters every match of one of the parsers takes up at least. -/
def leastFirst : List (Parser ρ) → Nat
  | [] => 0
  | parser :: rest => if rest.isEmpty then least parser else min (least parser) (leastFirst rest)

/-- How many characters every match of all parsers in a row takes up at least. -/
def leastAll : List (Parser ρ) → Nat
  | [] => 0
  | parser :: rest => least parser + leastAll rest

end

mutual

/-- The rules that may be called before anything has been read. -/
def heads : Parser ρ → List ρ
  | ref rule => [rule]
  | alt branches => headsFirst branches
  | sequence items => headsAll items
  | mapped parser _ | opt parser | many parser | peek parser | absent parser | watch _ parser =>
    heads parser
  | _ => []

/-- The rules that one of the parsers may call before anything has been read. -/
def headsFirst : List (Parser ρ) → List ρ
  | [] => []
  | parser :: rest => heads parser ++ headsFirst rest

/-- The rules that may be called before the parsers in a row have read anything. -/
def headsAll : List (Parser ρ) → List ρ
  | [] => []
  | parser :: rest => heads parser ++ if least parser = 0 then headsAll rest else []

end

end SeedGrowth.Parser
