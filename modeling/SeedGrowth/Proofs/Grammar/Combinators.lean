import Mathlib.Data.List.Nodup
import Mathlib.Data.List.Perm.Subperm
import Mathlib.Tactic.Ring
import SeedGrowth.Grammar.Parser

/-!
# Grammars of combinators

Parsers that are built from texts, scanners and references by trying, chaining,
mapping and repeating. They neither look ahead nor change flags nor write into the log.
-/
namespace SeedGrowth

variable {ρ κ : Type}

namespace Parser

mutual

/-- The parser is built by combinators alone. -/
def isCombinator : Parser ρ → Bool
  | tag _ | scanner _ | eof | ref _ => true
  | alt parsers | sequence parsers => areCombinators parsers
  | mapped parser _ | opt parser | many parser => isCombinator parser
  | peek _ | absent _ | .edit _ | reveal | probe _ | watch _ _ => false

/-- All parsers are built by combinators alone. -/
def areCombinators : List (Parser ρ) → Bool
  | [] => true
  | parser :: rest => isCombinator parser && areCombinators rest

end

end Parser

namespace Grammar

/-- All rules of the grammar are built by combinators alone. -/
def OfCombinators (g : Grammar ρ) : Prop := ∀ r, (g.rule r).body.isCombinator = true

/-- The grammar of one rule. -/
def single (body : Parser Unit) (guard : Option Guard) : Grammar Unit where
  rule _ := ⟨body, guard⟩
  names := [()]
  mem_names _ := List.mem_singleton_self _

theorem mem_both (r : Bool) : r ∈ [false, true] := by cases r <;> simp

/-- The grammar of two rules. -/
def pair (first second : Rule Bool) : Grammar Bool where
  rule r := bif r then second else first
  names := [false, true]
  mem_names := mem_both

/-- Different keys of rules are no more than there are rules. -/
theorem length_le_of_keys (g : Grammar ρ) {key : ρ → κ} {keys : List κ} (h : keys.Nodup)
    (hkeys : ∀ k ∈ keys, ∃ r, key r = k) : keys.length ≤ g.names.length := by
  have hsubset : keys ⊆ g.names.map key := by
    intro k hk
    obtain ⟨r, rfl⟩ := hkeys k hk
    exact List.mem_map_of_mem (g.mem_names r)
  have hle := (h.subperm hsubset).length_le
  rwa [List.length_map] at hle

theorem length_le_names (g : Grammar ρ) {rules : List ρ} (h : rules.Nodup) :
    rules.length ≤ g.names.length :=
  g.length_le_of_keys h fun r _ => ⟨r, rfl⟩

/-- As many guarded rules as there are rules, and after each of them as many plain ones, have
room in the square of the number of rules. -/
theorem share_lt (g : Grammar ρ) {guards chain : Nat} (hg : guards ≤ g.names.length)
    (hc : chain ≤ g.names.length) :
    guards * (g.names.length + 1) + chain < (g.names.length + 1) * (g.names.length + 1) := by
  generalize g.names.length = n at *
  have hle : guards * (n + 1) ≤ n * (n + 1) := Nat.mul_le_mul_right _ hg
  have hsum : (n + 1) * (n + 1) = n * (n + 1) + n + 1 := by ring
  omega

/-- How deep calls can be nested in a text of the given length, if no parser changes flags
on the way. -/
def callBound (g : Grammar ρ) (length : Nat) : Nat :=
  (length + 1) * ((g.names.length + 1) * (g.names.length + 1))

theorem callBound_le (g : Grammar ρ) {length length' : Nat} (h : length ≤ length') :
    g.callBound length ≤ g.callBound length' :=
  Nat.mul_le_mul_right _ (Nat.succ_le_succ h)

theorem callBound_le_nestingBound (g : Grammar ρ) (length : Nat) :
    g.callBound length ≤ g.nestingBound length := by
  unfold callBound nestingBound
  rw [Nat.mul_assoc (length + 1)]
  exact Nat.le_mul_of_pos_right _ (by decide)

end Grammar

end SeedGrowth
