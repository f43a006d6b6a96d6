import SeedGrowth.Proofs.Grammar.Combinators
import SeedGrowth.Proofs.Room.Steps

/-!
# Parsers where there is more room

What a visit evaluates to is done alike in a widened session, unless on the way from it a rule
is called that needs a flag while there is none left. The grounds on which evaluations stop are
told by the visits that it leads to: the calls that find the registry full, and the functions
that raise faults.
-/
namespace SeedGrowth

variable {ρ : Type} {g : Grammar ρ} {W : Widening} {v₀ : Visit ρ}

open Eval (Widens)

namespace Grammar

/-- All guards use the current registry. -/
def Unbound (g : Grammar ρ) : Prop :=
  ∀ {r : ρ} {guard : Guard}, (g.rule r).guard = some guard → guard.registry = none

/-- A rule is called that is guarded by a name which is not registered, while the registry
already holds as many names as it may. -/
inductive Overflows (g : Grammar ρ) (home : RegistryId) : Visit ρ → Value → Prop where
  | called {depth r s σ guard} : (g.rule r).guard = some guard → guard.name.hashable = true →
      (σ.registry home).find? guard.name = none →
      (σ.registry home).capacity.size ≤ (σ.registry home).size →
      g.Overflows home ⟨depth + 1, .ref r, s, σ⟩ guard.name

/-- A function of the grammar is applied to a value and raises a fault. -/
inductive Faults (g : Grammar ρ) : Visit ρ → Fault → Prop where
  | mapped {depth parser change s σ m σ' fault} :
      Visit.eval g ⟨depth, parser, s, σ⟩ = (.ok (some m), σ') →
      change m.value = .error fault → g.Faults ⟨depth, .mapped parser change, s, σ⟩ fault

end Grammar

namespace Visit

/-- A visit which the given one leads to calls a rule that there is no flag left for. -/
def Overflows (g : Grammar ρ) (home : RegistryId) (v : Visit ρ) : Prop :=
  ∃ v' name, Relation.ReflTransGen g.Leads v v' ∧ g.Overflows home v' name

/-- A visit which the given one leads to raises a fault by a function of the grammar. -/
def Raises (g : Grammar ρ) (v : Visit ρ) (fault : Fault) : Prop :=
  ∃ v', Relation.ReflTransGen g.Leads v v' ∧ g.Faults v' fault

/-- What evaluations on the way from a visit may stop for. -/
def grounds (g : Grammar ρ) (W : Widening) (v : Visit ρ) : Grounds :=
  { W with overflows := v.Overflows g W.home, raised := v.Raises g }

/-- Evaluations of the parser on the way from a visit are done alike in widened sessions. -/
def WidensIn (g : Grammar ρ) (W : Widening) (v₀ : Visit ρ) (depth : Nat) (parser : Parser ρ) :
    Prop :=
  ∀ (s t : Cursor) (σ τ : Session), Relation.ReflTransGen g.Leads v₀ ⟨depth, parser, s, σ⟩ →
    σ.WidenedInside W τ → s.Widened W t →
    Widens (v₀.grounds g W) σ τ (parser.eval (g.call depth) s) (parser.eval (g.call depth) t)
      (ResultWidened W)

/-- Calls of rules on the way from a visit are done alike in widened sessions. -/
def CallsWidenIn (g : Grammar ρ) (W : Widening) (v₀ : Visit ρ) (depth : Nat) : Prop :=
  ∀ r, v₀.WidensIn g W depth (.ref r)

end Visit

/-- The rows of values are the same, and so are the cursors behind them but for the flags. -/
def RowWidened (W : Widening) (row row' : Cursor × List Value) : Prop :=
  row.1.Widened W row'.1 ∧ row'.2 = row.2

theorem Parser.matchNext_widened {s t : Cursor} (h : s.Widened W t) (count : Nat) :
    (matchNext s count).Widened W (matchNext t count) := by
  refine ⟨h.advance count, ?_⟩
  rw [matchNext, matchNext, h.fragment_eq]

namespace Parser

variable {depth : Nat}

/-- Repetitions are done alike if what they repeat is. -/
theorem repeatWhile_widens {parser : Parser ρ} (hp : v₀.WidensIn g W depth parser) :
    ∀ (rounds : Nat) (s t : Cursor) (σ τ : Session),
      Relation.ReflTransGen g.Leads v₀ ⟨depth, .many parser, s, σ⟩ →
      σ.WidenedInside W τ → s.Widened W t →
      Widens (v₀.grounds g W) σ τ (repeatWhile (parser.eval (g.call depth)) rounds s)
        (repeatWhile (parser.eval (g.call depth)) rounds t) (RowWidened W) := by
  intro rounds
  induction rounds with
  | zero => exact fun _ _ _ _ _ h _ => .throw h .exhausted
  | succ rounds ih =>
    intro s t σ τ hv h hs
    refine .bind (hp s t σ τ (hv.tail .many) h hs) ?_
    intro result result' σ₁ τ₁ hrun h₁ hresult
    cases hresult with
    | none => exact .pure h₁ ⟨hs, rfl⟩
    | some hm =>
      dsimp only
      rw [hm.rest.place_eq, hs.place_eq]
      split
      · exact .pure h₁ ⟨hs, rfl⟩
      · next hoffset =>
        refine .bind (ih _ _ σ₁ τ₁ (hv.tail (.further hrun hoffset)) h₁ hm.rest) ?_
        rintro ⟨rest, _⟩ ⟨rest', values⟩ σ₂ τ₂ - h₂ ⟨hrest, rfl⟩
        exact .pure h₂ ⟨hrest, congrArg (· :: values) hm.value_eq⟩

mutual

/-- Combinators are done alike if calls of rules are. -/
theorem eval_widens (hc : v₀.CallsWidenIn g W depth) :
    ∀ parser : Parser ρ, parser.isCombinator = true → v₀.WidensIn g W depth parser
  | tag text, _, s, t, σ, τ, _, h, hs => by
    rw [eval, eval, hs.fragment_eq]
    split
    · exact .pure h (.some (matchNext_widened hs _))
    · exact .pure h .none
  | scanner rule, _, s, t, σ, τ, _, h, hs => by
    rw [eval, eval, hs.fragment_eq]
    cases rule.scan s.fragment with
    | none => exact .pure h .none
    | some count => exact .pure h (.some (matchNext_widened hs count))
  | eof, _, s, t, σ, τ, _, h, hs => by
    rw [eval, eval, hs.fragment_eq]
    split
    · exact .pure h (.some ⟨hs, rfl⟩)
    · exact .pure h .none
  | alt branches, hp, s, t, σ, τ, hv, h, hs => evalFirst_widens hc branches hp s t σ τ hv h hs
  | sequence items, hp, s, t, σ, τ, hv, h, hs => by
    refine .bind (evalAll_widens hc items hp s t σ τ hv h hs) ?_
    intro row row' σ₁ τ₁ _ h₁ hrow
    cases hrow with
    | none => exact .pure h₁ .none
    | some hrow => exact .pure h₁ (.some ⟨hrow.1, congrArg Value.tuple hrow.2⟩)
  | mapped parser change, hp, s, t, σ, τ, hv, h, hs => by
    refine .bind (eval_widens hc parser hp s t σ τ (hv.tail .mapped) h hs) ?_
    intro result result' σ₁ τ₁ hrun h₁ hresult
    cases hresult with
    | none => exact .pure h₁ .none
    | @some m m' hm =>
      dsimp only
      rw [hm.value_eq]
      cases hchange : change m.value with
      | ok value => exact .pure h₁ (.some ⟨hm.rest, rfl⟩)
      | error fault => exact .throw h₁ (.raised ⟨_, hv, .mapped hrun hchange⟩)
  | opt parser, hp, s, t, σ, τ, hv, h, hs => by
    refine .bind (eval_widens hc parser hp s t σ τ (hv.tail .opt) h hs) ?_
    intro result result' σ₁ τ₁ _ h₁ hresult
    cases hresult with
    | none => exact .pure h₁ (.some ⟨hs, rfl⟩)
    | some hm => exact .pure h₁ (.some hm)
  | many parser, hp, s, t, σ, τ, hv, h, hs => by
    rw [eval, eval, hs.remaining_eq]
    refine .bind (repeatWhile_widens (eval_widens hc parser hp) _ s t σ τ hv h hs) ?_
    intro row row' σ₁ τ₁ _ h₁ hrow
    exact .pure h₁ (.some ⟨hrow.1, congrArg Value.list hrow.2⟩)
  | ref r, _, s, t, σ, τ, hv, h, hs => hc r s t σ τ hv h hs
  | peek _, hp, _, _, _, _, _, _, _ | absent _, hp, _, _, _, _, _, _, _
  | .edit _, hp, _, _, _, _, _, _, _ | reveal, hp, _, _, _, _, _, _, _
  | probe _, hp, _, _, _, _, _, _, _ | .watch _ _, hp, _, _, _, _, _, _, _ =>
    absurd hp Bool.false_ne_true

theorem evalFirst_widens (hc : v₀.CallsWidenIn g W depth) :
    ∀ branches : List (Parser ρ), areCombinators branches = true →
      ∀ (s t : Cursor) (σ τ : Session),
      Relation.ReflTransGen g.Leads v₀ ⟨depth, .alt branches, s, σ⟩ →
      σ.WidenedInside W τ → s.Widened W t →
      Widens (v₀.grounds g W) σ τ (evalFirst (g.call depth) branches s)
        (evalFirst (g.call depth) branches t) (ResultWidened W)
  | [], _, _, _, _, _, _, h, _ => .pure h .none
  | parser :: rest, hp, s, t, σ, τ, hv, h, hs => by
    obtain ⟨hparser, hrest⟩ := Bool.and_eq_true_iff.1 hp
    refine .bind (eval_widens hc parser hparser s t σ τ (hv.tail .branch) h hs) ?_
    intro result result' σ₁ τ₁ hrun h₁ hresult
    cases hresult with
    | none => exact evalFirst_widens hc rest hrest s t σ₁ τ₁ (hv.tail (.otherwise hrun)) h₁ hs
    | some hm => exact .pure h₁ (.some hm)

theorem evalAll_widens (hc : v₀.CallsWidenIn g W depth) :
    ∀ items : List (Parser ρ), areCombinators items = true →
      ∀ (s t : Cursor) (σ τ : Session),
      Relation.ReflTransGen g.Leads v₀ ⟨depth, .sequence items, s, σ⟩ →
      σ.WidenedInside W τ → s.Widened W t →
      Widens (v₀.grounds g W) σ τ (evalAll (g.call depth) items s)
        (evalAll (g.call depth) items t) (Option.Rel (RowWidened W))
  | [], _, _, _, _, _, _, h, hs => .pure h (.some ⟨hs, rfl⟩)
  | parser :: rest, hp, s, t, σ, τ, hv, h, hs => by
    obtain ⟨hparser, hrest⟩ := Bool.and_eq_true_iff.1 hp
    refine .bind (eval_widens hc parser hparser s t σ τ (hv.tail .item) h hs) ?_
    intro result result' σ₁ τ₁ hrun h₁ hresult
    cases hresult with
    | none => exact .pure h₁ .none
    | @some m m' hm =>
      refine .bind (evalAll_widens hc rest hrest m.rest m'.rest σ₁ τ₁ (hv.tail (.after hrun)) h₁
        hm.rest) ?_
      intro row row' σ₂ τ₂ _ h₂ hrow
      cases hrow with
      | none => exact .pure h₂ .none
      | @some row row' hrow =>
        refine .pure h₂ (.some ⟨hrow.1, ?_⟩)
        change m'.value :: row'.2 = m.value :: row.2
        rw [hm.value_eq, hrow.2]

end

end Parser

namespace Grammar

/-- Calls of rules are done alike in widened sessions. -/
theorem callsWidenIn (hg : g.OfCombinators) (hu : g.Unbound) (W : Widening) (v₀ : Visit ρ)
    (depth : Nat) : v₀.CallsWidenIn g W depth := by
  induction depth with
  | zero => exact fun _ _ _ _ _ _ h _ => .throw h .exhausted
  | succ depth ih =>
    intro r s t σ τ hv h hs
    have hbody := Parser.eval_widens ih (g.rule r).body (hg r)
    rw [Parser.eval, Parser.eval, call, call]
    cases hr : (g.rule r).guard with
    | none => exact hbody s t σ τ (hv.tail (.plain hr)) h hs
    | some guard =>
      dsimp only
      rw [hu hr]
      refine guarded_widens (G := v₀.grounds g W) h hs
        (fun hname hnew hfull => ⟨_, _, hv, .called hr hname hnew hfull⟩) ?_
      intro arrival σ₁ call s' t' σ₂ round σ' τ' harrive hactive hbegin hround h' hs'
      rw [← hu hr] at harrive
      exact hbody s' t' σ' τ' (hv.tail (.guarded hr harrive hactive hbegin hround)) h' hs'

/-- What a visit evaluates to is done alike where there is more room. -/
theorem visit_widens (hg : g.OfCombinators) (hu : g.Unbound) {v : Visit ρ}
    (hp : v.parser.isCombinator = true) {t : Cursor} {τ : Session}
    (h : v.session.WidenedInside W τ) (ht : v.cursor.Widened W t) :
    EndsWidened (v.grounds g W) (ResultWidened W) (v.eval g)
      (v.parser.eval (g.call v.depth) t τ) :=
  Parser.eval_widens (callsWidenIn hg hu W v v.depth) v.parser hp v.cursor t v.session τ .refl h ht

end Grammar

end SeedGrowth
