import SeedGrowth.Proofs.Cursor.Outcome
import SeedGrowth.Proofs.Verbosity.Steps

/-!
# Evaluations echoed in traced sessions

The values that a visit of a guarded rule reports, if its registry is traced, are the name of
the rule and the results of its body. An evaluation is echoed in a louder session if that is
taken to have been said which the visits of the evaluation report: the frames there are at
first have no matches to quote, and those of later ones are results that were reported.
-/
namespace SeedGrowth

variable {ρ : Type} {g : Grammar ρ} {o : Origin} {v₀ : Visit ρ} {σ τ : Session}

open Eval (Echoed)

/-- The values that a visit reports if it is traced: the name by which its rule is guarded, and
the values that the rounds of the call find. -/
inductive Grammar.Reports (g : Grammar ρ) : Visit ρ → Value → Prop
  | name {depth r s σ guard} : (g.rule r).guard = some guard →
      g.Reports ⟨depth + 1, .ref r, s, σ⟩ guard.name
  | round {depth r s σ guard v m σ'} : (g.rule r).guard = some guard →
      g.Leads ⟨depth + 1, .ref r, s, σ⟩ v → v.eval g = (.ok (some m), σ') →
      g.Reports ⟨depth + 1, .ref r, s, σ⟩ m.value

/-- A visit which the given one leads to reports the value. -/
def Visit.Says (g : Grammar ρ) (v : Visit ρ) (x : Value) : Prop :=
  ∃ v', Relation.ReflTransGen g.Leads v v' ∧ g.Reports v' x

/-- Evaluations of the parser on the way from a visit are echoed in louder sessions. -/
def Visit.EchoesIn (g : Grammar ρ) (o : Origin) (v₀ : Visit ρ) (depth : Nat) (parser : Parser ρ) :
    Prop :=
  ∀ (s : Cursor) (σ τ : Session), Relation.ReflTransGen g.Leads v₀ ⟨depth, parser, s, σ⟩ →
    σ.Echoes (v₀.Says g) o.first τ →
    Echoed (v₀.Says g) o.first σ τ (parser.eval (g.call depth) s) (parser.eval (g.call depth) s)
      (· = ·)

/-- Calls of rules on the way from a visit are echoed in louder sessions. -/
def Visit.CallsEchoIn (g : Grammar ρ) (o : Origin) (v₀ : Visit ρ) (depth : Nat) : Prop :=
  ∀ r, v₀.EchoesIn g o depth (.ref r)

namespace Parser

variable {depth : Nat}

/-- Repetitions are echoed if what they repeat is. -/
theorem repeatWhile_echoed {parser : Parser ρ} (hp : v₀.EchoesIn g o depth parser) :
    ∀ (rounds : Nat) (s : Cursor) (σ τ : Session),
      Relation.ReflTransGen g.Leads v₀ ⟨depth, .many parser, s, σ⟩ →
      σ.Echoes (v₀.Says g) o.first τ →
      Echoed (v₀.Says g) o.first σ τ (repeatWhile (parser.eval (g.call depth)) rounds s)
        (repeatWhile (parser.eval (g.call depth)) rounds s) (· = ·) := by
  intro rounds
  induction rounds with
  | zero => exact fun _ _ _ _ h => .throw h _
  | succ rounds ih =>
    intro s σ τ hv h
    refine .bind (hp s σ τ (hv.tail .many) h) ?_
    rintro result _ σ₁ τ₁ hrun h₁ rfl
    cases result with
    | none => exact .pure h₁ rfl
    | some m =>
      dsimp only
      split
      · exact .pure h₁ rfl
      · next hoffset =>
        refine .bind (ih m.rest σ₁ τ₁ (hv.tail (.further hrun hoffset)) h₁) ?_
        rintro rest _ σ₂ τ₂ - h₂ rfl
        exact .pure h₂ rfl

mutual

/-- Combinators are echoed if calls of rules are. -/
theorem eval_echoed (hc : v₀.CallsEchoIn g o depth) :
    ∀ parser : Parser ρ, parser.isCombinator = true → v₀.EchoesIn g o depth parser
  | tag text, _, s, σ, τ, _, h => .pure h rfl
  | scanner rule, _, s, σ, τ, _, h => .pure h rfl
  | eof, _, s, σ, τ, _, h => .pure h rfl
  | alt branches, hp, s, σ, τ, hv, h => evalFirst_echoed hc branches hp s σ τ hv h
  | sequence items, hp, s, σ, τ, hv, h => by
    refine .bind (evalAll_echoed hc items hp s σ τ hv h) ?_
    rintro result _ σ₁ τ₁ - h₁ rfl
    exact .pure h₁ rfl
  | mapped parser change, hp, s, σ, τ, hv, h => by
    refine .bind (eval_echoed hc parser hp s σ τ (hv.tail .mapped) h) ?_
    rintro result _ σ₁ τ₁ - h₁ rfl
    cases result with
    | none => exact .pure h₁ rfl
    | some m =>
      refine .bind (.lift h₁ _) ?_
      rintro w _ σ₂ τ₂ - h₂ rfl
      exact .pure h₂ rfl
  | opt parser, hp, s, σ, τ, hv, h => by
    refine .bind (eval_echoed hc parser hp s σ τ (hv.tail .opt) h) ?_
    rintro result _ σ₁ τ₁ - h₁ rfl
    cases result <;> exact .pure h₁ rfl
  | many parser, hp, s, σ, τ, hv, h => by
    refine .bind (repeatWhile_echoed (eval_echoed hc parser hp) _ s σ τ hv h) ?_
    rintro result _ σ₁ τ₁ - h₁ rfl
    exact .pure h₁ rfl
  | ref r, _, s, σ, τ, hv, h => hc r s σ τ hv h
  | peek _, hp, _, _, _, _, _ | absent _, hp, _, _, _, _, _ | .edit _, hp, _, _, _, _, _
  | reveal, hp, _, _, _, _, _ | probe _, hp, _, _, _, _, _ | .watch _ _, hp, _, _, _, _, _ =>
    absurd hp Bool.false_ne_true

theorem evalFirst_echoed (hc : v₀.CallsEchoIn g o depth) :
    ∀ branches : List (Parser ρ), areCombinators branches = true → ∀ (s : Cursor) (σ τ : Session),
      Relation.ReflTransGen g.Leads v₀ ⟨depth, .alt branches, s, σ⟩ →
      σ.Echoes (v₀.Says g) o.first τ →
      Echoed (v₀.Says g) o.first σ τ (evalFirst (g.call depth) branches s)
        (evalFirst (g.call depth) branches s) (· = ·)
  | [], _, _, _, _, _, h => .pure h rfl
  | parser :: rest, hp, s, σ, τ, hv, h => by
    obtain ⟨hparser, hrest⟩ := Bool.and_eq_true_iff.1 hp
    refine .bind (eval_echoed hc parser hparser s σ τ (hv.tail .branch) h) ?_
    rintro result _ σ₁ τ₁ hrun h₁ rfl
    cases result with
    | none => exact evalFirst_echoed hc rest hrest s σ₁ τ₁ (hv.tail (.otherwise hrun)) h₁
    | some m => exact .pure h₁ rfl

theorem evalAll_echoed (hc : v₀.CallsEchoIn g o depth) :
    ∀ items : List (Parser ρ), areCombinators items = true → ∀ (s : Cursor) (σ τ : Session),
      Relation.ReflTransGen g.Leads v₀ ⟨depth, .sequence items, s, σ⟩ →
      σ.Echoes (v₀.Says g) o.first τ →
      Echoed (v₀.Says g) o.first σ τ (evalAll (g.call depth) items s)
        (evalAll (g.call depth) items s) (· = ·)
  | [], _, _, _, _, _, h => .pure h rfl
  | parser :: rest, hp, s, σ, τ, hv, h => by
    obtain ⟨hparser, hrest⟩ := Bool.and_eq_true_iff.1 hp
    refine .bind (eval_echoed hc parser hparser s σ τ (hv.tail .item) h) ?_
    rintro result _ σ₁ τ₁ hrun h₁ rfl
    cases result with
    | none => exact .pure h₁ rfl
    | some m =>
      refine .bind (evalAll_echoed hc rest hrest m.rest σ₁ τ₁ (hv.tail (.after hrun)) h₁) ?_
      rintro last _ σ₂ τ₂ - h₂ rfl
      exact .pure h₂ rfl

end

end Parser

namespace Grammar

/-- A call of a guarded rule is echoed in louder sessions if the body of the rule is. -/
theorem guarded_echoesIn (hg : g.OfCombinators) (hv₀ : v₀.Upright o)
    (hheld : ∀ p id, ¬ o.held p id) {depth : Nat} {r : ρ}
    {guard : Guard} (hr : (g.rule r).guard = some guard)
    (hbody : v₀.EchoesIn g o depth (g.rule r).body) {s : Cursor}
    (hv : Relation.ReflTransGen g.Leads v₀ ⟨depth + 1, .ref r, s, σ⟩)
    (h : σ.Echoes (v₀.Says g) o.first τ) :
    Echoed (v₀.Says g) o.first σ τ
      (guarded guard.name guard.registry ((g.rule r).body.eval (g.call depth)) s)
      (guarded guard.name guard.registry ((g.rule r).body.eval (g.call depth)) s) (· = ·) := by
  have hupright := hv₀.reached hg hv
  have hname : v₀.Says g guard.name := ⟨_, hv, .name hr⟩
  refine guarded_echoed hname h ?_ ?_
  · intro arrival σ₁ harrive
    obtain ⟨hframes, hmeets⟩ := meets_of_arrive harrive
    rw [hframes]
    refine ⟨hupright.session.first_le, fun id hframe => ?_⟩
    have hsame : σ₁.frame id = σ.frame id := Session.frame_of_frames hframes id
    rw [hmeets.frame?_eq] at hframe
    rw [hsame]
    -- The cursor came with no frame, and the match of a later one was said.
    rcases hupright.stands.frame _ _ _ hupright.stands.remaining_le hframe with
      ⟨-, hfound⟩ | ⟨hle, hlt, -⟩
    · exact absurd hfound (hheld _ id)
    · exact ⟨hlt, h.said id hle⟩
  · intro arrival σ₁ call s' σ₂ round σ' τ' harrive hactive hbegin hround h'
    have hleads : g.Leads ⟨depth + 1, .ref r, s, σ⟩ ⟨depth, (g.rule r).body, s', σ'⟩ :=
      .guarded hr harrive hactive hbegin hround
    refine (hbody s' σ' τ' (hv.tail hleads) h').imp ?_
    rintro result _ σ'' hrun rfl
    refine ⟨rfl, fun m hm => ?_⟩
    subst hm
    exact ⟨_, hv, .round hr hleads hrun⟩

/-- Calls of rules are echoed in louder sessions. -/
theorem callsEchoIn (hg : g.OfCombinators) (hv₀ : v₀.Upright o) (hheld : ∀ p id, ¬ o.held p id)
    (depth : Nat) :
    v₀.CallsEchoIn g o depth := by
  induction depth with
  | zero => exact fun _ _ _ _ _ h => .throw h _
  | succ depth ih =>
    intro r s σ τ hv h
    have hbody := Parser.eval_echoed ih (g.rule r).body (hg r)
    rw [Parser.eval, call]
    cases hr : (g.rule r).guard with
    | none => exact hbody s σ τ (hv.tail (.plain hr)) h
    | some guard => exact guarded_echoesIn hg hv₀ hheld hr hbody hv h

/-- What a visit evaluates to is echoed in a louder session, if its cursor leads to no frame
that has a match to quote. -/
theorem visit_echoed (hg : g.OfCombinators) {v : Visit ρ} (hv : v.Upright o)
    (hheld : ∀ p id, ¬ o.held p id) (h : v.session.Echoes (v.Says g) o.first τ) :
    EndsEchoed (v.Says g) o.first (· = ·) (v.eval g) (v.parser.eval (g.call v.depth) v.cursor τ) :=
  Parser.eval_echoed (callsEchoIn hg hv hheld v.depth) v.parser hv.combinator v.cursor v.session τ
    .refl h

end Grammar

end SeedGrowth
