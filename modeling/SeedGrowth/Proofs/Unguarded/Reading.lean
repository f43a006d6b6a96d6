import SeedGrowth.Proofs.Scope.Asking
import SeedGrowth.Proofs.Scope.Outcome
import SeedGrowth.Proofs.Unguarded.Basic

/-!
# Runs watched for re-entries

The evaluation by scopes is watched for one rule: where the body of the rule asks for it at
the position where it is evaluated, that is reported by a key of its own. A run of the grammar
goes along with the watched evaluation, and calls the rule inside a call of it at the same
position whenever that is reported. Where nothing is reported, the rule is evaluated once
each time, which is what a plain rule does; nothing else tells the two apart, because the rule
in scope is then not asked for.
-/
namespace SeedGrowth

open Account (AgreesOn)

variable {ρ : Type} {g : Grammar ρ} {r : ρ}

/-- The rule is called at a position where another call of it is unfinished. -/
def Moment.Reenters (m : Moment ρ) (r : ρ) : Prop :=
  ∃ s, m.happening = .handed (.ref r) s ∧ ∃ c ∈ m.calls, c.rule = r ∧ c.position = s.remaining

/-- Some call of the rule happens while another one at the same position is unfinished. -/
def Run.Reenters (run : Run ρ) (r : ρ) : Prop := ∃ m ∈ run.moments, m.Reenters r

/-- A call of the rule inside a call of it at that position. -/
theorem CalledInside.reenters {calls : List (OpenCall ρ)} {moments : List (Moment ρ)}
    {position : Nat} (h : CalledInside calls moments r position) {c : OpenCall ρ} (hc : c ∈ calls)
    (hrule : c.rule = r) (hposition : c.position = position) : ∃ m ∈ moments, m.Reenters r := by
  obtain ⟨m, hm, ⟨s, hhappening, hremaining⟩, hinside⟩ := h
  exact ⟨m, hm, s, hhappening, c, hinside.subset hc, hrule, hposition.trans hremaining.symm⟩

/-- Calls of rules are told of, and that a rule is called again before a call of it ends. -/
def Told.watched (r : ρ) : Told (some : ρ → Option ρ) where
  tells calls moments
    | some r', position => CalledInside calls moments r' position
    | none, _ => ∃ m ∈ moments, m.Reenters r
  later {_ _ _ k _} hm h := by
    cases k with
    | some r' => exact CalledInside.later h hm
    | none =>
      obtain ⟨m, hmem, hreenters⟩ := h
      exact ⟨m, hm.subset hmem, hreenters⟩
  outward {_ _ _ k _} h := by
    cases k with
    | some r' =>
      obtain ⟨m, hm, hhanded, hinside⟩ := h
      exact ⟨m, hm, hhanded, (List.suffix_cons _ _).trans hinside⟩
    | none => exact h
  called h := h

namespace Scope

section

variable [DecidableEq ρ]

/-- Evaluates the body of a rule, and reports it if that is the watched rule and the body asks
for it. -/
def evaluateWatched (watched r : ρ) (position : Nat)
    (body : Option Found → Account (Option ρ) (Option Found)) :
    Account (Option ρ) (Option Found) :=
  if r = watched ∧ (some r, position) ∈ (body none).asked then do
    Account.ask none position
    evaluate (some r) position body
  else evaluate (some r) position body

/-- Other rules are evaluated as they are. -/
theorem evaluateWatched_of_ne {watched r : ρ} (h : r ≠ watched) (position : Nat)
    (body : Option Found → Account (Option ρ) (Option Found)) :
    evaluateWatched watched r position body = evaluate (some r) position body :=
  if_neg fun hwatched => h hwatched.1

/-- Where nothing is reported, the watched rule is evaluated once. -/
theorem evaluateWatched_self {position : Nat}
    {body : Option Found → Account (Option ρ) (Option Found)}
    (h : ∀ p, (none, p) ∉ (evaluateWatched r r position body).asked) :
    (some r, position) ∉ (body none).asked ∧
      evaluateWatched r r position body = body none := by
  have hnot : (some r, position) ∉ (body none).asked := by
    intro hasked
    refine h position ?_
    rw [evaluateWatched, if_pos ⟨rfl, hasked⟩]
    exact List.mem_cons_self
  refine ⟨hnot, ?_⟩
  rw [evaluateWatched, if_neg fun hasked => hnot hasked.2, evaluate_eq_of_not_asked hnot]

end

/-- The scopes tell rules apart from the one rule in the same way. -/
structure SameBut (scope scope' : Scope (Option ρ)) (r : ρ) : Prop where
  position_eq : scope'.position = scope.position
  best_eq : ∀ k, k ≠ some r → scope'.best k = scope.best k

namespace SameBut

variable {scope scope' : Scope (Option ρ)}

theorem refl (scope : Scope (Option ρ)) (r : ρ) : scope.SameBut scope r := ⟨rfl, fun _ _ => rfl⟩

theorem movedTo (h : scope.SameBut scope' r) (position : Nat) :
    (scope.movedTo position).SameBut (scope'.movedTo position) r := by
  unfold Scope.movedTo
  rw [h.position_eq]
  split
  · exact h
  · exact .refl _ _

theorem add [DecidableEq ρ] (h : scope.SameBut scope' r) (k : Option ρ) (best : Option Found) :
    (scope.add k best).SameBut (scope'.add k best) r := by
  refine ⟨h.position_eq, fun k' hk' => ?_⟩
  unfold Scope.add
  dsimp only
  rw [h.best_eq k' hk']

theorem add_self [DecidableEq ρ] (h : scope.SameBut scope' r) (best : Option Found) :
    (scope.add (some r) best).SameBut scope' r :=
  ⟨h.position_eq, fun k hk => by rw [best_add_of_ne hk, h.best_eq k hk]⟩

end SameBut

/-- No re-entry is reported, and a rule in scope is not asked for at the position. -/
def Spares (scope : Scope (Option ρ)) (r : ρ) (a : Option ρ × Nat) : Prop :=
  a.1 ≠ none ∧ (a = (some r, scope.position) → scope.best (some r) = none)

namespace Spares

variable {scope : Scope (Option ρ)} {a : Option ρ × Nat}

theorem movedTo (h : scope.Spares r a) (position : Nat) : (scope.movedTo position).Spares r a := by
  unfold Scope.movedTo
  split
  · exact h
  · exact ⟨h.1, fun _ => rfl⟩

/-- With another rule in scope the same is spared. -/
theorem add [DecidableEq ρ] (h : scope.Spares r a) {r' : ρ} (hne : r' ≠ r) (best : Option Found) :
    (scope.add (some r') best).Spares r a :=
  ⟨h.1, fun heq => (best_add_of_ne fun hsome => hne (Option.some.inj hsome).symm).trans (h.2 heq)⟩

end Spares

end Scope

namespace Grammar

variable [DecidableEq ρ]

/-- Calls a rule in a scope, and reports re-entries of the watched rule. -/
def watchCall (g : Grammar ρ) (watched : ρ) :
    Nat → Scope (Option ρ) → ρ → Point → Account (Option ρ) (Option Found)
  | 0, _, _, _ => .exhausted
  | depth + 1, scope, r, s => do
    Account.ask (some r) s.remaining
    let scope := scope.movedTo s.remaining
    match (g.rule r).guard with
    | none => (g.rule r).body.read (g.watchCall watched depth scope) s
    | some _ =>
      match scope.best (some r) with
      | some best => return best
      | none => Scope.evaluateWatched watched r s.remaining fun best =>
          (g.rule r).body.read (g.watchCall watched depth (scope.add (some r) best)) s

/-- Calls of rules mirror their watched readings: what is reported is a call of the rule
before another one ends. -/
theorem watchCall_mirrors {S : Setting ρ} (hkey : S.grammar.KeysFit (some : ρ → Option ρ))
    (depth : Nat) :
    CallsMirror (Told.watched r) S depth (S.grammar.followCall depth)
      (S.grammar.watchCall r depth) := by
  induction depth with
  | zero =>
    intro run r' s scope _ _ _ _ _ _
    exact .exhausted
  | succ depth ih =>
    intro run r' s scope h hd hs hc hscope hle
    refine followRule_mirrors ih hkey h hd hs hc hscope hle fun hnew => ?_
    have hevaluation : EvaluationMirrors (Told.watched r) S run.calls r' s
        ((S.grammar.rule r').body.follow (S.grammar.followCall depth)) (scope.movedTo s.remaining)
        _ := evaluation_mirrors ih hd r' s (scope.position_movedTo s.remaining) hnew
    rw [Scope.evaluateWatched]
    split
    · next hreported =>
      obtain ⟨rfl, hasked⟩ := hreported
      intro run₁ run₂ call s' σ hb hcalls₁ h₂ hcalls₂ hcovers hfresh
      refine .tell (fun run₃ hrecords => ?_) (fun c _ hnone => nomatch hnone)
        (hevaluation hb hcalls₁ h₂ hcalls₂ hcovers hfresh)
      have hcalled : CalledInside run₂.calls run₃.moments r' s.remaining :=
        hrecords.tells _ _ (Scope.mem_asked_evaluate _ hasked)
      have hopen : call.opened r' ∈ run₂.calls := hcalls₂ ▸ List.mem_cons_self
      exact hcalled.reenters hopen rfl hb.position_eq
    · exact @hevaluation

/-- Without the guard, calls read what is read of them with it as long as no re-entry is
reported. -/
theorem watchCall_agreesOn (depth : Nat) {scope scope' : Scope (Option ρ)}
    (hsame : scope.SameBut scope' r) (r' : ρ) (s : Point) :
    AgreesOn (scope.Spares r) (g.watchCall r depth scope r' s)
      ((g.unguarded r).readCall some depth scope' r' s) := by
  induction depth generalizing scope scope' r' s with
  | zero => exact .refl _
  | succ depth ih =>
    rw [watchCall, readCall]
    unfold readRule
    refine .ask fun hspared => ?_
    have hmoved := hsame.movedTo s.remaining
    have hinner : ∀ a, scope.Spares r a → (scope.movedTo s.remaining).Spares r a :=
      fun a ha => ha.movedTo s.remaining
    by_cases hr : r' = r
    · subst hr
      rw [rule_unguarded_self]
      dsimp only
      cases hguard : (g.rule r').guard with
      | none => exact .mono (Parser.read_agreesOn (ih hmoved) _ s) hinner
      | some guard =>
        -- The rule is in no scope where it may be asked for, and is evaluated once there.
        have hnew : (scope.movedTo s.remaining).best (some r') = none :=
          (hinner _ hspared).2 (congrArg _ (scope.position_movedTo _).symm)
        dsimp only
        rw [hnew]
        intro hallowed
        obtain ⟨hnot, honce⟩ := Scope.evaluateWatched_self fun p hp => (hallowed _ hp).1 rfl
        rw [honce] at hallowed ⊢
        refine Parser.read_agreesOn (ih (hmoved.add_self none)) _ s fun a ha => ?_
        refine ⟨(hallowed a ha).1, fun heq => absurd ha ?_⟩
        rw [heq, Scope.position_add, Scope.position_movedTo]
        exact hnot
    · rw [rule_unguarded_of_ne hr]
      cases (g.rule r').guard with
      | none => exact .mono (Parser.read_agreesOn (ih hmoved) _ s) hinner
      | some guard =>
        dsimp only
        rw [hmoved.best_eq (some r') fun hsome => hr (Option.some.inj hsome)]
        cases (scope.movedTo s.remaining).best (some r') with
        | some best => exact .refl _
        | none =>
          dsimp only
          rw [Scope.evaluateWatched_of_ne hr]
          refine Scope.evaluate_agreesOn _ fun best => ?_
          exact .mono (Parser.read_agreesOn (ih (hmoved.add (some r') best)) _ s)
            fun a ha => (hinner a ha).add hr best

/-- Applies a parser at a point where no rule is unfinished, and reports re-entries. -/
def watch (g : Grammar ρ) (watched : ρ) (depth : Nat) (parser : Parser ρ) (s : Point) :
    Account (Option ρ) (Option Found) :=
  parser.read (g.watchCall watched depth (.empty s.remaining)) s

/-- A parser is read without the guard as it is with it if no re-entry is reported. -/
theorem read_eq_watch {depth : Nat} {parser : Parser ρ} {s : Point}
    (h : ∀ position, (none, position) ∉ (g.watch r depth parser s).asked) :
    (g.unguarded r).read some depth parser s = g.watch r depth parser s := by
  refine Parser.read_agreesOn (watchCall_agreesOn depth (.refl _ r)) parser s fun a ha => ?_
  refine ⟨fun hnone => h a.2 ?_, fun _ => rfl⟩
  rw [← hnone]
  exact ha

end Grammar

end SeedGrowth
