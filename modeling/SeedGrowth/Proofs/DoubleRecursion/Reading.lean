import SeedGrowth.Proofs.LeftRecursion.Application

/-!
# What a doubly recursive rule reads

A rule that stands on both sides of a sign begins with its operand, as it fails where it
calls itself first. In the next round it goes on from there by the sign and by itself, read
further on, where it does not stop before there is no sign and nothing behind it any more.
So there is nothing to go on by in a third round, and the rule reads what is grouped to the
right.
-/
namespace SeedGrowth

open LeftRule (reading)

variable {ρ : Type}

/-- An operand, the sign between two of them, and what is made of both and the sign. -/
structure DoubleRule (ρ : Type) where
  operand : Parser ρ
  sign : Parser ρ
  change : Value → Except Fault Value

namespace DoubleRule

/-- The branch in which the rule calls itself twice. -/
def branch (d : DoubleRule ρ) (r : ρ) : Parser ρ :=
  .mapped (.sequence [.ref r, d.sign, .ref r]) d.change

/-- The body of the rule. -/
def body (d : DoubleRule ρ) (r : ρ) : Parser ρ := .alt [d.branch r, d.operand]

/-- A guarded rule of the grammar has this form. -/
structure Forms (d : DoubleRule ρ) (g : Grammar ρ) (r : ρ) : Prop where
  body_eq : (g.rule r).body = d.body r
  guarded : (g.rule r).guard.isSome = true

/-- Goes on from a match by the sign and by what follows it. -/
def goOn (d : DoubleRule ρ) (g : Grammar ρ) (right : Cursor → Eval (Option Match)) (m : Match) :
    Eval (Option Match) := do
  match ← g.apply d.sign m.rest with
  | none => return none
  | some sign =>
    match ← right sign.rest with
    | none => return none
    | some t =>
      return some ⟨t.rest, ← Eval.lift (d.change (.tuple [m.value, sign.value, t.value]))⟩

/-- The operand, which has to take up text, and if a sign and the same again follow one after
the other, all of this together. -/
def rightward (d : DoubleRule ρ) (g : Grammar ρ) : Nat → Cursor → Eval (Option Match)
  | 0, _ => throw .exhausted
  | rounds + 1, s => do
    match ← g.apply d.operand s with
    | none => return none
    | some m =>
      if m.rest.remaining < s.remaining then do
        match ← d.goOn g (rightward d g rounds) m with
        | none => return some m
        | some whole => return some whole
      else return none

variable [DecidableEq ρ]

/-- `goOn`, read by scopes. -/
def readOn (d : DoubleRule ρ) (g : Grammar ρ) (right : Point → Except Stop (Option Found))
    (m : Found) : Except Stop (Option Found) := do
  match ← reading g d.sign m.rest with
  | none => return none
  | some sign =>
    match ← right sign.rest with
    | none => return none
    | some t =>
      return some ⟨t.rest, ← (d.change (.tuple [m.value, sign.value, t.value])).mapError .fault⟩

/-- One step of `rightward`, read by scopes. -/
def readStep (d : DoubleRule ρ) (g : Grammar ρ) (right : Point → Except Stop (Option Found))
    (s : Point) : Except Stop (Option Found) := do
  match ← reading g d.operand s with
  | none => return none
  | some m =>
    if m.rest.remaining < s.remaining then do
      match ← d.readOn g right m with
      | none => return some m
      | some whole => return some whole
    else return none

/-- `rightward`, read by scopes. -/
def readRightward (d : DoubleRule ρ) (g : Grammar ρ) : Nat → Point → Except Stop (Option Found)
  | 0, _ => throw .exhausted
  | rounds + 1, s => d.readStep g (readRightward d g rounds) s

variable {d : DoubleRule ρ} {g : Grammar ρ} {r : ρ} {s : Point} {m whole : Found}
  {right right' : Point → Except Stop (Option Found)}

/-- Going on by a sign and what follows it ends where that ends. -/
theorem exists_of_readOn (h : d.readOn g right m = .ok (some whole)) :
    ∃ sign t, reading g d.sign m.rest = .ok (some sign) ∧ right sign.rest = .ok (some t) ∧
      whole.rest = t.rest := by
  obtain ⟨sign?, hsign, h⟩ := bind_eq_ok.1 h
  cases sign? with
  | none => cases h
  | some sign =>
    obtain ⟨t?, ht, h⟩ := bind_eq_ok.1 h
    cases t? with
    | none => cases h
    | some t =>
      obtain ⟨value, -, h⟩ := bind_eq_ok.1 h
      cases h
      exact ⟨sign, t, hsign, ht, rfl⟩

/-- Whether a sign and something behind it follow does not depend on the value before. -/
theorem readOn_eq_none_congr {m' : Found} (hrest : m'.rest = m.rest)
    (h : d.readOn g right m = .ok none) : d.readOn g right m' = .ok none := by
  obtain ⟨sign?, hsign, h⟩ := bind_eq_ok.1 h
  rw [readOn, hrest, hsign]
  cases sign? with
  | none => rfl
  | some sign =>
    obtain ⟨t?, ht, h⟩ := bind_eq_ok.1 h
    cases t? with
    | none =>
      rw [ok_bind]
      dsimp only
      rw [ht]
      rfl
    | some t =>
      obtain ⟨value, -, h⟩ := bind_eq_ok.1 h
      cases h

/-- What follows a sign begins there or further on. -/
theorem readOn_congr (h : ∀ p, p.remaining ≤ m.rest.remaining → right p = right' p) :
    d.readOn g right m = d.readOn g right' m := by
  rw [readOn, readOn]
  cases hsign : reading g d.sign m.rest with
  | error stop => rfl
  | ok result =>
    cases result with
    | none => rfl
    | some sign =>
      rw [ok_bind, ok_bind]
      dsimp only
      rw [h sign.rest (LeftRule.reading_ahead hsign).le]

section

variable {depth : Nat} (hr : d.Forms g r) (hdepth : g.callBound s.remaining ≤ depth + 1)

include hr

/-- In its own body the rule comes out as its best result. -/
theorem readCall_self (depth : Nat) (s : Point) (best : Option Found) :
    g.readCall g.namesake (depth + 1) ((Scope.empty s.remaining).add (g.namesake r) best) r s =
      ⟨.ok best, [(g.namesake r, s.remaining)]⟩ :=
  Grammar.readCall_inScope rfl (if_pos rfl) hr.guarded

/-- The body asks for the rule. -/
theorem mem_asked_readBody (best : Option Found) :
    (g.namesake r, s.remaining) ∈ (g.readBody g.namesake (depth + 1) r s best).asked := by
  have hself := readCall_self hr depth s best
  rw [Grammar.readBody, hr.body_eq]
  change _ ∈ (Parser.readFirst _ [d.branch r, d.operand] s).asked
  refine Account.mem_asked_bind ?_ _
  refine Account.mem_asked_bind ?_ _
  refine Account.mem_asked_bind ?_ _
  refine Account.mem_asked_bind ?_ _
  rw [Parser.read, hself]
  exact List.mem_singleton_self _

include hdepth

/-- Where the rule fails, its body comes out as the operand does, if that does not ask for the
rule. -/
theorem readBody_none
    (hoperand : (g.namesake r, s.remaining) ∉ (g.read g.namesake (depth + 1) d.operand s).asked) :
    (g.readBody g.namesake (depth + 1) r s none).outcome = reading g d.operand s := by
  have hself := readCall_self hr depth s none
  have hbranch := Parser.read_branch_failed [d.sign, .ref r] d.change
    (congrArg Account.outcome hself)
  rw [Grammar.readBody, hr.body_eq]
  change (Parser.readFirst _ [d.branch r, d.operand] s).outcome = _
  rw [Parser.outcome_readFirst_cons, Parser.outcome_readFirst_single, branch, hbranch, ok_bind]
  dsimp only
  rw [Grammar.read_beside none hoperand, LeftRule.reading_eq hdepth]

/-- Where the rule has a result, its body goes on from there by the sign and by the rule, or
else comes out as the operand does. -/
theorem readBody_some (hm : m.rest.remaining < s.remaining)
    (hoperand : (g.namesake r, s.remaining) ∉ (g.read g.namesake (depth + 1) d.operand s).asked) :
    (g.readBody g.namesake (depth + 1) r s (some m)).outcome =
      (d.readOn g (reading g (.ref r)) m >>= fun
        | none => reading g d.operand s
        | some whole => .ok (some whole)) := by
  have hself := readCall_self hr depth s (some m)
  -- The sign and the rule behind it begin further on, where the scope is not looked at.
  have hfurther : ∀ (parser : Parser ρ) (p : Point), p.remaining ≤ m.rest.remaining →
      (parser.read (g.readCall g.namesake (depth + 1)
        ((Scope.empty s.remaining).add (g.namesake r) (some m))) p).outcome =
          reading g parser p := by
    intro parser p hp
    rw [← LeftRule.reading_eq ((g.callBound_le (hp.trans hm.le)).trans hdepth)]
    refine Grammar.read_further ((Scope.advancing_empty _).add _ ?_) (hp.trans_lt hm)
    rintro m' ⟨⟩
    exact hm
  have hbranch : ((d.branch r).read (g.readCall g.namesake (depth + 1)
      ((Scope.empty s.remaining).add (g.namesake r) (some m))) s).outcome =
        d.readOn g (reading g (.ref r)) m := by
    rw [branch, Parser.outcome_branch_found (congrArg Account.outcome hself),
      Parser.outcome_readAll_cons, hfurther _ _ le_rfl, readOn]
    cases hsign : reading g d.sign m.rest with
    | error stop => rfl
    | ok result =>
      cases result with
      | none => rfl
      | some sign =>
        rw [ok_bind, ok_bind]
        dsimp only
        rw [Parser.outcome_readAll_cons, hfurther _ _ (LeftRule.reading_ahead hsign).le]
        cases reading g (.ref r) sign.rest with
        | error stop => rfl
        | ok result => cases result <;> rfl
  rw [Grammar.readBody, hr.body_eq]
  change (Parser.readFirst _ [d.branch r, d.operand] s).outcome = _
  rw [Parser.outcome_readFirst_cons, Parser.outcome_readFirst_single,
    Grammar.read_beside (some m) hoperand, LeftRule.reading_eq hdepth]
  exact congrArg (· >>= _) hbranch

end

section

variable (hr : d.Forms g r) (hoperand : ∀ depth (p : Point),
  (g.namesake r, p.remaining) ∉ (g.read g.namesake depth d.operand p).asked)

include hr hoperand

/-- The rule is read as the loop that goes on by the sign and the rule. -/
theorem reading_eq_climbFrom (s : Point) :
    reading g (.ref r) s = Scope.climbFrom s.remaining (reading g d.operand s)
      (d.readOn g (reading g (.ref r))) := by
  have hdepth : g.callBound s.remaining ≤ g.callBound s.remaining + 1 := Nat.le_succ _
  rw [← LeftRule.reading_eq (hdepth.trans (Nat.le_succ _)), Grammar.read_ref_outcome hr.guarded]
  refine Scope.evaluate_outcome (readBody_none hr hdepth (hoperand _ s))
    (mem_asked_readBody hr none) fun first m hfirst hm hle => ?_
  refine ⟨some first, .some hle, ?_⟩
  rw [← hfirst]
  exact readBody_some hr hdepth hm (hoperand _ s)

/-- The rule takes up text, and behind its match there is nothing to go on by. -/
theorem reading_final (h : reading g (.ref r) s = .ok (some m)) :
    m.rest.remaining < s.remaining ∧ d.readOn g (reading g (.ref r)) m = .ok none := by
  have hclimb := reading_eq_climbFrom hr hoperand s
  rw [h] at hclimb
  obtain ⟨hlt, result, hnext, hlast⟩ := Scope.of_climbFrom_eq_some hclimb.symm
  refine ⟨hlt, ?_⟩
  cases result with
  | none => exact hnext
  | some whole =>
    -- What is behind the sign takes up text, so that it would end further on.
    obtain ⟨sign, t, hsign, ht, hrest⟩ := exists_of_readOn hnext
    have hle := (LeftRule.reading_ahead hsign).le
    have hclimb' := reading_eq_climbFrom hr hoperand sign.rest
    rw [ht] at hclimb'
    obtain ⟨hlt', -⟩ := Scope.of_climbFrom_eq_some hclimb'.symm
    have hback := hlast whole rfl
    rw [hrest] at hback
    omega

/-- After a sign and what follows it there is nothing to go on by. -/
theorem readOn_twice (h : d.readOn g (reading g (.ref r)) m = .ok (some whole)) :
    whole.rest.remaining < m.rest.remaining ∧
      d.readOn g (reading g (.ref r)) whole = .ok none := by
  obtain ⟨sign, t, hsign, ht, hrest⟩ := exists_of_readOn h
  obtain ⟨hlt, hnone⟩ := reading_final hr hoperand ht
  refine ⟨?_, readOn_eq_none_congr hrest hnone⟩
  rw [hrest]
  exact hlt.trans_le (LeftRule.reading_ahead hsign).le

/-- The rule is read in one step from what it reads further on. -/
theorem reading_eq_readStep (s : Point) :
    reading g (.ref r) s = d.readStep g (reading g (.ref r)) s := by
  rw [reading_eq_climbFrom hr hoperand, Scope.climbFrom, readStep]
  cases reading g d.operand s with
  | error stop => rfl
  | ok result =>
    cases result with
    | none => rfl
    | some m =>
      rw [ok_bind, ok_bind]
      dsimp only
      split
      · rw [Scope.climb]
        cases hnext : d.readOn g (reading g (.ref r)) m with
        | error stop => rfl
        | ok result =>
          cases result with
          | none => rfl
          | some whole =>
            obtain ⟨hlt, hnone⟩ := readOn_twice hr hoperand hnext
            obtain ⟨rounds, hrounds⟩ : ∃ rounds, m.rest.remaining = rounds + 1 :=
              Nat.exists_eq_add_one_of_ne_zero (by omega)
            rw [ok_bind, ok_bind]
            dsimp only
            rw [if_pos hlt, hrounds, Scope.climb, hnone]
            rfl
      · rfl

/-- The rule is read as what is grouped to the right. -/
theorem reading_eq_readRightward (rounds : Nat) {s : Point} (hlt : s.remaining < rounds) :
    reading g (.ref r) s = d.readRightward g rounds s := by
  induction rounds generalizing s with
  | zero => omega
  | succ rounds ih =>
    rw [reading_eq_readStep hr hoperand, readRightward, readStep, readStep]
    cases reading g d.operand s with
    | error stop => rfl
    | ok result =>
      cases result with
      | none => rfl
      | some m =>
        rw [ok_bind, ok_bind]
        dsimp only
        split
        · next hm => rw [readOn_congr fun p hp => ih (by omega)]
        · rfl

end

end DoubleRule

end SeedGrowth
