import SeedGrowth.Proofs.LeftRecursion.Loop
import SeedGrowth.Proofs.Scope.Asking

/-!
# What a left-recursive rule reads

Evaluated in its scope, a left-recursive rule fails wherever it calls itself first, so that
it begins with its base. From then on it gets its best result there and goes on by the
first tail that matches; where none does it begins with the base again, which is not
longer. So the rounds of its scope are those of the loop.
-/
namespace SeedGrowth

variable {ρ κ : Type}

namespace LeftRule

variable {call : ρ → Point → Account κ (Option Found)} {r : ρ} {s : Point} {m : Found}

/-- A branch in which the rule has a result goes on from there by the tail. -/
theorem read_branch_found {tail : Parser ρ} {change : Value → Except Fault Value}
    (hcall : (call r s).outcome = .ok (some m)) :
    ((Parser.mapped (.sequence [.ref r, tail]) change).read call s).outcome = do
      match ← (tail.read call m.rest).outcome with
      | none => return none
      | some t => return some ⟨t.rest, ← (change (.tuple [m.value, t.value])).mapError .fault⟩ := by
  rw [Parser.outcome_branch_found hcall, Parser.outcome_readAll_cons]
  cases (tail.read call m.rest).outcome with
  | error stop => rfl
  | ok result => cases result <;> rfl

/-- Where the rule fails, its body comes out as its base does. -/
theorem readFirst_failed (base : Parser ρ) (tails : List (Tail ρ))
    (hcall : (call r s).outcome = .ok none) :
    (Parser.readFirst call ((LeftRule.mk base tails).branches r ++ [base]) s).outcome =
      (base.read call s).outcome := by
  induction tails with
  | nil => exact Parser.outcome_readFirst_single base
  | cons tail tails ih =>
    rw [← ih]
    have hbranch := Parser.read_branch_failed [tail.1] tail.2 hcall
    change (Parser.readFirst call (_ :: _) s).outcome = _
    rw [Parser.readFirst, hbranch]
    rfl

/-- A rule with a tail calls itself first. -/
theorem mem_asked_readFirst (base : Parser ρ) {tails : List (Tail ρ)} {asked : List (κ × Nat)}
    {a : κ × Nat}
    (hcall : call r s = ⟨.ok none, asked⟩) (ha : a ∈ asked) (ht : tails ≠ []) :
    a ∈ (Parser.readFirst call ((LeftRule.mk base tails).branches r ++ [base]) s).asked := by
  cases tails with
  | nil => exact absurd rfl ht
  | cons tail tails =>
    have hbranch := Parser.read_branch_failed [tail.1] tail.2 (congrArg Account.outcome hcall)
    change a ∈ (Parser.readFirst call (_ :: _) s).asked
    rw [Parser.readFirst, hbranch, hcall]
    exact List.mem_append_left _ ha

variable [DecidableEq ρ] {g : Grammar ρ}

/-- Where the rule has a result, its body comes out as the first tail that matches behind
it does, or else as its base. -/
theorem readFirst_found (base : Parser ρ) (hcall : (call r s).outcome = .ok (some m)) :
    ∀ {tails : List (Tail ρ)}, (∀ tail ∈ tails,
        (tail.1.read call m.rest).outcome = reading g tail.1 m.rest) →
      (Parser.readFirst call ((LeftRule.mk base tails).branches r ++ [base]) s).outcome =
        (readTail g tails m >>= fun
          | none => (base.read call s).outcome
          | some m' => .ok (some m'))
  | [], _ => Parser.outcome_readFirst_single base
  | (tail, change) :: rest, hread => by
    change (Parser.readFirst call (_ :: _) s).outcome = _
    rw [readTail, Parser.readFirst, Account.outcome_bind, read_branch_found hcall,
      hread _ List.mem_cons_self]
    cases hreading : reading g tail m.rest with
    | error stop => rfl
    | ok result =>
      cases result with
      | none => exact readFirst_found base hcall fun t ht => hread t (List.mem_cons_of_mem _ ht)
      | some t =>
        change (((change (.tuple [m.value, t.value])).mapError Stop.fault >>=
          fun value => pure (some (⟨t.rest, value⟩ : Found))) >>= _ : Except Stop _) =
            (((change (.tuple [m.value, t.value])).mapError Stop.fault >>=
              fun value => pure (some (⟨t.rest, value⟩ : Found))) >>= _ : Except Stop _)
        cases change (.tuple [m.value, t.value]) <;> rfl

/-- Going on by tails is taking the next result that a tail gives. -/
theorem readTails_eq_climb (tails : List (Tail ρ)) (rounds : Nat) (m : Found) :
    readTails g tails rounds m = Scope.climb (readTail g tails) rounds m := by
  induction rounds generalizing m with
  | zero => rfl
  | succ rounds ih =>
    rw [readTails, Scope.climb]
    refine congrArg _ (funext fun result => ?_)
    cases result with
    | none => rfl
    | some m' => simp only [ih]

theorem readLoop_eq_climbFrom (l : LeftRule ρ) (s : Point) :
    l.readLoop g s = Scope.climbFrom s.remaining (reading g l.base s) (readTail g l.tails) := by
  rw [readLoop, Scope.climbFrom]
  refine congrArg _ (funext fun result => ?_)
  cases result with
  | none => rfl
  | some m => simp only [readTails_eq_climb]

/-- At any depth that is large enough a reading is the same. -/
theorem reading_eq {parser : Parser ρ} {depth : Nat} (hdepth : g.callBound s.remaining ≤ depth) :
    (g.read g.namesake depth parser s).outcome = reading g parser s :=
  Grammar.read_outcome_eq hdepth (g.callBound_le_nestingBound s.remaining)

/-- A rule is evaluated in its scope as the loop is read, if its base does not ask for it. -/
theorem readCall_eq_readLoop {l : LeftRule ρ} {depth : Nat} (hr : l.Forms g r)
    (hdepth : g.callBound s.remaining ≤ depth + 1)
    (hbase : (g.namesake r, s.remaining) ∉ (g.read g.namesake (depth + 1) l.base s).asked) :
    (g.readCall g.namesake (depth + 2) (.empty s.remaining) r s).outcome = l.readLoop g s := by
  let scope (best : Option Found) : Scope ρ := (Scope.empty s.remaining).add (g.namesake r) best
  let call (best : Option Found) := g.readCall g.namesake (depth + 1) (scope best)
  have hcall : ∀ best, call best r s = ⟨.ok best, [(g.namesake r, s.remaining)]⟩ :=
    fun best => Grammar.readCall_inScope rfl (if_pos rfl) hr.guarded
  -- The base does not ask for the rule here, so that its result does not matter to the base.
  have hbaseRead : ∀ best, (l.base.read (call best) s).outcome = reading g l.base s := by
    intro best
    rw [← reading_eq hdepth]
    exact congrArg _ (Grammar.read_beside best hbase)
  -- The tails begin further on, where the scope is not looked at.
  have hfurther : ∀ m : Found, m.rest.remaining < s.remaining → ∀ tail ∈ l.tails,
      (tail.1.read (call (some m)) m.rest).outcome = reading g tail.1 m.rest := by
    intro m hm tail _
    rw [← reading_eq ((g.callBound_le hm.le).trans hdepth)]
    refine Grammar.read_further ((Scope.advancing_empty _).add _ ?_) hm
    rintro m' ⟨⟩
    exact hm
  have hasked := mem_asked_readFirst l.base (hcall none) (List.mem_singleton_self _) hr.tails_ne_nil
  have hmoved : (Scope.empty s.remaining : Scope ρ).movedTo s.remaining = .empty s.remaining :=
    Scope.movedTo_self rfl
  rw [readLoop_eq_climbFrom, Grammar.readCall_outcome hr.guarded (by rw [hmoved]; rfl), hmoved,
    hr.body_eq]
  refine Scope.evaluate_outcome ?_ hasked ?_
  · rw [← hbaseRead]
    exact readFirst_failed l.base l.tails (congrArg Account.outcome (hcall none))
  · intro f m hf hm hle
    refine ⟨some f, .some hle, ?_⟩
    rw [← hf, ← hbaseRead]
    exact readFirst_found l.base (congrArg Account.outcome (hcall (some m))) (hfurther m hm)

end LeftRule

end SeedGrowth
