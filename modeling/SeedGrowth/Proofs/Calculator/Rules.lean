import SeedGrowth.Proofs.Calculator.Tree
import SeedGrowth.Proofs.Scope.Growth

/-!
# The rules of the calculator by scopes

Evaluated in their scopes, the rules for expressions and terms read what the loops over
sums and products read, and factors what they are by cases on the sign ahead. The rounds in
which results grow are those of the loops: where the rule has a result, its body goes on by
the operation ahead, and where there is none, or its operand does not match, it falls back
on its first operand.
-/
namespace SeedGrowth

variable {ρ κ : Type}

namespace Parser

variable {call : ρ → Point → Account κ (Option Found)} {s : Point}

/-- A token is what it is behind the blanks. -/
theorem outcome_token (parser : Parser ρ) :
    ((token parser).read call s).outcome = (parser.read call s.skipBlanks).outcome := by
  have hblanks : ((blanks : Parser ρ).read call s).outcome =
      .ok (some (s.next (Scanner.run Text.isBlank s.fragment))) := rfl
  have hrest : (s.next (Scanner.run Text.isBlank s.fragment)).rest = s.skipBlanks := rfl
  simp only [token, preceded, outcome_mapped, outcome_sequence, outcome_readAll_cons, hblanks,
    hrest, ok_bind]
  cases (parser.read call s.skipBlanks).outcome with
  | error stop => rfl
  | ok result => cases result <;> rfl

theorem isPrefixOf_singleton (c : Char) (text : List Char) :
    [c].isPrefixOf text = decide (text.head? = some c) := by
  cases text with
  | nil => rfl
  | cons c' text =>
    by_cases h : c = c'
    · simp [List.isPrefixOf, h]
    · simp [List.isPrefixOf, h, Ne.symm h]

/-- A sign is read where it is ahead. -/
theorem outcome_token_char (c : Char) :
    ((token (char c)).read call s).outcome =
      .ok ((s.past? c).map fun rest => ⟨rest, .text (String.ofList [c])⟩) := by
  rw [outcome_token, char, read, Point.past?, isPrefixOf_singleton]
  by_cases h : s.skipBlanks.fragment.head? = some c
  · have htake : s.skipBlanks.fragment.take 1 = [c] := by
      obtain ⟨rest, hrest⟩ := List.head?_eq_some_iff.1 h
      rw [hrest]
      rfl
    simp [h, Point.next, Point.advance, htake]
  · simp [h]

end Parser

namespace Scanner

theorem numeral_eq_none {c : Char} {text : List Char} (hc : Text.isAsciiDigit c = false)
    (h : text.head? = some c) : numeral.scan text = none := by
  obtain ⟨rest, rfl⟩ := List.head?_eq_some_iff.1 h
  simp [numeral, run, hc]

end Scanner

namespace Calculator

open SeedGrowth.Parser

/-- What the loops find, as the evaluation by scopes does. -/
def Partial.found (p : Partial Value) : Found := ⟨p.2, p.1⟩

/-- How the loops end, as the evaluation by scopes does. -/
def asFound (result : Except Fault (Option (Partial Value))) : Except Stop (Option Found) :=
  (result.map (Option.map Partial.found)).mapError .fault

@[simp] theorem asFound_error (fault : Fault) :
    asFound (.error fault) = .error (.fault fault) := rfl

@[simp] theorem asFound_none : asFound (.ok none) = .ok none := rfl

@[simp] theorem asFound_some (p : Partial Value) :
    asFound (.ok (some p)) = .ok (some p.found) := rfl

theorem asFound_ends (result : Except Fault (Option (Partial Value))) :
    asFound result ≠ .error .exhausted := by
  cases result <;> simp [asFound, Except.map, Except.mapError]

/-- The body of a rule for operations: the rule, a sign and an operand, or an operand. -/
def ranked (r o : Name) (ops : List Operation) : List (Parser Name) :=
  ops.map (fun op => binary (ref r) (char op.sign) (ref o) op) ++ [ref o]

theorem body_expr : body .expr = alt (ranked .expr .term sums) := rfl

theorem body_term : body .term = alt (ranked .term .factor products) := rfl

section

variable {call : Name → Point → Account Name (Option Found)} {r o : Name} {s : Point}
  {ops : List Operation} {operand : Point → Except Fault (Option (Partial Value))}

/-- A branch in which the rule has a result goes on from there. -/
theorem outcome_binary {p : Partial Value} (hr : (call r s).outcome = .ok (some p.found))
    (op : Operation) :
    ((binary (ref r) (char op.sign) (ref o) op).read call s).outcome =
      match p.2.past? op.sign with
      | none => .ok none
      | some inner => (call o inner).outcome >>= fun
          | none => .ok none
          | some t =>
            (op.apply p.1 t.value).mapError .fault >>= fun v => .ok (some ⟨t.rest, v⟩) := by
  simp only [binary, outcome_mapped, outcome_sequence, outcome_readAll_cons, outcome_ref, hr,
    ok_bind, outcome_token_char, Partial.found]
  cases p.2.past? op.sign with
  | none => rfl
  | some inner =>
    dsimp only [Option.map_some]
    cases (call o inner).outcome with
    | error stop => rfl
    | ok result => cases result <;> rfl

/-- Where the rule fails, its body comes out as the operand does. -/
theorem outcome_ranked_failed (hr : (call r s).outcome = .ok none) :
    (readFirst call (ranked r o ops) s).outcome = (call o s).outcome := by
  induction ops with
  | nil => exact outcome_readFirst_single _
  | cons op ops ih =>
    have hbranch : ((binary (ref r) (char op.sign) (ref o) op).read call s).outcome = .ok none := by
      simp only [binary, outcome_mapped, outcome_sequence, outcome_readAll_cons, outcome_ref, hr,
        ok_bind, Option.map_none]
    rw [← ih]
    change (readFirst call (_ :: ranked r o ops) s).outcome = _
    rw [outcome_readFirst_cons, hbranch]
    rfl

/-- Where the rule has a result, its body goes on by one more operation, or else comes out
as the operand does. -/
theorem outcome_ranked_found {p : Partial Value} (hr : (call r s).outcome = .ok (some p.found))
    (hoperand : ∀ inner, inner.remaining < p.2.remaining →
      (call o inner).outcome = asFound (operand inner)) (hops : ops.Nodup) :
    (readFirst call (ranked r o ops) s).outcome =
      asFound (Meaning.values.further ops operand p) >>= fun
        | none => (call o s).outcome
        | some m => .ok (some m) := by
  induction ops with
  | nil => exact outcome_readFirst_single _
  | cons op ops ih =>
    obtain ⟨hop, hops⟩ := List.nodup_cons.1 hops
    have ih := ih hops
    change (readFirst call (_ :: ranked r o ops) s).outcome = _
    rw [outcome_readFirst_cons, outcome_binary hr]
    cases hpast : p.2.past? op.sign with
    | none =>
      have hahead : operationAhead (op :: ops) p.2 = operationAhead ops p.2 := by
        simp [operationAhead, hpast]
      rw [Meaning.further, hahead]
      exact ih
    | some inner =>
      have hahead : operationAhead (op :: ops) p.2 = some (op, inner) := by
        simp [operationAhead, hpast]
      have hothers : operationAhead ops p.2 = none := by
        refine List.findSome?_eq_none_iff.2 fun op' hop' => ?_
        rw [Point.past?_eq_none hpast fun h => hop (Operation.sign_injective h ▸ hop')]
        rfl
      rw [Meaning.further, hothers] at ih
      rw [Meaning.further, hahead]
      dsimp only
      rw [hoperand inner (Point.remaining_past? hpast)]
      cases operand inner with
      | error fault => rfl
      | ok result =>
        cases result with
        | none => exact ih
        | some t =>
          change ((op.apply p.1 t.1).mapError Stop.fault >>= _) >>= _ =
            asFound (op.apply p.1 t.1 >>= _) >>= _
          cases op.apply p.1 t.1 <;> rfl

end

section

variable {ops : List Operation} {operand : Point → Except Fault (Option (Partial Value))}

/-- As a loop goes on, so do the results that grow. -/
theorem climb_eq_chain {o : Name} (hoperand : Meaning.values.AllRead o operand) (rounds : Nat)
    {p : Partial Value} (hp : p.2.remaining ≤ rounds) :
    Scope.climb (fun m => asFound (Meaning.values.further ops operand (m.value, m.rest)))
        (rounds + 1) p.found =
      ((Meaning.values.chain ops operand rounds p).map Partial.found).mapError .fault := by
  induction rounds generalizing p with
  | zero =>
    have hfurther : Meaning.values.further ops operand p = .ok none :=
      Meaning.further_eq_none (Meaning.operationAhead_of_remaining_eq_zero (Nat.le_zero.1 hp))
    rw [Scope.climb, Meaning.chain]
    change asFound (Meaning.values.further ops operand p) >>= _ = _
    rw [hfurther]
    rfl
  | succ rounds ih =>
    rw [Scope.climb, Meaning.chain]
    change asFound (Meaning.values.further ops operand p) >>= _ = _
    cases hfurther : Meaning.values.further ops operand p with
    | error fault => rfl
    | ok result =>
      cases result with
      | none => rfl
      | some p' =>
        have hlt := Meaning.further_remaining_lt hoperand hfurther
        change (if p'.2.remaining < p.2.remaining then _ else _) = _
        rw [if_pos hlt]
        exact ih (by omega)

theorem climbFrom_eq_grouped {o : Name} (hoperand : Meaning.values.AllRead o operand) (s : Point) :
    Scope.climbFrom s.remaining (asFound (operand s))
        (fun m => asFound (Meaning.values.further ops operand (m.value, m.rest))) =
      asFound (Meaning.values.grouped ops operand s) := by
  rw [Scope.climbFrom, Meaning.grouped]
  cases hfirst : operand s with
  | error fault => rfl
  | ok result =>
    cases result with
    | none => rfl
    | some p =>
      have hlt : p.2.remaining < s.remaining := (hoperand _ _ hfirst).remaining_lt
      change (if p.2.remaining < s.remaining then some <$> Scope.climb _ (p.2.remaining + 1) p.found
        else pure none) = _
      rw [if_pos hlt, climb_eq_chain hoperand _ le_rfl]
      change _ = asFound (Meaning.values.chain ops operand p.2.remaining p >>= _)
      cases Meaning.values.chain ops operand p.2.remaining p <;> rfl

/-- A rule for operations is read in its scope as the loop over them. -/
theorem readCall_ranked {r o : Name} (hbody : body r = alt (ranked r o ops))
    (hguard : (guardName r).isSome = true) (hops : ops.Nodup) (hne : ops ≠ []) {depth : Nat}
    {scope : Scope Name} {s : Point} (hfree : (scope.movedTo s.remaining).best r = none)
    (hcalls : ∀ best inner, inner.Ahead s →
      (grammar.readCall id (depth + 1) ((scope.movedTo s.remaining).add r best) o inner).outcome =
        asFound (operand inner))
    (hoperand : Meaning.values.AllRead o operand) :
    (grammar.readCall id (depth + 2) scope r s).outcome =
      asFound (Meaning.values.grouped ops operand s) := by
  have hguarded : (grammar.rule r).guard.isSome = true := by
    rw [← hguard]
    exact Option.isSome_map
  have hcall : ∀ best,
      grammar.readCall id (depth + 1) ((scope.movedTo s.remaining).add r best) r s =
      ⟨.ok best, [(r, s.remaining)]⟩ :=
    fun best => Grammar.readCall_inScope (scope.position_movedTo _) (if_pos rfl) hguarded
  have hread : ∀ best, (grammar.rule r).body.read
      (grammar.readCall id (depth + 1) ((scope.movedTo s.remaining).add r best)) s =
      readFirst (grammar.readCall id (depth + 1) ((scope.movedTo s.remaining).add r best))
        (ranked r o ops) s := by
    intro best
    change (body r).read _ s = _
    rw [hbody]
    rfl
  rw [Grammar.readCall_outcome hguarded hfree, ← climbFrom_eq_grouped hoperand]
  refine Scope.evaluate_outcome ?_ ?_ ?_
  · rw [id, hread, outcome_ranked_failed (by rw [hcall])]
    exact hcalls none s (.refl s)
  · -- the first branch begins with the rule
    obtain ⟨op, ops, rfl⟩ := List.exists_cons_of_ne_nil hne
    rw [id, hread]
    have hself : (r, s.remaining) ∈ ((ref r : Parser Name).read
        (grammar.readCall id (depth + 1) ((scope.movedTo s.remaining).add r none)) s).asked := by
      rw [Parser.read, hcall]
      exact List.mem_singleton_self _
    refine Account.mem_asked_bind ?_ _
    refine Account.mem_asked_bind ?_ _
    refine Account.mem_asked_bind ?_ _
    exact Account.mem_asked_bind hself _
  · intro f m hf hm hle
    refine ⟨some f, .some hle, ?_⟩
    rw [id, hread, outcome_ranked_found (p := (m.value, m.rest)) (by rw [hcall]; rfl)
      (fun inner hinner => hcalls (some m) inner (.inr (hinner.trans hm))) hops]
    refine congrArg _ (funext fun result => ?_)
    cases result with
    | none => exact (hcalls (some m) s (.refl s)).trans hf
    | some m' => rfl

end

section

variable {call : Name → Point → Account Name (Option Found)} {s : Point}

theorem outcome_number :
    (number.read call s).outcome = asFound (Meaning.values.numeral s) := by
  rw [number, outcome_token, outcome_mapped, Meaning.numeral, Parser.read]
  cases Scanner.numeral.scan s.skipBlanks.fragment with
  | none => rfl
  | some count =>
    change (readNumeral (.text _)).mapError Stop.fault >>= _ = asFound (readNumeral (.text _) >>= _)
    cases readNumeral (.text (String.ofList (s.skipBlanks.fragment.take count))) <;> rfl

theorem outcome_number_none {c : Char} {inner : Point} (hc : Text.isAsciiDigit c = false)
    (h : s.past? c = some inner) : (number.read call s).outcome = .ok none := by
  rw [outcome_number, Meaning.numeral,
    Scanner.numeral_eq_none hc (Point.head?_of_past? h)]
  rfl

/-- The opposite of a factor is read where a minus sign is ahead. -/
theorem outcome_opposite {size : Nat}
    (hfactor : ∀ inner, inner.remaining < s.remaining →
      (call .factor inner).outcome = asFound (Meaning.values.factor size inner)) :
    ((mapped (preceded (token (char '-')) (ref .factor)) Value.negate).read call s).outcome =
      match s.past? '-' with
      | none => .ok none
      | some inner => asFound (Meaning.values.opposed (Meaning.values.factor size) inner) := by
  simp only [preceded, outcome_mapped, outcome_sequence, outcome_readAll_cons,
    outcome_readAll_nil, outcome_ref, outcome_token_char, ok_bind]
  cases hpast : s.past? '-' with
  | none => rfl
  | some inner =>
    dsimp only [Option.map_some]
    rw [hfactor inner (Point.remaining_past? hpast), Meaning.opposed]
    cases Meaning.values.factor size inner with
    | error fault => rfl
    | ok result =>
      cases result with
      | none => rfl
      | some t =>
        change (Value.negate t.1).mapError Stop.fault >>= _ = asFound (Value.negate t.1 >>= _)
        cases Value.negate t.1 <;> rfl

/-- An expression in brackets is read where an opening bracket is ahead. -/
theorem outcome_brackets {size : Nat}
    (hexpr : ∀ inner, inner.remaining < s.remaining →
      (call .expr inner).outcome = asFound (Meaning.values.expression size inner)) :
    ((delimited (token (char '(')) (ref .expr) (token (char ')'))).read call s).outcome =
      match s.past? '(' with
      | none => .ok none
      | some inner => asFound (Meaning.values.enclosed (Meaning.values.expression size) inner) := by
  simp only [delimited, outcome_mapped, outcome_sequence, outcome_readAll_cons,
    outcome_readAll_nil, outcome_ref, outcome_token_char, ok_bind]
  cases hpast : s.past? '(' with
  | none => rfl
  | some inner =>
    dsimp only [Option.map_some]
    rw [hexpr inner (Point.remaining_past? hpast), Meaning.enclosed]
    cases Meaning.values.expression size inner with
    | error fault => rfl
    | ok result =>
      cases result with
      | none => rfl
      | some t =>
        change _ = asFound (.ok ((t.2.past? ')').map fun rest => (t.1, rest)))
        dsimp only [asFound_some, ok_bind, Partial.found]
        cases t.2.past? ')' <;> rfl

/-- A factor is read by cases on the sign ahead, if what is nested in it is. -/
theorem outcome_factor {size : Nat}
    (hfactor : ∀ inner, inner.remaining < s.remaining →
      (call .factor inner).outcome = asFound (Meaning.values.factor size inner))
    (hexpr : ∀ inner, inner.remaining < s.remaining →
      (call .expr inner).outcome = asFound (Meaning.values.expression size inner)) :
    ((body .factor).read call s).outcome = asFound (Meaning.values.factor (size + 1) s) := by
  change (readFirst call [mapped (preceded (token (char '-')) (ref .factor)) Value.negate,
    delimited (token (char '(')) (ref .expr) (token (char ')')), number] s).outcome = _
  rw [outcome_readFirst_cons, outcome_readFirst_cons, outcome_readFirst_single,
    outcome_opposite hfactor, outcome_brackets hexpr, Meaning.factor_succ]
  cases hminus : s.past? '-' with
  | some inner =>
    have hopen := Point.past?_eq_none hminus (show '(' ≠ '-' by decide)
    rw [hopen, outcome_number_none (by decide) hminus]
    dsimp only
    cases asFound (Meaning.values.opposed (Meaning.values.factor size) inner) with
    | error stop => rfl
    | ok result => cases result <;> rfl
  | none =>
    cases hopen : s.past? '(' with
    | none => exact outcome_number
    | some inner =>
      rw [outcome_number_none (by decide) hopen]
      dsimp only [ok_bind]
      cases asFound (Meaning.values.enclosed (Meaning.values.expression size) inner) with
      | error stop => rfl
      | ok result => cases result <;> rfl

end

/-- With depth enough, the rules are read in any scope where they are not yet evaluated as
the loops say. -/
theorem readCall_eq_loops (s : Point) {size : Nat} (hsize : s.remaining < size)
    (scope : Scope Name) (depth : Nat) :
    (3 * s.remaining + 1 ≤ depth →
      (grammar.readCall id depth scope .factor s).outcome =
        asFound (Meaning.values.factor size s)) ∧
    (3 * s.remaining + 2 ≤ depth → (scope.movedTo s.remaining).best .term = none →
      (grammar.readCall id depth scope .term s).outcome =
        asFound (Meaning.values.term size s)) ∧
    (3 * s.remaining + 3 ≤ depth → (scope.movedTo s.remaining).best .term = none →
      (scope.movedTo s.remaining).best .expr = none →
      (grammar.readCall id depth scope .expr s).outcome =
        asFound (Meaning.values.expression size s)) := by
  obtain ⟨n, hn⟩ : ∃ n, s.remaining = n := ⟨_, rfl⟩
  induction n using Nat.strong_induction_on generalizing s size scope depth with
  | _ n ih =>
    -- Further on, every scope is left behind.
    have hfree : ∀ (scope : Scope Name) (inner : Point) r, inner.remaining < s.remaining →
        ((scope.movedTo s.remaining).movedTo inner.remaining).best r = none := by
      intro scope inner r hinner
      rw [Scope.movedTo_of_lt (by simpa using hinner)]
      rfl
    have hfactor : ∀ {size}, s.remaining < size → ∀ (scope : Scope Name) depth,
        3 * s.remaining + 1 ≤ depth →
        (grammar.readCall id depth scope .factor s).outcome =
          asFound (Meaning.values.factor size s) := by
      intro size hsize scope depth hdepth
      obtain ⟨depth, rfl⟩ := Nat.exists_eq_add_of_le' (show 1 ≤ depth by omega)
      obtain ⟨size, rfl⟩ := Nat.exists_eq_add_of_le' (show 1 ≤ size by omega)
      rw [Grammar.readCall_plain rfl]
      refine outcome_factor ?_ ?_
      · intro inner hinner
        exact (ih _ (hn ▸ hinner) inner (by omega) _ depth rfl).1 (by omega)
      · intro inner hinner
        exact (ih _ (hn ▸ hinner) inner (by omega) _ depth rfl).2.2 (by omega)
          (hfree scope inner _ hinner) (hfree scope inner _ hinner)
    have hterm : ∀ {size}, s.remaining < size → ∀ (scope : Scope Name) depth,
        3 * s.remaining + 2 ≤ depth → (scope.movedTo s.remaining).best .term = none →
        (grammar.readCall id depth scope .term s).outcome =
          asFound (Meaning.values.term size s) := by
      intro size hsize scope depth hdepth hbest
      obtain ⟨depth, rfl⟩ := Nat.exists_eq_add_of_le' (show 2 ≤ depth by omega)
      refine readCall_ranked body_term rfl (by decide) (by decide) hbest ?_
        (Meaning.factor_reads size)
      rintro best inner (rfl | hinner)
      · exact hfactor hsize _ _ (by omega)
      · exact (ih _ (hn ▸ hinner) inner (by omega) _ _ rfl).1 (by omega)
    refine ⟨hfactor hsize scope depth, hterm hsize scope depth, fun hdepth hterms hexprs => ?_⟩
    obtain ⟨depth, rfl⟩ := Nat.exists_eq_add_of_le' (show 2 ≤ depth by omega)
    refine readCall_ranked body_expr rfl (by decide) (by decide) hexprs ?_
      (Meaning.term_reads size)
    rintro best inner (rfl | hinner)
    · refine hterm hsize _ _ (by omega) ?_
      rw [Scope.movedTo_self (by simp)]
      rw [Scope.best_add_of_ne (by decide)]
      exact hterms
    · refine (ih _ (hn ▸ hinner) inner (by omega) _ _ rfl).2.1 (by omega) ?_
      rw [Scope.movedTo_of_lt (by simpa using hinner)]
      rfl

end Calculator

end SeedGrowth
