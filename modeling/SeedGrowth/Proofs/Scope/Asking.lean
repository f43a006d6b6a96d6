import SeedGrowth.Proofs.Scope.Growth

/-!
# What is not asked for does not matter

An evaluation by scopes that does not ask for some rules at some positions comes out the same
with other best results of theirs, and with other bodies, whether it ends or not. That is
said by one relation between accounts, with one lemma for each way to build them. Further on
than its position, a scope does not matter at all.
-/
namespace SeedGrowth

variable {ρ κ α β : Type}

namespace Account

/-- If all that the account asks for is allowed, the other account is the same. -/
def AgreesOn (allowed : κ × Nat → Prop) (x y : Account κ α) : Prop :=
  (∀ a ∈ x.asked, allowed a) → y = x

namespace AgreesOn

variable {allowed : κ × Nat → Prop}

theorem refl (x : Account κ α) : AgreesOn allowed x x := fun _ => rfl

theorem mono {allowed' : κ × Nat → Prop} {x y : Account κ α} (h : AgreesOn allowed' x y)
    (hle : ∀ a, allowed a → allowed' a) : AgreesOn allowed x y :=
  fun hallowed => h fun a ha => hle a (hallowed a ha)

theorem bind {x y : Account κ α} {f f' : α → Account κ β} (hx : AgreesOn allowed x y)
    (hf : ∀ a, AgreesOn allowed (f a) (f' a)) : AgreesOn allowed (x >>= f) (y >>= f') := by
  intro hallowed
  cases h : x.outcome with
  | ok a =>
    rw [bind_ok h] at hallowed ⊢
    obtain rfl := hx fun a ha => hallowed a (List.mem_append_left _ ha)
    have heq := hf a fun a ha => hallowed a (List.mem_append_right _ ha)
    rw [bind_ok h, heq]
  | error stop =>
    rw [bind_error h] at hallowed ⊢
    obtain rfl := hx hallowed
    rw [bind_error h]

/-- Where a call is not allowed, there is nothing to show. -/
theorem ask {key : κ} {position : Nat} {y y' : Account κ α}
    (h : allowed (key, position) → AgreesOn allowed y y') :
    AgreesOn allowed (Account.ask key position >>= fun _ => y)
      (Account.ask key position >>= fun _ => y') := by
  intro hallowed
  obtain rfl := h (hallowed _ List.mem_cons_self) fun a ha => hallowed a (List.mem_cons_of_mem _ ha)
  rfl

theorem listen {x y : Account κ α} (h : AgreesOn allowed x y) :
    AgreesOn allowed x.listen y.listen := by
  intro hallowed
  obtain rfl := h hallowed
  rfl

end AgreesOn

/-- Accounts that come out the same if one of them ends come out the same. -/
theorem outcome_eq_of_ends {x y : Account κ α} (hx : x.Ends → x.outcome = y.outcome)
    (hy : y.Ends → x.outcome = y.outcome) : x.outcome = y.outcome := by
  by_cases h : x.Ends
  · exact hx h
  · by_cases h' : y.Ends
    · exact hy h'
    · exact (not_not.1 h).trans (not_not.1 h').symm

end Account

open Account (AgreesOn)

namespace Parser

variable {allowed : κ × Nat → Prop} {call call' : ρ → Point → Account κ (Option Found)}

theorem readRepeat_agreesOn {parser parser' : Point → Account κ (Option Found)}
    (h : ∀ s, AgreesOn allowed (parser s) (parser' s)) :
    ∀ (rounds : Nat) (s : Point),
      AgreesOn allowed (readRepeat parser rounds s) (readRepeat parser' rounds s) := by
  intro rounds
  induction rounds with
  | zero => exact fun _ => .refl _
  | succ rounds ih =>
    intro s
    rw [readRepeat, readRepeat]
    refine .bind (h s) fun result => ?_
    cases result with
    | none => exact .refl _
    | some m =>
      dsimp only
      split
      · exact .refl _
      · exact .bind (ih m.rest) fun _ => .refl _

mutual

/-- What a parser reads is the same if calls of rules read the same. -/
theorem read_agreesOn (h : ∀ r s, AgreesOn allowed (call r s) (call' r s)) :
    ∀ (parser : Parser ρ) (s : Point),
      AgreesOn allowed (parser.read call s) (parser.read call' s)
  | tag _, _ | scanner _, _ | eof, _ => .refl _
  | alt branches, s => readFirst_agreesOn h branches s
  | sequence items, s => .bind (readAll_agreesOn h items s) fun _ => .refl _
  | mapped parser change, s => by
    refine .bind (read_agreesOn h parser s) fun result => ?_
    cases result <;> exact .refl _
  | opt parser, s => by
    refine .bind (read_agreesOn h parser s) fun result => ?_
    cases result <;> exact .refl _
  | many parser, s => .bind (readRepeat_agreesOn (read_agreesOn h parser) _ s) fun _ => .refl _
  | ref rule, s => h rule s
  | peek _, _ | absent _, _ | .edit _, _ | reveal, _ | probe _, _ | watch _ _, _ => .refl _

theorem readFirst_agreesOn (h : ∀ r s, AgreesOn allowed (call r s) (call' r s)) :
    ∀ (branches : List (Parser ρ)) (s : Point),
      AgreesOn allowed (readFirst call branches s) (readFirst call' branches s)
  | [], _ => .refl _
  | parser :: rest, s => by
    refine .bind (read_agreesOn h parser s) fun result => ?_
    cases result with
    | none => exact readFirst_agreesOn h rest s
    | some m => exact .refl _

theorem readAll_agreesOn (h : ∀ r s, AgreesOn allowed (call r s) (call' r s)) :
    ∀ (items : List (Parser ρ)) (s : Point),
      AgreesOn allowed (readAll call items s) (readAll call' items s)
  | [], _ => .refl _
  | parser :: rest, s => by
    refine .bind (read_agreesOn h parser s) fun result => ?_
    cases result with
    | none => exact .refl _
    | some m => exact .bind (readAll_agreesOn h rest m.rest) fun _ => .refl _

end

end Parser

namespace Scope

variable {allowed : κ × Nat → Prop} {position : Nat}
  {body body' : Option Found → Account κ (Option Found)}

theorem grow_agreesOn (h : ∀ best, AgreesOn allowed (body best) (body' best)) :
    ∀ (rounds : Nat) (best result : Option Found),
      AgreesOn allowed (grow position body rounds best result)
        (grow position body' rounds best result) := by
  intro rounds
  induction rounds with
  | zero =>
    intro best result
    rw [grow, grow]
    exact .refl _
  | succ rounds ih =>
    intro best result
    rw [grow, grow]
    cases longer? position best result with
    | none => exact .refl _
    | some m => exact .bind (h (some m)) fun next => ih (some m) next

theorem evaluate_agreesOn [DecidableEq κ] (key : κ)
    (h : ∀ best, AgreesOn allowed (body best) (body' best)) :
    AgreesOn allowed (evaluate key position body) (evaluate key position body') := by
  refine .bind (.listen (h none)) fun (result, asked) => ?_
  dsimp only
  split
  · exact grow_agreesOn h _ none result
  · exact .refl _

end Scope

namespace Grammar

variable [DecidableEq κ] {allowed : κ × Nat → Prop} {key key' : ρ → κ} {g g' : Grammar ρ}

/-- What a call reads is the same in another grammar, with other keys and in another scope, as
long as the rules are the same that are allowed to be asked for, and their keys and best
results. -/
theorem readCall_agreesOn
    (hrules : ∀ r position, allowed (key r, position) → g'.rule r = g.rule r ∧ key' r = key r)
    (depth : Nat) {scope scope' : Scope κ}
    (hscope : ∀ position, (scope.movedTo position).ExtendedBy allowed (scope'.movedTo position))
    (r : ρ) (s : Point) :
    AgreesOn allowed (g.readCall key depth scope r s) (g'.readCall key' depth scope' r s) := by
  induction depth generalizing scope scope' r s with
  | zero => exact .refl _
  | succ depth ih =>
    rw [readCall, readCall]
    unfold readRule
    by_cases hask : allowed (key r, s.remaining)
    · obtain ⟨hrule, hkey⟩ := hrules r _ hask
      rw [hrule, hkey]
      refine .ask fun _ => ?_
      have hmoved := hscope s.remaining
      cases (g.rule r).guard with
      | none => exact Parser.read_agreesOn (ih hmoved.movedTo) _ s
      | some guard =>
        dsimp only
        rw [hmoved.best_eq (key r) (by rwa [Scope.position_movedTo])]
        cases (scope.movedTo s.remaining).best (key r) with
        | none =>
          exact Scope.evaluate_agreesOn _ fun best =>
            Parser.read_agreesOn (ih (hmoved.add (key r) best).movedTo) _ s
        | some best => exact .refl _
    · intro hallowed
      exact absurd (hallowed _ List.mem_cons_self) hask

variable {depth : Nat} {parser : Parser ρ} {s : Point}

/-- Rules that are not asked for may be in scope. -/
theorem read_inScope (allowed : κ × Nat → Prop) {scope : Scope κ}
    (hscope : ∀ k, allowed (k, scope.position) → scope.best k = none)
    (hasked : ∀ a ∈ (g.read key depth parser s).asked, allowed a) :
    parser.read (g.readCall key depth scope) s = g.read key depth parser s := by
  refine Parser.read_agreesOn (readCall_agreesOn (fun _ _ _ => ⟨rfl, rfl⟩) depth ?_) parser s hasked
  intro position
  rw [Scope.empty_movedTo]
  by_cases hp : scope.position = position
  · rw [Scope.movedTo_self hp]
    exact ⟨hp, fun k hk => hscope k (hp ▸ hk)⟩
  · rw [Scope.movedTo, if_neg hp]
    exact .refl _

/-- A rule that is not asked for at the point may be in scope there. -/
theorem read_beside {r : ρ} (best : Option Found)
    (hasked : (key r, s.remaining) ∉ (g.read key depth parser s).asked) :
    parser.read (g.readCall key depth ((Scope.empty s.remaining).add (key r) best)) s =
      g.read key depth parser s := by
  refine read_inScope (· ≠ (key r, s.remaining)) (fun k hk => ?_) fun a ha heq => hasked (heq ▸ ha)
  refine Scope.best_add_of_ne fun heq => hk ?_
  rw [heq]
  rfl

/-- Rules that are not asked for may be other ones, and have other keys. -/
theorem read_eq_of_rules (allowed : κ × Nat → Prop)
    (hrules : ∀ r position, allowed (key r, position) → g'.rule r = g.rule r ∧ key' r = key r)
    (hasked : ∀ a ∈ (g.read key depth parser s).asked, allowed a) :
    g'.read key' depth parser s = g.read key depth parser s :=
  Parser.read_agreesOn (readCall_agreesOn hrules depth fun _ => .refl _) parser s hasked

/-- At any depth that is large enough a reading comes out in the same way. -/
theorem read_outcome_eq {depth' : Nat} (h : g.callBound s.remaining ≤ depth)
    (h' : g.callBound s.remaining ≤ depth') :
    (g.read key depth parser s).outcome = (g.read key depth' parser s).outcome :=
  Account.outcome_eq_of_ends (fun hends => congrArg _ (read_eq_of_ends hends h').symm)
    fun hends => congrArg _ (read_eq_of_ends hends h)

/-- Scopes that are the same at the point and further on are not told apart. -/
theorem read_moved {scope scope' : Scope κ} (ha : scope.Advancing)
    (hsame : ∀ position ≤ s.remaining, scope'.movedTo position = scope.movedTo position)
    (hends : (parser.read (g.readCall key depth scope) s).Ends) :
    parser.read (g.readCall key depth scope') s = parser.read (g.readCall key depth scope) s := by
  have hcalls : ∀ r s', s'.Ahead s → Account.ExtendedBy (fun _ => True)
      (g.readCall key depth scope r s') (g.readCall key depth scope' r s') (FoundAhead s') := by
    intro r s' hs' hends' hall
    refine ⟨?_, (g.readCall_extended key le_rfl (.refl _) ha r s' hends' hall).2⟩
    rw [← readCall_movedTo depth scope, ← readCall_movedTo depth scope', hsame _ hs'.le]
  exact (Parser.read_extended hcalls parser s (.refl s) hends fun _ _ => trivial).1

/-- Further on than a scope it does not matter. -/
theorem read_further {scope : Scope κ} (ha : scope.Advancing) (hlt : s.remaining < scope.position) :
    (parser.read (g.readCall key depth scope) s).outcome =
      (g.read key depth parser s).outcome := by
  have hsame : ∀ position ≤ s.remaining,
      (Scope.empty s.remaining).movedTo position = scope.movedTo position := by
    intro position hle
    rw [Scope.empty_movedTo, Scope.movedTo_of_lt (hle.trans_lt hlt)]
  refine Account.outcome_eq_of_ends (fun hends => ?_) fun hends => ?_
  · exact congrArg _ (read_moved ha hsame hends).symm
  · exact congrArg _ (read_moved (Scope.advancing_empty _) (fun p hp => (hsame p hp).symm) hends)

/-- The body of a rule at a point, read with the rule and a best result in scope. -/
def readBody (g : Grammar ρ) (key : ρ → κ) (depth : Nat) (r : ρ) (s : Point)
    (best : Option Found) : Account κ (Option Found) :=
  (g.rule r).body.read (g.readCall key depth ((Scope.empty s.remaining).add (key r) best)) s

/-- A guarded rule at a point where no rule is unfinished. -/
theorem read_ref_outcome {r : ρ} (hr : (g.rule r).guard.isSome = true) :
    (g.read key (depth + 1) (.ref r) s).outcome =
      (Scope.evaluate (key r) s.remaining (g.readBody key depth r s)).outcome := by
  have hmoved : (Scope.empty s.remaining : Scope κ).movedTo s.remaining = .empty s.remaining :=
    Scope.movedTo_self rfl
  have houtcome := @readCall_outcome _ _ _ key g depth s (.empty s.remaining) r hr
    (by rw [hmoved]; rfl)
  rw [hmoved] at houtcome
  exact houtcome

end Grammar

end SeedGrowth
