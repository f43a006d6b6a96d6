import SeedGrowth.Proofs.Scope.Depth

/-!
# How results grow in a scope

A rule that asks for itself is evaluated round by round. Where its body gives a first
result as long as the rule fails, and from then on a next result that begins with the best
one, or else one that does not end further on, the rounds of its scope come to a plain loop:
begin with the first result, and take the next one as long as it ends further on.
-/
namespace SeedGrowth

variable {ρ κ α β : Type}

namespace Account

@[simp] theorem outcome_bind (x : Account κ α) (f : α → Account κ β) :
    (x >>= f).outcome = x.outcome >>= fun a => (f a).outcome := by
  obtain ⟨outcome, asked⟩ := x
  cases outcome <;> rfl

@[simp] theorem outcome_pure (a : α) : (pure a : Account κ α).outcome = .ok a := rfl

@[simp] theorem outcome_lift (x : Except Fault α) :
    (lift x : Account κ α).outcome = x.mapError .fault := rfl

/-- All that the account asks for is allowed. -/
def AsksOnly (allowed : κ × Nat → Prop) (x : Account κ α) : Prop := ∀ a ∈ x.asked, allowed a

namespace AsksOnly

variable {allowed : κ × Nat → Prop}

theorem pure (a : α) : AsksOnly allowed (Pure.pure a) := by
  intro _ hmem
  cases hmem

theorem bind {x : Account κ α} {f : α → Account κ β} (hx : AsksOnly allowed x)
    (hf : ∀ a, AsksOnly allowed (f a)) : AsksOnly allowed (x >>= f) := by
  intro a ha
  cases h : x.outcome with
  | ok value =>
    rw [bind_ok h] at ha
    rcases List.mem_append.1 ha with ha | ha
    · exact hx a ha
    · exact hf value a ha
  | error stop =>
    rw [bind_error h] at ha
    exact hx a ha

end AsksOnly

theorem mem_asked_bind {x : Account κ α} {a : κ × Nat} (h : a ∈ x.asked)
    (f : α → Account κ β) : a ∈ (x >>= f).asked := by
  obtain ⟨outcome, asked⟩ := x
  cases outcome with
  | ok value => exact List.mem_append_left _ h
  | error stop => exact h

end Account

namespace Parser

variable {call : ρ → Point → Account κ (Option Found)} {s : Point}

theorem outcome_mapped (parser : Parser ρ) (change : Value → Except Fault Value) :
    ((mapped parser change).read call s).outcome = (parser.read call s).outcome >>= fun
      | none => .ok none
      | some m => (change m.value).mapError .fault >>= fun v => .ok (some ⟨m.rest, v⟩) := by
  rw [read, Account.outcome_bind]
  refine congrArg _ (funext fun result => ?_)
  cases result with
  | none => rfl
  | some m => rw [Account.outcome_bind]; rfl

theorem outcome_sequence (items : List (Parser ρ)) :
    ((sequence items).read call s).outcome = (readAll call items s).outcome >>= fun result =>
      .ok (result.map fun (rest, values) => ⟨rest, .tuple values⟩) := by
  rw [read, Account.outcome_bind]
  rfl

@[simp] theorem outcome_readAll_nil :
    (readAll call ([] : List (Parser ρ)) s).outcome = .ok (some (s, [])) := rfl

theorem outcome_readAll_cons (parser : Parser ρ) (rest : List (Parser ρ)) :
    (readAll call (parser :: rest) s).outcome = (parser.read call s).outcome >>= fun
      | none => .ok none
      | some m => (readAll call rest m.rest).outcome >>= fun result =>
          .ok (result.map fun (s, values) => (s, m.value :: values)) := by
  rw [readAll, Account.outcome_bind]
  refine congrArg _ (funext fun result => ?_)
  cases result with
  | none => rfl
  | some m => rw [Account.outcome_bind]; rfl

theorem outcome_readFirst_cons (parser : Parser ρ) (rest : List (Parser ρ)) :
    (readFirst call (parser :: rest) s).outcome = (parser.read call s).outcome >>= fun
      | none => (readFirst call rest s).outcome
      | some m => .ok (some m) := by
  rw [readFirst, Account.outcome_bind]
  refine congrArg _ (funext fun result => ?_)
  cases result <;> rfl

theorem outcome_readFirst_single (parser : Parser ρ) :
    (readFirst call [parser] s).outcome = (parser.read call s).outcome := by
  rw [outcome_readFirst_cons]
  cases (parser.read call s).outcome with
  | error stop => rfl
  | ok result => cases result <;> rfl

@[simp] theorem outcome_ref (r : ρ) : ((ref r).read call s).outcome = (call r s).outcome := rfl

/-- A branch that begins with a rule which fails. -/
theorem read_branch_failed {r : ρ} (items : List (Parser ρ)) (change : Value → Except Fault Value)
    (hcall : (call r s).outcome = .ok none) :
    (mapped (sequence (ref r :: items)) change).read call s = ⟨.ok none, (call r s).asked⟩ := by
  have hall : readAll call (ref r :: items) s = ⟨.ok none, (call r s).asked⟩ := by
    rw [readAll, read, Account.bind_ok hcall]
    exact congrArg _ (List.append_nil _)
  have hsequence : (sequence (ref r :: items)).read call s = ⟨.ok none, (call r s).asked⟩ := by
    rw [read, hall]
    exact congrArg _ (List.append_nil _)
  rw [read, hsequence]
  exact congrArg _ (List.append_nil _)

/-- A branch that begins with a rule which has a result goes on from there. -/
theorem outcome_branch_found {r : ρ} {m : Found} {items : List (Parser ρ)}
    {change : Value → Except Fault Value} (hcall : (call r s).outcome = .ok (some m)) :
    ((mapped (sequence (ref r :: items)) change).read call s).outcome =
      (readAll call items m.rest).outcome >>= fun
        | none => .ok none
        | some (rest, values) => (change (.tuple (m.value :: values))).mapError .fault >>= fun v =>
            .ok (some ⟨rest, v⟩) := by
  rw [outcome_mapped, outcome_sequence, outcome_readAll_cons, outcome_ref, hcall, ok_bind]
  dsimp only
  cases (readAll call items m.rest).outcome with
  | error stop => rfl
  | ok result => cases result <;> rfl

end Parser

namespace Scope

theorem empty_movedTo (position position' : Nat) :
    (empty position : Scope κ).movedTo position' = empty position' := by
  unfold movedTo
  split
  · next h => rw [← show position = position' from h]
  · rfl

theorem movedTo_of_lt {scope : Scope κ} {position : Nat} (h : position < scope.position) :
    scope.movedTo position = empty position := if_neg h.ne'

@[simp] theorem position_add [DecidableEq κ] (scope : Scope κ) (key : κ) (best : Option Found) :
    (scope.add key best).position = scope.position := rfl

theorem best_add_of_ne [DecidableEq κ] {scope : Scope κ} {key key' : κ} {best : Option Found}
    (h : key' ≠ key) : (scope.add key best).best key' = scope.best key' := if_neg h

/-- Longer than a result that took up text are those that end further on. -/
theorem longer?_some {position : Nat} {m m' : Found} (h : m.rest.remaining ≤ position) :
    longer? position (some m) (some m') =
      if m'.rest.remaining < m.rest.remaining then some m' else none := by
  have hiff : position - m.rest.remaining < position - m'.rest.remaining ↔
      m'.rest.remaining < m.rest.remaining := by omega
  have hlength : lengthOf position (some m) = position - m.rest.remaining := rfl
  have hconsumed : m'.consumed position = position - m'.rest.remaining := rfl
  simp only [longer?, Option.filter_some, hlength, hconsumed, hiff, decide_eq_true_eq]

/-- What is longer takes up text. -/
theorem remaining_lt_of_longer? {position : Nat} {best result : Option Found} {m : Found}
    (h : longer? position best result = some m) :
    result = some m ∧ m.rest.remaining < position := by
  obtain ⟨hresult, hlength⟩ := Option.filter_eq_some_iff.1 h
  have hlt : lengthOf position best < position - m.rest.remaining := of_decide_eq_true hlength
  exact ⟨hresult, by omega⟩

/-- Longer than a failure are the results that take up text. -/
theorem longer?_none {position : Nat} {m : Found} :
    longer? position none (some m) = if m.rest.remaining < position then some m else none := by
  have hiff : 0 < position - m.rest.remaining ↔ m.rest.remaining < position := by omega
  have hlength : lengthOf position none = 0 := rfl
  have hconsumed : m.consumed position = position - m.rest.remaining := rfl
  simp only [longer?, Option.filter_some, hlength, hconsumed, hiff, decide_eq_true_eq]

end Scope

/-- The result does not end further on than the match. -/
def Found.NotBefore (m : Found) (result : Option Found) : Prop :=
  ∀ m', result = some m' → m.rest.remaining ≤ m'.rest.remaining

namespace Found.NotBefore

variable {m m' : Found}

theorem none (m : Found) : m.NotBefore none := by
  intro m' hm'
  cases hm'

theorem some (h : m.rest.remaining ≤ m'.rest.remaining) : m.NotBefore (some m') := by
  intro m'' hm''
  cases hm''
  exact h

theorem longer?_eq_none {result : Option Found} {position : Nat} (h : m.NotBefore result)
    (hm : m.rest.remaining ≤ position) : Scope.longer? position (.some m) result = .none := by
  cases result with
  | none => rfl
  | some m' => rw [Scope.longer?_some hm, if_neg (Nat.not_lt.2 (h m' rfl))]

end Found.NotBefore

namespace Scope

/-- Takes the next result as long as it ends further on. -/
def climb (next : Found → Except Stop (Option Found)) : Nat → Found → Except Stop Found
  | 0, _ => throw .exhausted
  | rounds + 1, m => do
    match ← next m with
    | none => return m
    | some m' => if m'.rest.remaining < m.rest.remaining then climb next rounds m' else return m

/-- Begins with a first result, which has to take up text, and goes on from there. -/
def climbFrom (position : Nat) (first : Except Stop (Option Found))
    (next : Found → Except Stop (Option Found)) : Except Stop (Option Found) := do
  match ← first with
  | none => return none
  | some m =>
    if m.rest.remaining < position then return some (← climb next (m.rest.remaining + 1) m)
    else return none

section

variable {next : Found → Except Stop (Option Found)}

/-- The loop ends with a match behind the first one, after which there is no next result that
ends further on. -/
theorem of_climb_eq_ok : ∀ (rounds : Nat) {m last : Found}, climb next rounds m = .ok last →
    last.rest.remaining ≤ m.rest.remaining ∧
      ∃ result, next last = .ok result ∧ last.NotBefore result := by
  intro rounds
  induction rounds with
  | zero =>
    intro m last h
    cases h
  | succ rounds ih =>
    intro m last h
    rw [climb] at h
    cases hnext : next m with
    | error stop =>
      rw [hnext] at h
      cases h
    | ok result =>
      rw [hnext] at h
      cases result with
      | none =>
        cases h
        exact ⟨le_rfl, none, hnext, .none m⟩
      | some m' =>
        change (if m'.rest.remaining < m.rest.remaining then climb next rounds m' else pure m) =
          .ok last at h
        split at h
        · next hlt =>
          obtain ⟨hle, hlast⟩ := ih h
          exact ⟨hle.trans hlt.le, hlast⟩
        · next hle =>
          cases h
          exact ⟨le_rfl, some m', hnext, .some (Nat.le_of_not_lt hle)⟩

theorem of_climbFrom_eq_some {position : Nat} {first : Except Stop (Option Found)} {last : Found}
    (h : climbFrom position first next = .ok (some last)) : last.rest.remaining < position ∧
      ∃ result, next last = .ok result ∧ last.NotBefore result := by
  rw [climbFrom] at h
  cases first with
  | error stop => cases h
  | ok result =>
    cases result with
    | none => cases h
    | some m =>
      change (if m.rest.remaining < position then
        some <$> climb next (m.rest.remaining + 1) m else pure none) = .ok (some last) at h
      split at h
      · next hlt =>
        cases hclimb : climb next (m.rest.remaining + 1) m with
        | error stop =>
          rw [hclimb] at h
          cases h
        | ok last' =>
          rw [hclimb] at h
          cases h
          obtain ⟨hle, hlast⟩ := of_climb_eq_ok _ hclimb
          exact ⟨hle.trans_lt hlt, hlast⟩
      · cases h

/-- A loop that a fault may stop where the other one has no next result goes on as that one
does, or stops at the fault. -/
theorem climbFrom_stopped {next' : Found → Except Stop (Option Found)} {stop : Stop}
    (h : ∀ m, next' m = next m ∨ next' m = .error stop) (position : Nat)
    (first : Except Stop (Option Found)) :
    climbFrom position first next' = climbFrom position first next ∨
      climbFrom position first next' = .error stop := by
  have hclimb : ∀ (rounds : Nat) (m : Found),
      climb next' rounds m = climb next rounds m ∨ climb next' rounds m = .error stop := by
    intro rounds
    induction rounds with
    | zero => exact fun _ => .inl rfl
    | succ rounds ih =>
      intro m
      rw [climb, climb]
      rcases h m with hnext | hnext
      · rw [hnext]
        cases next m with
        | error stop' => exact .inl rfl
        | ok result =>
          cases result with
          | none => exact .inl rfl
          | some m' =>
            rw [ok_bind, ok_bind]
            dsimp only
            split
            · exact ih m'
            · exact .inl rfl
      · rw [hnext]
        exact .inr rfl
  rw [climbFrom, climbFrom]
  cases first with
  | error stop' => exact .inl rfl
  | ok result =>
    cases result with
    | none => exact .inl rfl
    | some m =>
      rw [ok_bind, ok_bind]
      dsimp only
      split
      · rcases hclimb (m.rest.remaining + 1) m with heq | heq
        · rw [heq]
          exact .inl rfl
        · rw [heq]
          exact .inr rfl
      · exact .inl rfl

end

section

variable {position : Nat} {body : Option Found → Account κ (Option Found)}
  {best result : Option Found}

theorem grow_stop (h : longer? position best result = none) (rounds : Nat) :
    grow position body rounds best result = pure best := by
  unfold grow
  rw [h]

theorem grow_further {m : Found} (h : longer? position best result = some m) (rounds : Nat) :
    grow position body (rounds + 1) best result =
      body (some m) >>= grow position body rounds (some m) := by
  rw [grow, h]

/-- A body that asks for its rule goes on until its results do not get longer. -/
theorem evaluate_of_asked [DecidableEq κ] {key : κ} (h : (key, position) ∈ (body none).asked) :
    (evaluate key position body).outcome =
      (body none >>= grow position body position none).outcome := by
  unfold evaluate Account.listen
  cases hresult : (body none).outcome with
  | error stop =>
    rw [Account.bind_error hresult]
    rfl
  | ok result =>
    rw [Account.bind_ok hresult]
    change (if (key, position) ∈ (body none).asked then
      grow position body position none result else pure result).outcome = _
    rw [if_pos h]

/-- A body that does not ask for its rule is evaluated once. -/
theorem evaluate_eq_of_not_asked [DecidableEq κ] {key : κ}
    (h : (key, position) ∉ (body none).asked) : evaluate key position body = body none := by
  unfold evaluate Account.listen
  cases hresult : (body none).outcome with
  | error stop => rw [Account.bind_error rfl, ← hresult]
  | ok result =>
    rw [Account.bind_ok rfl]
    dsimp only
    rw [if_neg h]
    calc
      (⟨.ok result, (body none).asked ++ []⟩ : Account κ (Option Found))
          = ⟨(body none).outcome, (body none).asked⟩ := by rw [hresult, List.append_nil]
      _ = body none := rfl

/-- A rule asks for what its body asks for first. -/
theorem mem_asked_evaluate [DecidableEq κ] (key : κ) {a : κ × Nat} (h : a ∈ (body none).asked) :
    a ∈ (evaluate key position body).asked := by
  have hlisten : a ∈ (body none).listen.asked := h
  exact Account.mem_asked_bind hlisten _

/-- A result grows in the same way if the body comes out in the same way. -/
theorem grow_outcome_congr {κ' : Type} {body' : Option Found → Account κ' (Option Found)}
    (h : ∀ m, m.rest.remaining < position → (body (some m)).outcome = (body' (some m)).outcome) :
    ∀ (rounds : Nat) (best result : Option Found),
      (grow position body rounds best result).outcome =
        (grow position body' rounds best result).outcome := by
  intro rounds
  induction rounds with
  | zero =>
    intro best result
    rw [grow, grow]
    cases longer? position best result <;> rfl
  | succ rounds ih =>
    intro best result
    rw [grow, grow]
    cases hl : longer? position best result with
    | none => rfl
    | some m =>
      dsimp only
      rw [Account.outcome_bind, Account.outcome_bind, h m (remaining_lt_of_longer? hl).2]
      exact congrArg _ (funext fun result => ih (some m) result)

/-- Rules the bodies of which ask for them come out in the same way if the bodies do. -/
theorem evaluate_outcome_congr {κ' : Type} [DecidableEq κ] [DecidableEq κ'] {key : κ} {key' : κ'}
    {body' : Option Found → Account κ' (Option Found)}
    (hasked : (key, position) ∈ (body none).asked) (hasked' : (key', position) ∈ (body' none).asked)
    (hnone : (body none).outcome = (body' none).outcome)
    (hsome : ∀ m, m.rest.remaining < position →
      (body (some m)).outcome = (body' (some m)).outcome) :
    (evaluate key position body).outcome = (evaluate key' position body').outcome := by
  rw [evaluate_of_asked hasked, evaluate_of_asked hasked', Account.outcome_bind,
    Account.outcome_bind, hnone]
  exact congrArg _ (funext fun result => grow_outcome_congr hsome _ none result)

variable {next : Found → Except Stop (Option Found)}

/-- In each round the body goes on from the best result, or comes to one that does not end
further on. So its results grow as the loop goes on. -/
theorem grow_outcome {first : Found}
    (hbody : ∀ m, m.rest.remaining < position → m.rest.remaining ≤ first.rest.remaining →
      ∃ last, m.NotBefore last ∧ (body (some m)).outcome = (next m >>= fun
        | none => .ok last
        | some m' => .ok (some m'))) :
    ∀ (rounds fuel : Nat) {m : Found}, m.rest.remaining < position →
      m.rest.remaining ≤ first.rest.remaining → m.rest.remaining ≤ fuel →
      m.rest.remaining < rounds →
      (body (some m) >>= grow position body fuel (some m)).outcome =
        (climb next rounds m).map some := by
  intro rounds
  induction rounds with
  | zero =>
    intro fuel m _ _ _ hlt
    omega
  | succ rounds ih =>
    intro fuel m hm hfirst hfuel hrounds
    have hstop : ∀ result : Option Found, m.NotBefore result →
        (grow position body fuel (some m) result).outcome = .ok (some m) := by
      intro result hresult
      rw [grow_stop (hresult.longer?_eq_none hm.le)]
      rfl
    obtain ⟨last, hlast, hbodym⟩ := hbody m hm hfirst
    rw [climb, Account.outcome_bind, hbodym]
    cases hresult : next m with
    | error stop => rfl
    | ok result =>
      cases result with
      | none => exact hstop last hlast
      | some m' =>
        change (grow position body fuel (some m) (some m')).outcome =
          (if m'.rest.remaining < m.rest.remaining then climb next rounds m' else pure m).map some
        by_cases hlt : m'.rest.remaining < m.rest.remaining
        · rw [if_pos hlt]
          obtain ⟨fuel', rfl⟩ : ∃ fuel', fuel = fuel' + 1 :=
            Nat.exists_eq_add_one_of_ne_zero (by omega)
          rw [grow_further (by rw [longer?_some hm.le, if_pos hlt])]
          exact ih fuel' (by omega) (by omega) (by omega) (by omega)
        · rw [if_neg hlt]
          exact hstop _ (.some (Nat.le_of_not_lt hlt))

/-- A rule is evaluated as the loop goes on if its body asks for it and comes out first as
the first result, and in each round as the next result, or else with one that does not end
further on. -/
theorem evaluate_outcome [DecidableEq κ] {key : κ} {first : Except Stop (Option Found)}
    (hfirst : (body none).outcome = first) (hasked : (key, position) ∈ (body none).asked)
    (hround : ∀ f m, first = .ok (some f) → m.rest.remaining < position →
      m.rest.remaining ≤ f.rest.remaining →
      ∃ last, m.NotBefore last ∧ (body (some m)).outcome = (next m >>= fun
        | none => .ok last
        | some m' => .ok (some m'))) :
    (evaluate key position body).outcome = climbFrom position first next := by
  rw [evaluate_of_asked hasked, Account.outcome_bind, hfirst, climbFrom]
  cases hresult : first with
  | error stop => rfl
  | ok result =>
    change (grow position body position none result).outcome = _
    cases result with
    | none =>
      rw [grow_stop rfl]
      rfl
    | some m =>
      change _ = if m.rest.remaining < position then
        some <$> climb next (m.rest.remaining + 1) m else pure none
      by_cases hlt : m.rest.remaining < position
      · rw [if_pos hlt]
        obtain ⟨fuel, hfuel⟩ : ∃ fuel, position = fuel + 1 :=
          Nat.exists_eq_add_one_of_ne_zero (by omega)
        have hgrown := grow_outcome (fun m' => hround m m' hresult) (m.rest.remaining + 1) fuel hlt
          le_rfl (by omega) (Nat.lt_succ_self _)
        have hlonger : longer? position none (some m) = some m := by
          rw [longer?_none, if_pos hlt]
        rw [hfuel] at hgrown hlonger ⊢
        rw [grow_further hlonger]
        exact hgrown
      · rw [if_neg hlt, grow_stop (by rw [longer?_none, if_neg hlt])]
        rfl

end

end Scope

namespace Grammar

variable [DecidableEq κ] {key : ρ → κ} {g : Grammar ρ} {depth : Nat} {s : Point}

/-- A call of a rule in scope. -/
theorem readCall_inScope {scope : Scope κ} {r : ρ} {best : Option Found}
    (hp : scope.position = s.remaining) (hb : scope.best (key r) = some best)
    (hg : (g.rule r).guard.isSome = true) :
    g.readCall key (depth + 1) scope r s = ⟨.ok best, [(key r, s.remaining)]⟩ := by
  obtain ⟨guard, hguard⟩ := Option.isSome_iff_exists.1 hg
  rw [readCall]
  unfold readRule
  rw [Scope.movedTo_self hp, hguard]
  dsimp only
  rw [hb]
  rfl

/-- A call of a plain rule reads its body. -/
theorem readCall_plain {scope : Scope κ} {r : ρ} (hg : (g.rule r).guard = none) :
    (g.readCall key (depth + 1) scope r s).outcome =
      ((g.rule r).body.read (g.readCall key depth (scope.movedTo s.remaining)) s).outcome := by
  rw [readCall]
  unfold readRule
  rw [hg]
  rfl

/-- A call of a guarded rule that is not in scope evaluates its body. -/
theorem readCall_outcome {scope : Scope κ} {r : ρ} (hg : (g.rule r).guard.isSome = true)
    (hb : (scope.movedTo s.remaining).best (key r) = none) :
    (g.readCall key (depth + 1) scope r s).outcome =
      (Scope.evaluate (key r) s.remaining fun best => (g.rule r).body.read
        (g.readCall key depth ((scope.movedTo s.remaining).add (key r) best)) s).outcome := by
  obtain ⟨guard, hguard⟩ := Option.isSome_iff_exists.1 hg
  rw [readCall]
  unfold readRule
  rw [hguard]
  dsimp only
  rw [hb]
  rfl

end Grammar

end SeedGrowth
