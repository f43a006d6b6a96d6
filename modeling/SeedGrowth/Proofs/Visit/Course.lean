import SeedGrowth.Proofs.Grammar.Combinators
import SeedGrowth.Proofs.Visit.Rounds

/-!
# The course of an evaluation

How an evaluation of combinators that goes well is made up of others: it evaluates nothing, one
other parser, or two of them, one after the other, or it is a call of a guarded rule, which gets
an answer or evaluates the body of the rule in its rounds. What is to be shown of all evaluations
is shown along this course, whatever parsers there are.
-/
namespace SeedGrowth

variable {ρ : Type}

/-- The cursor takes the same along, and is not further ahead of the end. -/
structure Cursor.Trails (s s' : Cursor) : Prop where
  payload_eq : s.payload = s'.payload
  remaining_le : s.remaining ≤ s'.remaining

/-- The visit is a call of a guarded rule. -/
def Visit.IsGuarded (g : Grammar ρ) (v : Visit ρ) : Prop :=
  ∃ r guard, v.parser = .ref r ∧ (g.rule r).guard = some guard

/-- How an evaluation that goes well is made up of others. -/
inductive Grammar.Course (g : Grammar ρ) : Visit ρ → Option Match → Session → Prop where
  | still {v result} : ¬ v.IsGuarded g → (∀ w, ¬ g.Leads v w) →
      (∀ m, result = some m → m.rest.Trails v.cursor) → Course g v result v.session
  | once {v w last result σ} : ¬ v.IsGuarded g → (∀ u, g.Leads v u ↔ u = w) →
      w.cursor = v.cursor → w.session = v.session → Course g w last σ →
      (∀ m, result = some m → m.rest = v.cursor ∨ ∃ m', last = some m' ∧ m.rest = m'.rest) →
      Course g v result σ
  | twice {v w w' first last result σ σ'} : ¬ v.IsGuarded g →
      (∀ u, g.Leads v u ↔ u = w ∨ u = w') →
      w.cursor = v.cursor → w.session = v.session → Course g w first σ →
      (w'.cursor = v.cursor ∨ ∃ m, first = some m ∧ w'.cursor = m.rest) → w'.session = σ →
      Course g w' last σ' →
      (∀ m, result = some m → m.rest = v.cursor ∨ ∃ m', last = some m' ∧ m.rest = m'.rest) →
      Course g v result σ'
  | answered {depth r s σ guard arrival σ₁ result σ₂} : (g.rule r).guard = some guard →
      arrive guard.name guard.registry s σ = (.ok arrival, σ₁) → arrival.active = true →
      arrival.answer σ₁ = (.ok result, σ₂) → Course g ⟨depth + 1, .ref r, s, σ⟩ result σ₂
  | evaluated {depth r s σ guard arrival σ₁ call s' σ₂ rounds best σ₃ result σ₄} :
      (g.rule r).guard = some guard →
      arrive guard.name guard.registry s σ = (.ok arrival, σ₁) → arrival.active = false →
      arrival.begin s σ₁ = (.ok (call, s'), σ₂) →
      call.Passes ((g.rule r).body.eval (g.call depth) s')
        (σ₂.modifyRegistry call.registry fun r => { r with level := r.level + 1 }) rounds best
        σ₃ →
      (∀ round ∈ rounds,
        Course g ⟨depth, (g.rule r).body, s', round.first⟩ round.result round.last) →
      call.finish best (σ₃.modifyRegistry call.registry fun r => { r with level := r.level - 1 }) =
        (.ok result, σ₄) →
      Course g ⟨depth + 1, .ref r, s, σ⟩ result σ₄

namespace Grammar

variable {g : Grammar ρ} {depth : ℕ}

/-- Evaluations of the parser that go well have a course. -/
def Charts (g : Grammar ρ) (depth : ℕ) (parser : Parser ρ) : Prop :=
  ∀ s σ result σ', parser.eval (g.call depth) s σ = (.ok result, σ') →
    g.Course ⟨depth, parser, s, σ⟩ result σ'

theorem not_isGuarded_of_ne {v : Visit ρ} (h : ∀ r, v.parser ≠ .ref r) : ¬ v.IsGuarded g := by
  rintro ⟨r, guard, hparser, -⟩
  exact h r hparser

/-- A match of the next characters is behind its cursor. -/
theorem trails_matchNext (s : Cursor) (count : ℕ) : (Parser.matchNext s count).rest.Trails s :=
  ⟨rfl, (s.remaining_advance count).trans_le (Nat.sub_le _ _)⟩

theorem Course.of_pure {parser : Parser ρ} {s : Cursor} {σ σ' : Session}
    {answer result : Option Match} (hparser : ∀ r, parser ≠ .ref r)
    (halone : ∀ w, ¬ g.Leads ⟨depth, parser, s, σ⟩ w)
    (htrails : ∀ m, answer = some m → m.rest.Trails s)
    (h : (pure answer : Eval (Option Match)) σ = (.ok result, σ')) :
    g.Course ⟨depth, parser, s, σ⟩ result σ' := by
  cases h
  exact .still (not_isGuarded_of_ne hparser) halone htrails

end Grammar

namespace Parser

open Grammar

variable {g : Grammar ρ} {depth : ℕ}

/-- Repetitions have a course, however many rounds are allowed for. -/
theorem repeatWhile_course {parser : Parser ρ} (hp : g.Charts depth parser) :
    ∀ (rounds : ℕ) {s : Cursor} {σ σ' : Session} {rest : Cursor} {values : List Value},
      repeatWhile (parser.eval (g.call depth)) rounds s σ = (.ok (rest, values), σ') →
      ∀ value, g.Course ⟨depth, .many parser, s, σ⟩ (some ⟨rest, value⟩) σ' := by
  intro rounds
  induction rounds with
  | zero =>
    intro s σ σ' rest values h
    cases h
  | succ rounds ih =>
    intro s σ σ' rest values h value
    obtain ⟨first, σ₁, hfirst, h⟩ := Program.exists_of_bind h
    have hcourse := hp s σ first σ₁ hfirst
    have hguarded : ¬ Visit.IsGuarded g ⟨depth, .many parser, s, σ⟩ :=
      not_isGuarded_of_ne (by simp)
    -- A repetition that ends here evaluates its parser alone.
    have hends : (∀ m, first = some m → m.rest.place.offset = s.place.offset) →
        g.Course ⟨depth, .many parser, s, σ⟩ (some ⟨s, value⟩) σ₁ := by
      intro hstill
      have hleads : ∀ u, g.Leads ⟨depth, .many parser, s, σ⟩ u ↔ u = ⟨depth, parser, s, σ⟩ := by
        intro u
        constructor
        · intro hu
          cases hu with
          | many => rfl
          | further hv hoffset =>
            cases hfirst.symm.trans hv
            exact absurd (hstill _ rfl) hoffset
        · rintro rfl
          exact .many
      exact .once hguarded hleads rfl rfl hcourse fun m hm => .inl (by cases hm; rfl)
    cases first with
    | none =>
      cases h
      exact hends (by simp)
    | some m =>
      dsimp only at h
      by_cases hoffset : m.rest.place.offset = s.place.offset
      · rw [if_pos hoffset] at h
        cases h
        refine hends fun m' hm' => ?_
        cases hm'
        exact hoffset
      · rw [if_neg hoffset] at h
        obtain ⟨⟨rest', values'⟩, σ₂, hrest, h⟩ := Program.exists_of_bind h
        cases h
        have hleads : ∀ u, g.Leads ⟨depth, .many parser, s, σ⟩ u ↔
            u = ⟨depth, parser, s, σ⟩ ∨ u = ⟨depth, .many parser, m.rest, σ₁⟩ := by
          intro u
          constructor
          · intro hu
            cases hu with
            | many => exact .inl rfl
            | further hv _ =>
              cases hfirst.symm.trans hv
              exact .inr rfl
          · rintro (rfl | rfl)
            · exact .many
            · exact .further hfirst hoffset
        exact .twice hguarded hleads rfl rfl hcourse (.inr ⟨m, rfl, rfl⟩) rfl (ih hrest value)
          fun m' hm' => .inr ⟨_, rfl, by cases hm'; rfl⟩

mutual

/-- Evaluations of combinators have a course if calls of rules have. -/
theorem eval_course (hc : ∀ r, g.Charts depth (.ref r)) :
    ∀ parser : Parser ρ, parser.isCombinator = true → g.Charts depth parser
  | tag text, _, s, σ, result, σ', h => by
    refine .of_pure (by simp) (by rintro w ⟨⟩) ?_ h
    intro m hm
    split at hm <;> cases hm
    exact trails_matchNext s _
  | scanner rule, _, s, σ, result, σ', h => by
    refine .of_pure (by simp) (by rintro w ⟨⟩) ?_ h
    intro m hm
    obtain ⟨count, -, rfl⟩ := Option.map_eq_some_iff.1 hm
    exact trails_matchNext s _
  | eof, _, s, σ, result, σ', h => by
    refine .of_pure (by simp) (by rintro w ⟨⟩) ?_ h
    intro m hm
    split at hm <;> cases hm
    exact ⟨rfl, le_rfl⟩
  | alt branches, hp, s, σ, result, σ', h => evalFirst_course hc branches hp h
  | sequence items, hp, s, σ, result, σ', h => by
    obtain ⟨row, σ₁, hrow, h⟩ := Program.exists_of_bind h
    cases h
    exact evalAll_course hc items hp hrow
  | mapped parser change, hp, s, σ, result, σ', h => by
    obtain ⟨last, σ₁, hlast, h⟩ := Program.exists_of_bind h
    have hleads : ∀ u, g.Leads ⟨depth, .mapped parser change, s, σ⟩ u ↔
        u = ⟨depth, parser, s, σ⟩ :=
      fun u => ⟨fun hu => by cases hu; rfl, fun hu => hu ▸ .mapped⟩
    have hcourse := eval_course hc parser hp s σ last σ₁ hlast
    cases last with
    | none =>
      cases h
      exact .once (not_isGuarded_of_ne (by simp)) hleads rfl rfl hcourse (by simp)
    | some m =>
      obtain ⟨value, σ₂, hvalue, hrest⟩ := Program.exists_of_bind h
      obtain ⟨-, rfl⟩ := Eval.eq_of_lift hvalue
      cases hrest
      refine .once (not_isGuarded_of_ne (by simp)) hleads rfl rfl hcourse fun m' hm' => ?_
      cases hm'
      exact .inr ⟨m, rfl, rfl⟩
  | opt parser, hp, s, σ, result, σ', h => by
    obtain ⟨last, σ₁, hlast, h⟩ := Program.exists_of_bind h
    have hleads : ∀ u, g.Leads ⟨depth, .opt parser, s, σ⟩ u ↔ u = ⟨depth, parser, s, σ⟩ :=
      fun u => ⟨fun hu => by cases hu; rfl, fun hu => hu ▸ .opt⟩
    have hcourse := eval_course hc parser hp s σ last σ₁ hlast
    cases last with
    | none =>
      cases h
      exact .once (not_isGuarded_of_ne (by simp)) hleads rfl rfl hcourse
        fun m hm => .inl (by cases hm; rfl)
    | some m =>
      cases h
      exact .once (not_isGuarded_of_ne (by simp)) hleads rfl rfl hcourse
        fun m' hm' => .inr ⟨m', hm', rfl⟩
  | many parser, hp, s, σ, result, σ', h => by
    obtain ⟨⟨rest, values⟩, σ₁, hrepeat, h⟩ := Program.exists_of_bind h
    cases h
    exact repeatWhile_course (eval_course hc parser hp) _ hrepeat _
  | ref r, _, s, σ, result, σ', h => hc r s σ result σ' h
  | peek _, hp, _, _, _, _, _ | absent _, hp, _, _, _, _, _ | .edit _, hp, _, _, _, _, _
  | reveal, hp, _, _, _, _, _ | probe _, hp, _, _, _, _, _ | .watch _ _, hp, _, _, _, _, _ =>
    absurd hp Bool.false_ne_true

theorem evalFirst_course (hc : ∀ r, g.Charts depth (.ref r)) :
    ∀ branches : List (Parser ρ), areCombinators branches = true →
      ∀ {s : Cursor} {σ σ' : Session} {result : Option Match},
        evalFirst (g.call depth) branches s σ = (.ok result, σ') →
        g.Course ⟨depth, .alt branches, s, σ⟩ result σ'
  | [], _, s, σ, σ', result, h => .of_pure (by simp) (by rintro w ⟨⟩) (by simp) h
  | parser :: rest, hp, s, σ, σ', result, h => by
    obtain ⟨hparser, hrest⟩ := Bool.and_eq_true_iff.1 hp
    obtain ⟨first, σ₁, hfirst, h⟩ := Program.exists_of_bind h
    have hguarded : ¬ Visit.IsGuarded g ⟨depth, .alt (parser :: rest), s, σ⟩ :=
      not_isGuarded_of_ne (by simp)
    have hcourse := eval_course hc parser hparser s σ first σ₁ hfirst
    cases first with
    | none =>
      have hleads : ∀ u, g.Leads ⟨depth, .alt (parser :: rest), s, σ⟩ u ↔
          u = ⟨depth, parser, s, σ⟩ ∨ u = ⟨depth, .alt rest, s, σ₁⟩ := by
        intro u
        constructor
        · intro hu
          cases hu with
          | branch => exact .inl rfl
          | otherwise hv =>
            cases hfirst.symm.trans hv
            exact .inr rfl
        · rintro (rfl | rfl)
          · exact .branch
          · exact .otherwise hfirst
      exact .twice hguarded hleads rfl rfl hcourse (.inl rfl) rfl
        (evalFirst_course hc rest hrest h) fun m hm => .inr ⟨m, hm, rfl⟩
    | some m =>
      cases h
      have hleads : ∀ u, g.Leads ⟨depth, .alt (parser :: rest), s, σ⟩ u ↔
          u = ⟨depth, parser, s, σ⟩ := by
        intro u
        constructor
        · intro hu
          cases hu with
          | branch => rfl
          | otherwise hv => cases hfirst.symm.trans hv
        · rintro rfl
          exact .branch
      exact .once hguarded hleads rfl rfl hcourse fun m' hm' => .inr ⟨m', hm', rfl⟩

theorem evalAll_course (hc : ∀ r, g.Charts depth (.ref r)) :
    ∀ items : List (Parser ρ), areCombinators items = true →
      ∀ {s : Cursor} {σ σ' : Session} {row : Option (Cursor × List Value)},
        evalAll (g.call depth) items s σ = (.ok row, σ') →
        g.Course ⟨depth, .sequence items, s, σ⟩
          (row.map fun (rest, values) => ⟨rest, .tuple values⟩) σ'
  | [], _, s, σ, σ', row, h => by
    cases h
    refine .still (not_isGuarded_of_ne (by simp)) (by rintro w ⟨⟩) fun m hm => ?_
    cases hm
    exact ⟨rfl, le_rfl⟩
  | parser :: rest, hp, s, σ, σ', row, h => by
    obtain ⟨hparser, hrest⟩ := Bool.and_eq_true_iff.1 hp
    obtain ⟨first, σ₁, hfirst, h⟩ := Program.exists_of_bind h
    have hguarded : ¬ Visit.IsGuarded g ⟨depth, .sequence (parser :: rest), s, σ⟩ :=
      not_isGuarded_of_ne (by simp)
    have hcourse := eval_course hc parser hparser s σ first σ₁ hfirst
    cases first with
    | none =>
      cases h
      have hleads : ∀ u, g.Leads ⟨depth, .sequence (parser :: rest), s, σ⟩ u ↔
          u = ⟨depth, parser, s, σ⟩ := by
        intro u
        constructor
        · intro hu
          cases hu with
          | item => rfl
          | after hv => cases hfirst.symm.trans hv
        · rintro rfl
          exact .item
      exact .once hguarded hleads rfl rfl hcourse (by simp)
    | some m =>
      obtain ⟨row', σ₂, hrow, h⟩ := Program.exists_of_bind h
      cases h
      have hleads : ∀ u, g.Leads ⟨depth, .sequence (parser :: rest), s, σ⟩ u ↔
          u = ⟨depth, parser, s, σ⟩ ∨ u = ⟨depth, .sequence rest, m.rest, σ₁⟩ := by
        intro u
        constructor
        · intro hu
          cases hu with
          | item => exact .inl rfl
          | after hv =>
            cases hfirst.symm.trans hv
            exact .inr rfl
        · rintro (rfl | rfl)
          · exact .item
          · exact .after hfirst
      refine .twice hguarded hleads rfl rfl hcourse (.inr ⟨m, rfl, rfl⟩) rfl
        (evalAll_course hc rest hrest hrow) fun m' hm' => ?_
      cases row' with
      | none => cases hm'
      | some row' =>
        cases hm'
        exact .inr ⟨_, rfl, rfl⟩

end

end Parser

namespace Grammar

variable {g : Grammar ρ}

/-- A call of a guarded rule leads to its body alone, and only if its flag is not set. -/
theorem Leads.of_guarded {r : ρ} {s : Cursor} {σ σ₁ : Session} {guard : Guard}
    {arrival : Arrival} {depth : ℕ} {w : Visit ρ} (hr : (g.rule r).guard = some guard)
    (harrive : arrive guard.name guard.registry s σ = (.ok arrival, σ₁))
    (h : g.Leads ⟨depth + 1, .ref r, s, σ⟩ w) :
    arrival.active = false ∧ ∃ call s' σ₂ k σ₃, arrival.begin s σ₁ = (.ok (call, s'), σ₂) ∧
      call.Evaluates ((g.rule r).body.eval (g.call depth) s')
        (σ₂.modifyRegistry call.registry fun r => { r with level := r.level + 1 }) k σ₃ ∧
      w = ⟨depth, (g.rule r).body, s', σ₃⟩ := by
  cases h with
  | plain hplain =>
    rw [hr] at hplain
    cases hplain
  | guarded hr' harrive' hidle hbegin he =>
    cases hr.symm.trans hr'
    cases harrive.symm.trans harrive'
    exact ⟨hidle, _, _, _, _, _, hbegin, he, rfl⟩

end Grammar

namespace Call.Passes

variable {g : Grammar ρ} {r : ρ} {s s' : Cursor} {σ σ₁ σ₂ σ₃ : Session} {guard : Guard}
  {arrival : Arrival} {call : Call} {depth : ℕ} {rounds : List Call.Round} {best : Option Match}

/-- What a call of a guarded rule leads to is one of its rounds. -/
theorem exists_round {w : Visit ρ}
    (h : call.Passes ((g.rule r).body.eval (g.call depth) s')
      (σ₂.modifyRegistry call.registry fun r => { r with level := r.level + 1 }) rounds best σ₃)
    (hr : (g.rule r).guard = some guard)
    (harrive : arrive guard.name guard.registry s σ = (.ok arrival, σ₁))
    (hbegin : arrival.begin s σ₁ = (.ok (call, s'), σ₂))
    (hl : g.Leads ⟨depth + 1, .ref r, s, σ⟩ w) :
    ∃ round ∈ rounds, w = ⟨depth, (g.rule r).body, s', round.first⟩ := by
  obtain ⟨-, call', s'', σ₂', k, σₖ, hbegin', he, rfl⟩ := hl.of_guarded hr harrive
  cases hbegin.symm.trans hbegin'
  obtain ⟨round, hround, rfl⟩ := h.evaluates_iff.1 he
  exact ⟨round, List.mem_of_getElem? hround, rfl⟩

/-- A call of a guarded rule leads to each of its rounds. -/
theorem leads_round
    (h : call.Passes ((g.rule r).body.eval (g.call depth) s')
      (σ₂.modifyRegistry call.registry fun r => { r with level := r.level + 1 }) rounds best σ₃)
    (hr : (g.rule r).guard = some guard)
    (harrive : arrive guard.name guard.registry s σ = (.ok arrival, σ₁))
    (hidle : arrival.active = false) (hbegin : arrival.begin s σ₁ = (.ok (call, s'), σ₂))
    {round : Round} (hmem : round ∈ rounds) :
    g.Leads ⟨depth + 1, .ref r, s, σ⟩ ⟨depth, (g.rule r).body, s', round.first⟩ := by
  obtain ⟨k, hk⟩ := List.mem_iff_getElem?.1 hmem
  exact .guarded hr harrive hidle hbegin (h.evaluates_iff.2 ⟨round, hk, rfl⟩)

end Call.Passes

end SeedGrowth
