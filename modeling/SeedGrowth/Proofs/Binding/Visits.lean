import SeedGrowth.Proofs.Binding.Guarded
import SeedGrowth.Proofs.Run.Invariant

/-!
# Visits inside guarded calls

Every combinator reads as it does in scope if calls of rules do, as long as no visit is misled:
a visit is if it calls a guarded rule that finds its flag set, although no call of the rule is
unfinished where it is. Then the flag was lit by a call of a rule of another registry.
-/
namespace SeedGrowth

variable {ρ : Type} {B : Bindings ρ} {v₀ : Visit ρ} {calls : List (OpenCall ρ)} {σ : Session}

/-- The guarded rule that the visit calls, and where. -/
def Visit.enters (g : Grammar ρ) (v : Visit ρ) : List (ρ × Nat) :=
  match v.parser with
  | .ref r => if (g.rule r).guard.isSome then [(r, v.cursor.remaining)] else []
  | _ => []

/-- The first visit leads to the other one inside these guarded calls, the last one first. -/
inductive Grammar.LeadsInside (g : Grammar ρ) (v₀ : Visit ρ) : Visit ρ → List (ρ × Nat) → Prop
  | start : g.LeadsInside v₀ v₀ []
  | step {v v' places} : g.LeadsInside v₀ v places → g.Leads v v' →
      g.LeadsInside v₀ v' (v.enters g ++ places)

/-- The visit calls a guarded rule that finds its flag set, and none of the calls that it is
inside of is one of the rule at the position. -/
inductive Grammar.Misleads (g : Grammar ρ) : Visit ρ → List (ρ × Nat) → Prop
  | flag {depth r s σ guard arrival σ' places} : (g.rule r).guard = some guard →
      arrive guard.name guard.registry s σ = (.ok arrival, σ') → arrival.active = true →
      (r, s.remaining) ∉ places → g.Misleads ⟨depth + 1, .ref r, s, σ⟩ places

/-- The rule of an open call, and where it began. -/
def OpenCall.place (c : OpenCall ρ) : ρ × Nat := (c.rule, c.position)

variable [DecidableEq ρ]

/-- Evaluations of the parser on the way from a visit read as they do in the scope of the open
calls. -/
def Bindings.ReadsAt (B : Bindings ρ) (v₀ : Visit ρ) (depth : Nat) (parser : Parser ρ) : Prop :=
  ∀ {calls : List (OpenCall ρ)} {σ : Session} {s : Cursor} {scope : Scope ρ},
    B.setting.grammar.LeadsInside v₀ ⟨depth, parser, s, σ⟩ (calls.map OpenCall.place) →
    σ.Agrees B calls → s.Shows B.setting calls → scope.Covers id ⟨σ, calls, []⟩ →
    s.remaining ≤ scope.position →
    B.Reads σ.frames.size calls σ (parser.eval (B.setting.grammar.call depth) s)
      (parser.read (B.setting.grammar.readCall id depth scope) s.point) (Option.map Match.found)
      (Shown B.setting calls s.remaining)

namespace Parser

variable {depth : Nat} {scope : Scope ρ}

omit [DecidableEq ρ] in
/-- A match of the next characters shows what the cursor did. -/
theorem shown_matchNext {s : Cursor} (hs : s.Shows B.setting calls) {count : Nat}
    (hc : count ≤ s.remaining) :
    Shown B.setting calls s.remaining (some (matchNext s count)) :=
  (matchNext_taken hs hc).shown

/-- Repetition reads as in scope: offsets agree if and only if as much text is left. -/
theorem repeatWhile_reads {parser : Parser ρ} (hp : B.ReadsAt v₀ depth parser) :
    ∀ (rounds : Nat) {σ : Session} {s : Cursor},
      B.setting.grammar.LeadsInside v₀ ⟨depth, .many parser, s, σ⟩ (calls.map OpenCall.place) →
      σ.Agrees B calls → s.Shows B.setting calls → scope.Covers id ⟨σ, calls, []⟩ →
      s.remaining ≤ scope.position →
      B.Reads σ.frames.size calls σ
        (repeatWhile (parser.eval (B.setting.grammar.call depth)) rounds s)
        (readRepeat (parser.read (B.setting.grammar.readCall id depth scope)) rounds s.point)
        (fun (rest, values) => (rest.point, values))
        fun (rest, _) => rest.Shows B.setting calls ∧ rest.remaining ≤ s.remaining := by
  intro rounds
  induction rounds with
  | zero => exact fun _ h _ _ _ => .exhausted h
  | succ rounds ih =>
    intro σ s hv h hs hscope hle
    rw [repeatWhile, readRepeat]
    refine .bind (hp (hv.step .many) h hs hscope hle) fun result σ₁ hrun hk hshown => ?_
    cases result with
    | none => exact .pure hk.agrees rfl ⟨hs, le_rfl⟩
    | some m =>
      obtain ⟨hrest, hrestle⟩ := hshown m rfl
      have htotal := hs.total_eq
      have htotal' := hrest.total_eq
      have hiff : m.rest.place.offset = s.place.offset ↔
          m.found.rest.remaining = s.point.remaining := by
        change _ ↔ m.rest.remaining = s.remaining
        omega
      dsimp only [Option.map_some]
      by_cases hoffset : m.rest.place.offset = s.place.offset
      · rw [if_pos hoffset, if_pos (hiff.1 hoffset)]
        exact .pure hk.agrees rfl ⟨hs, le_rfl⟩
      · rw [if_neg hoffset, if_neg fun heq => hoffset (hiff.2 heq)]
        have hrounds := ih (hv.step (.further hrun hoffset)) hk.agrees hrest (hk.covers h hscope)
          (hrestle.trans hle)
        refine .bind (hrounds.weaken hk.size_le) ?_
        rintro ⟨rest, values⟩ σ₂ - hk₂ hpost
        exact .pure hk₂.agrees rfl ⟨hpost.1, hpost.2.trans hrestle⟩

mutual

/-- Combinators read as in scope if calls of rules do. -/
theorem eval_reads (hc : ∀ r, B.ReadsAt v₀ depth (.ref r)) :
    ∀ parser : Parser ρ, parser.isCombinator = true → B.ReadsAt v₀ depth parser
  | tag text, _, calls, σ, s, scope, _, h, hs, _, _ => by
    refine .pure h ?_ ?_
    · change Option.map Match.found (if text.isPrefixOf s.fragment then _ else _) =
        if text.isPrefixOf s.fragment then _ else _
      split <;> rfl
    · split
      · next hp => exact shown_matchNext hs (List.isPrefixOf_iff_prefix.1 hp).length_le
      · exact .none _ _ _
  | scanner rule, _, calls, σ, s, scope, _, h, hs, _, _ => by
    refine .pure h ?_ ?_
    · rw [Option.map_map]
      rfl
    · cases hscan : rule.scan s.fragment with
      | none => exact .none _ _ _
      | some count => exact shown_matchNext hs (rule.scan_le hscan)
  | eof, _, calls, σ, s, scope, _, h, hs, _, _ => by
    refine .pure h ?_ ?_
    · change Option.map Match.found (if s.fragment.isEmpty then _ else _) =
        if s.fragment.isEmpty then _ else _
      split <;> rfl
    · split
      · exact .some hs le_rfl
      · exact .none _ _ _
  | alt branches, hp, calls, σ, s, scope, hv, h, hs, hscope, hle =>
    evalFirst_reads hc branches hp hv h hs hscope hle
  | sequence items, hp, calls, σ, s, scope, hv, h, hs, hscope, hle => by
    refine .bind (evalAll_reads hc items hp hv h hs hscope hle) fun result σ₁ _ hk hpost => ?_
    cases result with
    | none => exact .pure hk.agrees rfl (.none _ _ _)
    | some answer =>
      obtain ⟨hrest, hrestle⟩ := hpost answer.1 answer.2 rfl
      exact .pure hk.agrees rfl (.some hrest hrestle)
  | mapped parser change, hp, calls, σ, s, scope, hv, h, hs, hscope, hle => by
    refine .bind (eval_reads hc parser hp (hv.step .mapped) h hs hscope hle)
      fun result σ₁ _ hk hshown => ?_
    cases result with
    | none => exact .pure hk.agrees rfl (.none _ _ _)
    | some m =>
      obtain ⟨hrest, hrestle⟩ := hshown m rfl
      exact .bind (.lift hk.agrees (change m.value)) fun value σ₂ _ hk₂ _ =>
        .pure hk₂.agrees rfl (.some hrest hrestle)
  | opt parser, hp, calls, σ, s, scope, hv, h, hs, hscope, hle => by
    refine .bind (eval_reads hc parser hp (hv.step .opt) h hs hscope hle)
      fun result σ₁ _ hk hshown => ?_
    cases result with
    | none => exact .pure hk.agrees rfl (.some hs le_rfl)
    | some m => exact .pure hk.agrees rfl hshown
  | many parser, hp, calls, σ, s, scope, hv, h, hs, hscope, hle =>
    .bind (repeatWhile_reads (eval_reads hc parser hp) _ hv h hs hscope hle)
      fun (_, _) _ _ hk hpost => .pure hk.agrees rfl (.some hpost.1 hpost.2)
  | ref r, _, calls, σ, s, scope, hv, h, hs, hscope, hle => hc r hv h hs hscope hle
  | peek _, hp, _, _, _, _, _, _, _, _, _ | absent _, hp, _, _, _, _, _, _, _, _, _
  | .edit _, hp, _, _, _, _, _, _, _, _, _ | reveal, hp, _, _, _, _, _, _, _, _, _
  | probe _, hp, _, _, _, _, _, _, _, _, _ | .watch _ _, hp, _, _, _, _, _, _, _, _, _ =>
    absurd hp Bool.false_ne_true

theorem evalFirst_reads (hc : ∀ r, B.ReadsAt v₀ depth (.ref r)) :
    ∀ branches : List (Parser ρ), areCombinators branches = true →
      ∀ {calls : List (OpenCall ρ)} {σ : Session} {s : Cursor} {scope : Scope ρ},
      B.setting.grammar.LeadsInside v₀ ⟨depth, .alt branches, s, σ⟩ (calls.map OpenCall.place) →
      σ.Agrees B calls → s.Shows B.setting calls → scope.Covers id ⟨σ, calls, []⟩ →
      s.remaining ≤ scope.position →
      B.Reads σ.frames.size calls σ (evalFirst (B.setting.grammar.call depth) branches s)
        (readFirst (B.setting.grammar.readCall id depth scope) branches s.point)
        (Option.map Match.found) (Shown B.setting calls s.remaining)
  | [], _, _, _, _, _, _, h, _, _, _ => .pure h rfl (.none _ _ _)
  | parser :: rest, hp, calls, σ, s, scope, hv, h, hs, hscope, hle => by
    obtain ⟨hparser, hrest⟩ := Bool.and_eq_true_iff.1 hp
    refine .bind (eval_reads hc parser hparser (hv.step .branch) h hs hscope hle)
      fun result σ₁ hrun hk hshown => ?_
    cases result with
    | none =>
      exact (evalFirst_reads hc rest hrest (hv.step (.otherwise hrun)) hk.agrees hs
        (hk.covers h hscope) hle).weaken hk.size_le
    | some m => exact .pure hk.agrees rfl hshown

theorem evalAll_reads (hc : ∀ r, B.ReadsAt v₀ depth (.ref r)) :
    ∀ items : List (Parser ρ), areCombinators items = true →
      ∀ {calls : List (OpenCall ρ)} {σ : Session} {s : Cursor} {scope : Scope ρ},
      B.setting.grammar.LeadsInside v₀ ⟨depth, .sequence items, s, σ⟩ (calls.map OpenCall.place) →
      σ.Agrees B calls → s.Shows B.setting calls → scope.Covers id ⟨σ, calls, []⟩ →
      s.remaining ≤ scope.position →
      B.Reads σ.frames.size calls σ (evalAll (B.setting.grammar.call depth) items s)
        (readAll (B.setting.grammar.readCall id depth scope) items s.point)
        (Option.map fun (rest, values) => (rest.point, values))
        fun result => ∀ rest values, result = some (rest, values) →
          rest.Shows B.setting calls ∧ rest.remaining ≤ s.remaining
  | [], _, _, _, _, _, _, h, hs, _, _ => by
    refine .pure h rfl fun rest values heq => ?_
    cases heq
    exact ⟨hs, le_rfl⟩
  | parser :: rest, hp, calls, σ, s, scope, hv, h, hs, hscope, hle => by
    obtain ⟨hparser, hrest⟩ := Bool.and_eq_true_iff.1 hp
    refine .bind (eval_reads hc parser hparser (hv.step .item) h hs hscope hle)
      fun result σ₁ hrun hk hshown => ?_
    cases result with
    | none => exact .pure hk.agrees rfl fun _ _ heq => nomatch heq
    | some m =>
      obtain ⟨hm, hmle⟩ := hshown m rfl
      have hitems := evalAll_reads hc rest hrest (hv.step (.after hrun)) hk.agrees hm
        (hk.covers h hscope) (hmle.trans hle)
      refine .bind (hitems.weaken hk.size_le) fun answer σ₂ _ hk₂ hpost => ?_
      cases answer with
      | none => exact .pure hk₂.agrees rfl fun _ _ heq => nomatch heq
      | some answer =>
        refine .pure hk₂.agrees rfl fun last values heq => ?_
        cases heq
        obtain ⟨hlast, hlastle⟩ := hpost answer.1 answer.2 rfl
        exact ⟨hlast, hlastle.trans hmle⟩

end

end Parser

omit [DecidableEq ρ] in
theorem Visit.enters_guarded {g : Grammar ρ} {r : ρ} {guard : Guard}
    (hr : (g.rule r).guard = some guard) (depth : Nat) (s : Cursor) (σ : Session) :
    Visit.enters g ⟨depth, .ref r, s, σ⟩ = [(r, s.remaining)] := by
  simp [enters, hr]

omit [DecidableEq ρ] in
theorem Visit.enters_plain {g : Grammar ρ} {r : ρ} (hr : (g.rule r).guard = none) (depth : Nat)
    (s : Cursor) (σ : Session) : Visit.enters g ⟨depth, .ref r, s, σ⟩ = [] := by
  simp [enters, hr]

/-- A call of a plain rule reads as its body does, since no open call is one of the rule. -/
theorem Bindings.ReadsAt.plain {depth : Nat} {r : ρ}
    (hbody : B.ReadsAt v₀ depth (B.setting.grammar.rule r).body)
    (hr : (B.setting.grammar.rule r).guard = none) : B.ReadsAt v₀ (depth + 1) (.ref r) := by
  intro calls σ s scope hv h hs hscope hle
  have hidle : ∀ c ∈ calls, c.rule = r → c.position ≠ s.remaining := by
    rintro c hc rfl
    obtain ⟨⟨i, id⟩, hseat⟩ := Option.isSome_iff_exists.1 (h.guarded c hc)
    obtain ⟨guard, hguard, -⟩ := (h.seated c hc i id hseat).named
    rw [Grammar.guard_of_servedBy hguard] at hr
    cases hr
  have hpoint : s.point.remaining = s.remaining := rfl
  have hplaces := hv.step (.plain hr)
  rw [Visit.enters_plain hr] at hplaces
  rw [Parser.eval, Grammar.call, Parser.read, Grammar.readCall]
  unfold Grammar.readRule
  rw [hr, hpoint]
  exact .ask hidle (hbody hplaces h hs (hscope.movedTo hle) (scope.position_movedTo _).ge)

/-- A call of a guarded rule reads as in scope unless it is misled. -/
theorem Bindings.ReadsAt.guarded {depth : Nat} {r : ρ} {guard : Guard}
    (hbody : B.ReadsAt v₀ depth (B.setting.grammar.rule r).body)
    (hr : (B.setting.grammar.rule r).guard = some guard)
    (hled : ∀ v places, B.setting.grammar.LeadsInside v₀ v places →
      ¬ B.setting.grammar.Misleads v places) : B.ReadsAt v₀ (depth + 1) (.ref r) := by
  intro calls σ s scope hv h hs hscope hle
  rw [Parser.eval, Grammar.call, hr]
  refine guarded_reads h hr hs hscope hle le_rfl (fun arrival σ₁ harrive hactive => ?_) ?_
  · by_contra hnone
    refine hled _ _ hv (.flag hr harrive hactive fun hmem => hnone ?_)
    obtain ⟨c, hc, hplace⟩ := List.mem_map.1 hmem
    exact ⟨c, hc, congrArg Prod.fst hplace, congrArg Prod.snd hplace⟩
  · intro arrival σ₁ call s' σ₂ round σ₃ scope' harrive hactive hbegin hb hround h' hscope' hp'
    have hplaces := hv.step (.guarded hr harrive hactive hbegin hround)
    rw [Visit.enters_guarded hr, ← hb.position_eq] at hplaces
    have hremaining : s'.remaining = call.position :=
      (congrArg Point.remaining hb.point_eq).trans hb.position_eq.symm
    have hreads := hbody hplaces h' hb.shows hscope' (by rw [hremaining, hp', hb.position_eq])
    rw [hremaining, hb.point_eq] at hreads
    exact hreads

/-- Calls of rules read as in scope if no visit is misled. -/
theorem Bindings.calls_readAt
    (hled : ∀ v places, B.setting.grammar.LeadsInside v₀ v places →
      ¬ B.setting.grammar.Misleads v places) (depth : Nat) :
    ∀ r, B.ReadsAt v₀ depth (.ref r) := by
  induction depth with
  | zero => exact fun _ _ _ _ _ _ h _ _ _ => .exhausted h
  | succ depth ih =>
    intro r calls σ s scope
    have hbody : B.ReadsAt v₀ depth (B.setting.grammar.rule r).body :=
      Parser.eval_reads ih _ (B.setting.combinators r)
    cases hr : (B.setting.grammar.rule r).guard with
    | none => exact hbody.plain hr
    | some guard => exact hbody.guarded hr hled

end SeedGrowth
