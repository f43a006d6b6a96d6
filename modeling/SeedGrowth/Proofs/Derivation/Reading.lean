import SeedGrowth.Proofs.Derivation.Basic
import SeedGrowth.Proofs.Scope.Extension
import SeedGrowth.Proofs.Scope.Points

/-!
# Readings are derivations

What an evaluation by scopes finds is a derivation of the text that it goes over. A call of
a rule in scope is answered with a result of that rule at that very point, so it is enough
that scopes hold derivations; and what the body of a rule derives, the rule derives. How
often the body was evaluated, and which results were taken up on the way, does not matter.
-/
namespace SeedGrowth

variable {ρ κ α β : Type}

namespace Account

/-- If the evaluation has an answer, that is as stated. -/
def Gives (x : Account κ α) (post : α → Prop) : Prop := ∀ a, x.outcome = .ok a → post a

namespace Gives

variable {post : α → Prop}

theorem pure {a : α} (h : post a) : (Pure.pure a : Account κ α).Gives post := by
  intro a' ha
  cases ha
  exact h

theorem exhausted : (Account.exhausted : Account κ α).Gives post := by
  intro a ha
  cases ha

theorem lift (x : Except Fault α) : (Account.lift x : Account κ α).Gives fun a => x = .ok a := by
  intro a ha
  cases x with
  | ok b =>
    cases ha
    rfl
  | error fault => cases ha

theorem bind {x : Account κ α} {f : α → Account κ β} {post' : β → Prop} (hx : x.Gives post)
    (hf : ∀ a, post a → (f a).Gives post') : (x >>= f).Gives post' := by
  intro b hb
  cases houtcome : x.outcome with
  | error stop =>
    rw [bind_error houtcome] at hb
    cases hb
  | ok a =>
    rw [bind_ok houtcome] at hb
    exact hf a (hx a houtcome) b hb

theorem ask (key : κ) (position : Nat) : (Account.ask key position).Gives fun _ => True :=
  fun _ _ => trivial

theorem listen {x : Account κ α} (h : x.Gives post) : x.listen.Gives fun (a, _) => post a := by
  intro (a, asked) ha
  obtain ⟨outcome, asked'⟩ := x
  cases outcome with
  | ok b =>
    cases ha
    exact h a rfl
  | error stop => cases ha

end Gives

end Account

/-- Nothing is found, or what the parser derives from the text before the match. -/
inductive Grammar.DerivesAt (g : Grammar ρ) (parser : Parser ρ) (s : Point) :
    Option Found → Prop where
  | none : DerivesAt g parser s none
  | some {m : Found} {text : List Char} : s.Over text m.rest →
      g.Derives parser text m.rest.fragment m.value → DerivesAt g parser s (some m)

namespace Parser

variable {g : Grammar ρ}

/-- The next characters are derived, if they are ahead and the parser derives them there. -/
theorem derivesAt_next {parser : Parser ρ} {s : Point} {count : Nat}
    (h : g.Derives parser (s.fragment.take count) (s.fragment.drop count)
      (.text (String.ofList (s.fragment.take count)))) :
    g.DerivesAt parser s (some (s.next count)) :=
  .some (s.over_advance count) h

variable {reached : Point → Prop} {call : ρ → Point → Account κ (Option Found)}

theorem readRepeat_gives {parser : Parser ρ} {x : Point → Account κ (Option Found)}
    (hmono : ∀ {s text s'}, reached s → s.Over text s' → reached s')
    (hx : ∀ s, reached s → (x s).Gives (g.DerivesAt parser s)) :
    ∀ (rounds : Nat) (s : Point), reached s → (readRepeat x rounds s).Gives fun (rest, values) =>
      ∃ text, s.Over text rest ∧ g.DerivesEach parser text rest.fragment values := by
  intro rounds
  induction rounds with
  | zero => exact fun _ _ => .exhausted
  | succ rounds ih =>
    intro s hs
    have hstop : ∃ text, s.Over text s ∧ g.DerivesEach parser text s.fragment [] :=
      ⟨[], .refl s, .nil parser s.fragment⟩
    rw [readRepeat]
    refine .bind (hx s hs) ?_
    rintro _ (_ | @⟨m, text, hover, hderives⟩)
    · exact .pure hstop
    · dsimp only
      split
      · exact .pure hstop
      · next hmoved =>
        have htext : text ≠ [] := by
          rintro rfl
          exact hmoved (by simpa using hover.remaining_eq.symm)
        refine .bind (ih m.rest (hmono hs hover)) ?_
        rintro ⟨rest, values⟩ ⟨text', hover', heach⟩
        exact .pure ⟨text ++ text', hover.trans hover',
          .cons htext (hover'.fragment_eq ▸ hderives) heach⟩

mutual

/-- Parsers read derivations if calls of rules do. -/
theorem read_gives (hmono : ∀ {s text s'}, reached s → s.Over text s' → reached s')
    (hcall : ∀ r s, reached s → (call r s).Gives (g.DerivesAt (.ref r) s)) :
    ∀ (parser : Parser ρ) (s : Point), reached s →
      (parser.read call s).Gives (g.DerivesAt parser s)
  | tag text, s, _ => by
    refine .pure ?_
    split
    · next hprefix =>
      obtain ⟨rest, hrest⟩ := List.isPrefixOf_iff_prefix.1 hprefix
      refine derivesAt_next ?_
      rw [← hrest, List.take_left, List.drop_left]
      exact .tag text rest
    · exact .none
  | scanner rule, s, _ => by
    refine .pure ?_
    cases hscan : rule.scan s.fragment with
    | none => exact .none
    | some count =>
      refine derivesAt_next (.scanner ?_)
      rw [List.take_append_drop, List.length_take_of_le (rule.scan_le hscan), hscan]
  | eof, s, _ => by
    refine .pure ?_
    split
    · next hempty =>
      have hnil : s.fragment = [] := List.isEmpty_iff.1 hempty
      exact .some (.refl s) (by rw [hnil]; exact .eof)
    · exact .none
  | alt branches, s, hs => readFirst_gives hmono hcall branches s hs fun _ => id
  | sequence items, s, hs => by
    refine .bind (readAll_gives hmono hcall items s hs) ?_
    rintro (_ | ⟨rest, values⟩) hrow
    · exact .pure .none
    · obtain ⟨text, hover, hderives⟩ := hrow rest values rfl
      exact .pure (.some hover (.sequence hderives))
  | mapped parser change, s, hs => by
    refine .bind (read_gives hmono hcall parser s hs) ?_
    rintro _ (_ | ⟨hover, hderives⟩)
    · exact .pure .none
    · exact .bind (.lift (change _)) fun w hw => .pure (.some hover (.mapped hderives hw))
  | opt parser, s, hs => by
    refine .bind (read_gives hmono hcall parser s hs) ?_
    rintro _ (_ | ⟨hover, hderives⟩)
    · exact .pure (.some (.refl s) (.nothing parser s.fragment))
    · exact .pure (.some hover (.taken hderives))
  | many parser, s, hs => by
    refine .bind (readRepeat_gives hmono (read_gives hmono hcall parser) _ s hs) ?_
    rintro ⟨rest, values⟩ ⟨text, hover, heach⟩
    exact .pure (.some hover (.many heach))
  | ref r, s, hs => hcall r s hs
  | peek _, _, _ | absent _, _, _ | .edit _, _, _ | reveal, _, _ | probe _, _, _
  | watch _ _, _, _ => .pure .none

/-- The first match among some branches is derived from any parser that has them. -/
theorem readFirst_gives (hmono : ∀ {s text s'}, reached s → s.Over text s' → reached s')
    (hcall : ∀ r s, reached s → (call r s).Gives (g.DerivesAt (.ref r) s)) {all : List (Parser ρ)} :
    ∀ (branches : List (Parser ρ)) (s : Point), reached s → (∀ p, p ∈ branches → p ∈ all) →
      (readFirst call branches s).Gives (g.DerivesAt (.alt all) s)
  | [], _, _, _ => .pure .none
  | parser :: rest, s, hs, hall => by
    refine .bind (read_gives hmono hcall parser s hs) ?_
    rintro _ (_ | ⟨hover, hderives⟩)
    · exact readFirst_gives hmono hcall rest s hs fun p hp => hall p (List.mem_cons_of_mem _ hp)
    · exact .pure (.some hover (.alt (hall parser List.mem_cons_self) hderives))

theorem readAll_gives (hmono : ∀ {s text s'}, reached s → s.Over text s' → reached s')
    (hcall : ∀ r s, reached s → (call r s).Gives (g.DerivesAt (.ref r) s)) :
    ∀ (items : List (Parser ρ)) (s : Point), reached s →
      (readAll call items s).Gives fun result => ∀ rest values, result = some (rest, values) →
        ∃ text, s.Over text rest ∧ g.DerivesRow items text rest.fragment values
  | [], s, _ => by
    refine .pure fun rest values h => ?_
    cases h
    exact ⟨[], .refl s, .nil s.fragment⟩
  | parser :: items, s, hs => by
    refine .bind (read_gives hmono hcall parser s hs) ?_
    rintro _ (_ | @⟨m, text, hover, hderives⟩)
    · exact .pure fun _ _ h => nomatch h
    · refine .bind (readAll_gives hmono hcall items m.rest (hmono hs hover)) ?_
      rintro (_ | ⟨last, values⟩) hrow
      · exact .pure fun _ _ h => nomatch h
      · obtain ⟨text', hover', hderives'⟩ := hrow last values rfl
        refine .pure fun rest values' h => ?_
        cases h
        exact ⟨text ++ text', hover.trans hover', .cons (hover'.fragment_eq ▸ hderives) hderives'⟩

end

end Parser

namespace Scope

variable {g : Grammar ρ}

/-- The scope belongs to the point or to one before it, and if to the point, then what it holds
of a rule is derived from that rule. -/
structure Derived (g : Grammar ρ) (scope : Scope ρ) (s : Point) : Prop where
  remaining_le : s.remaining ≤ scope.position
  best : scope.position = s.remaining → ∀ r best, scope.best r = some best →
    g.DerivesAt (.ref r) s best

theorem Derived.empty (g : Grammar ρ) (s : Point) :
    (Scope.empty s.remaining : Scope ρ).Derived g s :=
  ⟨le_rfl, fun _ _ _ h => nomatch h⟩

/-- Over some text nothing is left to be said, and over none nothing has changed. -/
theorem Derived.mono {scope : Scope ρ} {s s' : Point} {text : List Char}
    (h : scope.Derived g s) (hover : s.Over text s') : scope.Derived g s' := by
  have hle := h.remaining_le
  have hremaining := hover.remaining_eq
  refine ⟨by omega, fun hposition => ?_⟩
  have htext : text = [] := List.eq_nil_of_length_eq_zero (by omega)
  subst htext
  obtain rfl := hover.unique (.refl s)
  exact h.best hposition

theorem Derived.movedTo {scope : Scope ρ} {s : Point} (h : scope.Derived g s) :
    (scope.movedTo s.remaining).Derived g s := by
  unfold Scope.movedTo
  split
  · exact h
  · exact .empty g s

theorem Derived.add [DecidableEq ρ] {scope : Scope ρ} {s : Point} (h : scope.Derived g s) {r : ρ}
    {best : Option Found} (hbest : g.DerivesAt (.ref r) s best) :
    (scope.add r best).Derived g s := by
  refine ⟨h.remaining_le, fun hposition r' best' hbest' => ?_⟩
  by_cases hr : r' = r
  · subst hr
    have heq : some best = some best' := (if_pos rfl).symm.trans hbest'
    cases heq
    exact hbest
  · exact h.best hposition r' best' ((if_neg hr).symm.trans hbest')

/-- However results grow, the one that is kept was given by the body or was the best before. -/
theorem grow_gives {position : Nat} {body : Option Found → Account κ (Option Found)}
    {post : Option Found → Prop} (hbody : ∀ best, post best → (body best).Gives post) :
    ∀ (rounds : Nat) (best result : Option Found), post best → post result →
      (grow position body rounds best result).Gives post := by
  intro rounds
  induction rounds with
  | zero =>
    intro best result hbest _
    rw [grow]
    split
    · exact .pure hbest
    · exact .exhausted
  | succ rounds ih =>
    intro best result hbest hresult
    rw [grow]
    split
    · exact .pure hbest
    · next m hm =>
      have heq : result = some m := (Option.filter_eq_some_iff.1 hm).1
      have hm' : post (some m) := heq ▸ hresult
      exact .bind (hbody (some m) hm') fun result' hresult' => ih _ _ hm' hresult'

theorem evaluate_gives [DecidableEq κ] {key : κ} {position : Nat}
    {body : Option Found → Account κ (Option Found)} {post : Option Found → Prop}
    (hnone : post none) (hbody : ∀ best, post best → (body best).Gives post) :
    (evaluate key position body).Gives post := by
  refine .bind (.listen (hbody none hnone)) ?_
  rintro ⟨result, asked⟩ hresult
  dsimp only
  split
  · exact grow_gives hbody _ _ _ hnone hresult
  · exact .pure hresult

end Scope

namespace Grammar

variable {g : Grammar ρ}

/-- What the body of a rule derives, the rule derives. -/
theorem DerivesAt.ref {r : ρ} {s : Point} {result : Option Found}
    (h : g.DerivesAt (g.rule r).body s result) : g.DerivesAt (.ref r) s result := by
  cases h with
  | none => exact .none
  | some hover hderives => exact .some hover (.ref hderives)

variable [DecidableEq ρ]

/-- Calls of rules read derivations, if the scope holds derivations. -/
theorem readCall_gives (depth : Nat) : ∀ (scope : Scope ρ) (r : ρ) (s : Point),
    scope.Derived g s → (g.readCall id depth scope r s).Gives (g.DerivesAt (.ref r) s) := by
  induction depth with
  | zero => exact fun _ _ _ _ => .exhausted
  | succ depth ih =>
    intro scope r s hscope
    have hmoved := hscope.movedTo
    have hbody : ∀ scope : Scope ρ, scope.Derived g s →
        ((g.rule r).body.read (g.readCall id depth scope) s).Gives (g.DerivesAt (.ref r) s) := by
      intro scope hscope result hresult
      exact (Parser.read_gives Scope.Derived.mono (ih scope) _ s hscope result hresult).ref
    rw [readCall]
    unfold readRule
    refine .bind (.ask _ _) fun _ _ => ?_
    dsimp only
    split
    · exact hbody _ hmoved
    · split
      · next best hbest =>
        exact .pure (hmoved.best (scope.position_movedTo _) r best hbest)
      · exact Scope.evaluate_gives .none fun best hbest => hbody _ (hmoved.add hbest)

/-- An evaluation by scopes finds derivations. -/
theorem read_gives (depth : Nat) (parser : Parser ρ) (s : Point) :
    (g.read id depth parser s).Gives (g.DerivesAt parser s) :=
  Parser.read_gives Scope.Derived.mono (readCall_gives depth (.empty s.remaining)) parser s
    (.empty g s)

end Grammar

end SeedGrowth
