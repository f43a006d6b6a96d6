import SeedGrowth.Proofs.Run.Erasure
import SeedGrowth.Proofs.Run.Invariant
import SeedGrowth.Proofs.Visit.Basic
import SeedGrowth.Proofs.Visit.Covered

/-!
# Matches stay within their cursors

A visit of a run fits a state of the run that is coherent and in which the best match of
every open call is covered by that call and those around it. From such a state a parser
gives a match that has no flags and frames but those of the cursor: by induction over the
parser, and for calls over how deep they may be nested, since what a visit leads to fits
again. A match that is kept as a seed holds the flags of calls that are not finished, but
it is handed out inside those calls alone.
-/
namespace SeedGrowth

variable {ρ : Type} {S : Setting ρ}

/-- The best match of every open call is covered by the call and those around it. -/
def Run.Seeded (run : Run ρ) : Prop :=
  ∀ c outer, c :: outer <:+ run.calls → ∀ i id, c.seat = some (i, id) →
    ∀ m, (run.session.frame id).best = some m → m.rest.CoveredBy (c :: outer) c.position

/-- As long as open calls keep their best matches, those are covered. -/
theorem Run.Seeded.of_best {run run' : Run ρ} (h : run.Seeded) (hcalls : run'.calls = run.calls)
    (hbest : ∀ c ∈ run.calls, ∀ i id, c.seat = some (i, id) →
      (run'.session.frame id).best = (run.session.frame id).best) : run'.Seeded := by
  intro c outer hsuffix i id hseat m hm
  rw [hcalls] at hsuffix
  rw [hbest c (hsuffix.subset List.mem_cons_self) i id hseat] at hm
  exact h c outer hsuffix i id hseat m hm

/-- The best matches are covered if that of the innermost call is, and those of the calls
around it are. -/
theorem Run.Seeded.cons {run : Run ρ} {c : OpenCall ρ} {outer : List (OpenCall ρ)}
    (hcalls : run.calls = c :: outer)
    (hinner : ∀ i id, c.seat = some (i, id) → ∀ m, (run.session.frame id).best = some m →
      m.rest.CoveredBy (c :: outer) c.position)
    (houter : Run.Seeded { run with calls := outer }) : run.Seeded := by
  intro d outer' hsuffix
  rw [hcalls] at hsuffix
  rcases List.suffix_cons_iff.1 hsuffix with heq | hsuffix
  · cases heq
    exact hinner
  · exact houter d outer' hsuffix

/-- Inside the calls around the innermost one, the best matches are still covered. -/
theorem Run.Seeded.outer {run : Run ρ} {c : OpenCall ρ} {outer : List (OpenCall ρ)}
    (h : run.Seeded) (hcalls : run.calls = c :: outer) : Run.Seeded { run with calls := outer } :=
  fun d outer' hsuffix => h d outer' (hcalls ▸ hsuffix.trans (List.suffix_cons _ _))

/-- Parts of a run that keep the frames there are keep seeds covered. -/
theorem Run.Seeded.kept {run run' : Run ρ} (h : run.Seeded) (hs : run.Sound S)
    (hk : Kept S run.session.frames.size run run') : run'.Seeded := by
  refine h.of_best hk.calls_eq fun c hc i id hseat => ?_
  exact (hk.frame_eq id (hs.seated c hc i id hseat).lt_size).best_eq

namespace Visit

variable {v : Visit ρ} {run : Run ρ}

/-- The visit fits the state of a run. -/
structure Fits (S : Setting ρ) (v : Visit ρ) (run : Run ρ) : Prop where
  session_eq : run.session = v.session
  sound : run.Sound S
  seeded : run.Seeded
  shows : v.cursor.Shows S run.calls
  heads : Heads S run.calls v.cursor v.parser.heads
  depth_eq : v.depth + run.calls.length = S.depth
  combinator : v.parser.isCombinator = true

/-- After an evaluation that goes well, the run is in a state as before, and the match
shows the open calls. -/
theorem Fits.eval (h : v.Fits S run) {result : Option Match} {σ : Session}
    (hv : v.eval S.grammar = (.ok result, σ)) :
    ∃ run', run'.session = σ ∧ Kept S run.session.frames.size run run' ∧ run'.Seeded ∧
      Taken S run.calls v.cursor v.parser.least result := by
  obtain ⟨answer, run', hrun, hkept, -, htaken⟩ := Parser.follow_yields
    (Grammar.followCall_yields S v.depth) v.parser h.combinator le_rfl h.sound h.depth_eq h.shows
    h.heads
  have heval := S.grammar.eval_of_follow hrun
  rw [h.session_eq] at heval
  obtain ⟨hanswer, hsession⟩ := Prod.mk.inj (heval.symm.trans hv)
  exact ⟨run', hsession, hkept, h.seeded.kept h.sound hkept, htaken result hanswer⟩

/-- A later visit inside the same calls. -/
theorem Fits.later (h : v.Fits S run) {older : Nat} {run' : Run ρ} (hk : Kept S older run run')
    (hseeded : run'.Seeded) {parser : Parser ρ} {s : Cursor} (hs : s.Shows S run.calls)
    (hr : Heads S run.calls s parser.heads) (hp : parser.isCombinator = true) :
    Fits S ⟨v.depth, parser, s, run'.session⟩ run' := by
  have hcalls := hk.calls_eq
  exact ⟨rfl, hk.sound, hseeded, hcalls ▸ hs, hcalls ▸ hr, hcalls ▸ h.depth_eq, hp⟩

/-- A visit of a part of the parser. -/
theorem Fits.part (h : v.Fits S run) {parser : Parser ρ} (hr : parser.heads ⊆ v.parser.heads)
    (hp : parser.isCombinator = true) : Fits S ⟨v.depth, parser, v.cursor, v.session⟩ run :=
  ⟨h.session_eq, h.sound, h.seeded, h.shows, h.heads.mono hr, h.depth_eq, hp⟩

section

variable {depth : Nat} {parser : Parser ρ} {rest : List (Parser ρ)} {s : Cursor} {σ : Session}

theorem Fits.branch (h : Fits S ⟨depth, .alt (parser :: rest), s, σ⟩ run) :
    Fits S ⟨depth, parser, s, σ⟩ run :=
  h.part (List.subset_append_left _ _) (Bool.and_eq_true_iff.1 h.combinator).1

theorem Fits.otherwise (h : Fits S ⟨depth, .alt (parser :: rest), s, σ⟩ run) {σ' : Session}
    (hv : Visit.eval S.grammar ⟨depth, parser, s, σ⟩ = (.ok none, σ')) :
    ∃ run', Fits S ⟨depth, .alt rest, s, σ'⟩ run' := by
  obtain ⟨run', rfl, hkept, hseeded, -⟩ := h.branch.eval hv
  exact ⟨run', h.later hkept hseeded h.shows (h.heads.mono (List.subset_append_right _ _))
    (Bool.and_eq_true_iff.1 h.combinator).2⟩

theorem Fits.item (h : Fits S ⟨depth, .sequence (parser :: rest), s, σ⟩ run) :
    Fits S ⟨depth, parser, s, σ⟩ run :=
  h.part (List.subset_append_left _ _) (Bool.and_eq_true_iff.1 h.combinator).1

theorem Fits.after (h : Fits S ⟨depth, .sequence (parser :: rest), s, σ⟩ run) {m : Match}
    {σ' : Session} (hv : Visit.eval S.grammar ⟨depth, parser, s, σ⟩ = (.ok (some m), σ')) :
    ∃ run', Fits S ⟨depth, .sequence rest, m.rest, σ'⟩ run' := by
  obtain ⟨run', rfl, hkept, hseeded, htaken⟩ := h.item.eval hv
  obtain ⟨hm, hle⟩ : m.rest.Shows S run.calls ∧ m.rest.remaining + parser.least ≤ s.remaining :=
    htaken m rfl
  exact ⟨run', h.later hkept hseeded hm (.after h.heads h.shows hle)
    (Bool.and_eq_true_iff.1 h.combinator).2⟩

theorem Fits.mapped {change : Value → Except Fault Value}
    (h : Fits S ⟨depth, .mapped parser change, s, σ⟩ run) : Fits S ⟨depth, parser, s, σ⟩ run :=
  h.part (List.Subset.refl _) h.combinator

theorem Fits.opt (h : Fits S ⟨depth, .opt parser, s, σ⟩ run) : Fits S ⟨depth, parser, s, σ⟩ run :=
  h.part (List.Subset.refl _) h.combinator

theorem Fits.many (h : Fits S ⟨depth, .many parser, s, σ⟩ run) :
    Fits S ⟨depth, parser, s, σ⟩ run :=
  h.part (List.Subset.refl _) h.combinator

theorem Fits.further (h : Fits S ⟨depth, .many parser, s, σ⟩ run) {m : Match} {σ' : Session}
    (hv : Visit.eval S.grammar ⟨depth, parser, s, σ⟩ = (.ok (some m), σ')) :
    ∃ run', Fits S ⟨depth, .many parser, m.rest, σ'⟩ run' := by
  obtain ⟨run', rfl, hkept, hseeded, htaken⟩ := h.many.eval hv
  obtain ⟨hm, hle⟩ : m.rest.Shows S run.calls ∧ m.rest.remaining + parser.least ≤ s.remaining :=
    htaken m rfl
  have hs : s.Shows S run.calls := h.shows
  exact ⟨run', h.later hkept hseeded hm (.further hs (fun _ => h.heads) (by omega)) h.combinator⟩

end

/-- Matches of the parser stay within the cursors of its visits. -/
def Stays (S : Setting ρ) (depth : Nat) (parser : Parser ρ) : Prop :=
  ∀ {s : Cursor} {σ σ' : Session} {run : Run ρ} {m : Match}, Fits S ⟨depth, parser, s, σ⟩ run →
    parser.eval (S.grammar.call depth) s σ = (.ok (some m), σ') → m.rest.Within s

end Visit

namespace Parser

variable {depth : Nat}

/-- Repetitions stay within their cursor if their parser does. -/
theorem repeatWhile_within {parser : Parser ρ} (hp : Visit.Stays S depth parser) :
    ∀ (rounds : Nat) {s rest : Cursor} {values : List Value} {σ σ' : Session} {run : Run ρ},
      Visit.Fits S ⟨depth, .many parser, s, σ⟩ run →
      repeatWhile (parser.eval (S.grammar.call depth)) rounds s σ = (.ok (rest, values), σ') →
      rest.Within s := by
  intro rounds
  induction rounds with
  | zero =>
    intro s rest values σ σ' run _ h
    cases h
  | succ rounds ih =>
    intro s rest values σ σ' run hv h
    rw [repeatWhile] at h
    obtain ⟨result, σ₁, hresult, h⟩ := Program.exists_of_bind h
    cases result with
    | none =>
      cases h
      exact .refl s
    | some m =>
      dsimp only at h
      split at h
      · cases h
        exact .refl s
      · obtain ⟨⟨last, values'⟩, σ₂, hlast, h⟩ := Program.exists_of_bind h
        cases h
        obtain ⟨run', hv'⟩ := hv.further hresult
        exact (ih hv' hlast).trans (hp hv.many hresult)

mutual

/-- Combinators stay within their cursor if calls of rules do. -/
theorem eval_within (hcall : ∀ r, Visit.Stays S depth (.ref r)) :
    ∀ parser : Parser ρ, Visit.Stays S depth parser
  | tag text, s, σ, σ', run, m, hv, h => by
    rw [eval] at h
    split at h <;> cases h
    exact s.within_advance _
  | scanner rule, s, σ, σ', run, m, hv, h => by
    rw [eval] at h
    cases hscan : rule.scan s.fragment <;> rw [hscan] at h <;> cases h
    exact s.within_advance _
  | eof, s, σ, σ', run, m, hv, h => by
    rw [eval] at h
    split at h <;> cases h
    exact .refl s
  | alt branches, s, σ, σ', run, m, hv, h => evalFirst_within hcall branches hv h
  | sequence items, s, σ, σ', run, m, hv, h => by
    obtain ⟨result, σ₁, hresult, h⟩ := Program.exists_of_bind h
    cases result with
    | none => cases h
    | some pair =>
      cases h
      exact evalAll_within hcall items hv hresult
  | mapped parser change, s, σ, σ', run, m, hv, h => by
    obtain ⟨result, σ₁, hresult, h⟩ := Program.exists_of_bind h
    cases result with
    | none => cases h
    | some m' =>
      obtain ⟨value, σ₂, -, h⟩ := Program.exists_of_bind h
      have hm' : m'.rest.Within s := eval_within hcall parser hv.mapped hresult
      cases h
      exact hm'
  | opt parser, s, σ, σ', run, m, hv, h => by
    obtain ⟨result, σ₁, hresult, h⟩ := Program.exists_of_bind h
    cases result with
    | none =>
      cases h
      exact .refl s
    | some m' =>
      cases h
      exact eval_within hcall parser hv.opt hresult
  | many parser, s, σ, σ', run, m, hv, h => by
    obtain ⟨⟨rest, values⟩, σ₁, hresult, h⟩ := Program.exists_of_bind h
    cases h
    exact repeatWhile_within (eval_within hcall parser) _ hv hresult
  | ref rule, s, σ, σ', run, m, hv, h => hcall rule hv h
  | peek _, _, _, _, _, _, hv, _ | absent _, _, _, _, _, _, hv, _ | .edit _, _, _, _, _, _, hv, _
  | reveal, _, _, _, _, _, hv, _ | probe _, _, _, _, _, _, hv, _
  | .watch _ _, _, _, _, _, _, hv, _ => absurd hv.combinator Bool.false_ne_true

theorem evalFirst_within (hcall : ∀ r, Visit.Stays S depth (.ref r)) :
    ∀ (branches : List (Parser ρ)) {s : Cursor} {σ σ' : Session} {run : Run ρ} {m : Match},
      Visit.Fits S ⟨depth, .alt branches, s, σ⟩ run →
      evalFirst (S.grammar.call depth) branches s σ = (.ok (some m), σ') → m.rest.Within s
  | [], s, σ, σ', run, m, hv, h => by cases h
  | parser :: rest, s, σ, σ', run, m, hv, h => by
    obtain ⟨result, σ₁, hresult, h⟩ := Program.exists_of_bind h
    cases result with
    | none =>
      obtain ⟨run', hv'⟩ := hv.otherwise hresult
      exact evalFirst_within hcall rest hv' h
    | some m' =>
      cases h
      exact eval_within hcall parser hv.branch hresult

theorem evalAll_within (hcall : ∀ r, Visit.Stays S depth (.ref r)) :
    ∀ (items : List (Parser ρ)) {s : Cursor} {σ σ' : Session} {run : Run ρ}
      {pair : Cursor × List Value}, Visit.Fits S ⟨depth, .sequence items, s, σ⟩ run →
      evalAll (S.grammar.call depth) items s σ = (.ok (some pair), σ') → pair.1.Within s
  | [], s, σ, σ', run, pair, hv, h => by
    cases h
    exact .refl s
  | parser :: rest, s, σ, σ', run, pair, hv, h => by
    obtain ⟨result, σ₁, hresult, h⟩ := Program.exists_of_bind h
    cases result with
    | none => cases h
    | some m =>
      obtain ⟨last, σ₂, hlast, h⟩ := Program.exists_of_bind h
      cases last with
      | none => cases h
      | some pair' =>
        cases h
        obtain ⟨run', hv'⟩ := hv.after hresult
        exact (evalAll_within hcall rest hv' hlast).trans (eval_within hcall parser hv.item hresult)

end

end Parser

end SeedGrowth
