import SeedGrowth.Grammar.Evaluation
import SeedGrowth.Proofs.Program
import SeedGrowth.Proofs.Session.Steps

/-!
# The evaluations in a run

Evaluating a parser means evaluating others. A visit is one evaluation of a parser as it
begins: at a cursor, in a session, with a bound on how deep calls may be nested. A visit
leads to others: to the parts of its parser, one after the other, as long as those before
come out accordingly, and for a call to the body of the rule, for a guarded one in each of
its rounds. What is left of branches or of a row, and a repetition further on, are visits
of their own.
-/
namespace SeedGrowth

variable {ρ : Type}

/-- An evaluation of a parser as it begins. -/
structure Visit (ρ : Type) where
  depth : Nat
  parser : Parser ρ
  cursor : Cursor
  session : Session

/-- How the evaluation ends, and the session then. -/
def Visit.eval (g : Grammar ρ) (v : Visit ρ) : Except Stop (Option Match) × Session :=
  v.parser.eval (g.call v.depth) v.cursor v.session

/-- The sessions in which a guarded call evaluates its body: at first, and then in every
round that goes on, with its frame marked, from a match longer than those before. -/
inductive Call.Evaluates (call : Call) (body : Eval (Option Match)) (σ : Session) :
    Nat → Session → Prop where
  | first : Evaluates call body σ 0 σ
  | again {round σ₁ σ₂ σ₃ σ₄ result frame m} : Evaluates call body σ round σ₁ →
      body σ₁ = (.ok result, σ₂) → (σ₂.frame call.frame).reentered = true →
      call.review (round + 1) result σ₂ = (.ok frame, σ₃) →
      call.longer? frame result = some m → call.adopt m σ₃ = (.ok (), σ₄) →
      Evaluates call body σ (round + 1) σ₄

/-- The visits that a visit leads to. -/
inductive Grammar.Leads (g : Grammar ρ) : Visit ρ → Visit ρ → Prop where
  | branch {depth parser rest s σ} :
      g.Leads ⟨depth, .alt (parser :: rest), s, σ⟩ ⟨depth, parser, s, σ⟩
  | otherwise {depth parser rest s σ σ'} :
      Visit.eval g ⟨depth, parser, s, σ⟩ = (.ok none, σ') →
      g.Leads ⟨depth, .alt (parser :: rest), s, σ⟩ ⟨depth, .alt rest, s, σ'⟩
  | item {depth parser rest s σ} :
      g.Leads ⟨depth, .sequence (parser :: rest), s, σ⟩ ⟨depth, parser, s, σ⟩
  | after {depth parser rest s σ m σ'} :
      Visit.eval g ⟨depth, parser, s, σ⟩ = (.ok (some m), σ') →
      g.Leads ⟨depth, .sequence (parser :: rest), s, σ⟩ ⟨depth, .sequence rest, m.rest, σ'⟩
  | mapped {depth parser change s σ} :
      g.Leads ⟨depth, .mapped parser change, s, σ⟩ ⟨depth, parser, s, σ⟩
  | opt {depth parser s σ} : g.Leads ⟨depth, .opt parser, s, σ⟩ ⟨depth, parser, s, σ⟩
  | many {depth parser s σ} : g.Leads ⟨depth, .many parser, s, σ⟩ ⟨depth, parser, s, σ⟩
  | further {depth parser s σ m σ'} :
      Visit.eval g ⟨depth, parser, s, σ⟩ = (.ok (some m), σ') →
      m.rest.place.offset ≠ s.place.offset →
      g.Leads ⟨depth, .many parser, s, σ⟩ ⟨depth, .many parser, m.rest, σ'⟩
  | plain {depth r s σ} : (g.rule r).guard = none →
      g.Leads ⟨depth + 1, .ref r, s, σ⟩ ⟨depth, (g.rule r).body, s, σ⟩
  | guarded {depth r s σ guard arrival σ₁ call s' σ₂ round σ₃} : (g.rule r).guard = some guard →
      arrive guard.name guard.registry s σ = (.ok arrival, σ₁) → arrival.active = false →
      arrival.begin s σ₁ = (.ok (call, s'), σ₂) →
      call.Evaluates ((g.rule r).body.eval (g.call depth) s')
        (σ₂.modifyRegistry call.registry fun r => { r with level := r.level + 1 }) round σ₃ →
      g.Leads ⟨depth + 1, .ref r, s, σ⟩ ⟨depth, (g.rule r).body, s', σ₃⟩

theorem Eval.exists_of_deeper {α : Type} {id : RegistryId} {x : Eval α} {a : α} {σ σ' : Session}
    (h : deeper id x σ = (.ok a, σ')) :
    ∃ σ₁, x (σ.modifyRegistry id fun r => { r with level := r.level + 1 }) = (.ok a, σ₁) ∧
      σ' = σ₁.modifyRegistry id fun r => { r with level := r.level - 1 } := by
  cases hx : x (σ.modifyRegistry id fun r => { r with level := r.level + 1 }) with
  | mk result σ₁ =>
    simp only [deeper, hx] at h
    cases h
    exact ⟨σ₁, rfl, rfl⟩

namespace Call

variable {call : Call} {body : Eval (Option Match)} {σ σ' : Session} {result : Option Match}

/-- A review that goes well gives the frame of the call. -/
theorem frame_of_review {round : Nat} {frame : Frame}
    (h : call.review round result σ = (.ok frame, σ')) : frame = σ.frame call.frame := by
  obtain ⟨answer, σ₁, hreview, -, hanswer⟩ := call.review_spec round result σ
  rw [hreview] at h
  rcases hanswer with rfl | ⟨-, rfl⟩ <;> cases h
  rfl

/-- Whatever ends a loop that goes well, it ends with the best match in the frame. -/
theorem best_of_settle {frame : Frame} {last : Option Match}
    (h : call.settle frame last σ = (.ok result, σ')) : result = frame.best := by
  obtain ⟨answer, σ₁, hsettle, -, hanswer⟩ := call.settle_spec frame last σ
  rw [hsettle] at h
  rcases hanswer with rfl | ⟨-, rfl⟩ <;> cases h
  rfl

/-- A loop that goes well ends with the last result of its body, or with the best match there
is then. -/
theorem exists_of_grow : ∀ (rounds : Nat) {round : Nat} {last : Option Match} {σ₁ σ₂ : Session},
    call.Evaluates body σ round σ₁ → body σ₁ = (.ok last, σ₂) →
    call.grow body rounds (round + 1) last σ₂ = (.ok result, σ') →
    ∃ round σ₁ last σ₂, call.Evaluates body σ round σ₁ ∧ body σ₁ = (.ok last, σ₂) ∧
      (result = last ∨ result = (σ₂.frame call.frame).best) := by
  intro rounds
  induction rounds with
  | zero =>
    intro round last σ₁ σ₂ hround hbody h
    refine ⟨round, σ₁, last, σ₂, hround, hbody, ?_⟩
    rcases call.exists_of_judge h with
      ⟨-, rfl, -⟩ | ⟨-, frame, σ₃, hreview, ⟨-, hsettle⟩ | ⟨m, -, hthrow⟩⟩
    · exact .inl rfl
    · exact .inr (by rw [best_of_settle hsettle, frame_of_review hreview])
    · cases hthrow
  | succ rounds ih =>
    intro round last σ₁ σ₂ hround hbody h
    rcases call.exists_of_judge h with
      ⟨-, rfl, -⟩ | ⟨hmarked, frame, σ₃, hreview, ⟨-, hsettle⟩ | ⟨m, hl, hfurther⟩⟩
    · exact ⟨round, σ₁, result, σ₂, hround, hbody, .inl rfl⟩
    · refine ⟨round, σ₁, last, σ₂, hround, hbody, .inr ?_⟩
      rw [best_of_settle hsettle, frame_of_review hreview]
    · obtain ⟨_, σ₄, hadopt, hfurther⟩ := Program.exists_of_bind hfurther
      obtain ⟨next, σ₅, hnext, hfurther⟩ := Program.exists_of_bind hfurther
      exact ih (hround.again hbody hmarked hreview hl hadopt) hnext hfurther

/-- A call that goes well ends with the last result of its body, or with the best match there is
then. -/
theorem exists_of_evaluate (h : call.evaluate body σ = (.ok result, σ')) :
    ∃ round σ₁ last σ₂, call.Evaluates body σ round σ₁ ∧ body σ₁ = (.ok last, σ₂) ∧
      (result = last ∨ result = (σ₂.frame call.frame).best) := by
  obtain ⟨first, σ₁, hbody, h⟩ := Program.exists_of_bind h
  exact exists_of_grow _ .first hbody h

/-- A match at the end of a call comes from one that its flag was taken off. -/
theorem exists_of_finish {m : Match} (h : call.finish result σ = (.ok (some m), σ')) :
    ∃ m', result = some m' ∧ m'.leave call.flag = .ok m := by
  obtain ⟨_, σ₁, -, h⟩ := Program.exists_of_bind h
  cases result with
  | none => cases h
  | some m' =>
    refine ⟨m', rfl, ?_⟩
    dsimp only at h
    cases hleave : m'.leave call.flag with
    | error fault =>
      rw [hleave] at h
      cases h
    | ok m'' =>
      rw [hleave] at h
      cases h
      rfl

end Call

end SeedGrowth
