import SeedGrowth.Proofs.Visit.Calls

/-!
# Faults end evaluations

Nothing catches a fault: if a visit comes to one, so does each visit that leads to it, and the
registries keep the names that they have then. A repetition further on has less text left, and
in every round of a call a longer match was found, so that neither is cut off on the way.
-/
namespace SeedGrowth

variable {α β ρ : Type} {S : Setting ρ} {run : Run ρ} {fault : Fault} {σ σ₁ σ' : Session}

/-- The evaluation ends with the fault, and the registries have the names they have in the second
session. -/
def Eval.Fails (x : Eval α) (fault : Fault) (σ σ' : Session) : Prop :=
  ∃ σ'', x σ = (.error (.fault fault), σ'') ∧
    ∀ id, (σ''.registry id).names = (σ'.registry id).names

namespace Eval.Fails

theorem of_eq {x : Eval α} (h : x σ = (.error (.fault fault), σ')) : x.Fails fault σ σ' :=
  ⟨σ', h, fun _ => rfl⟩

/-- What was to come next does not matter. -/
theorem bind {x : Eval α} (h : x.Fails fault σ σ') (f : α → Eval β) :
    (x >>= f).Fails fault σ σ' := by
  obtain ⟨σ'', hx, hnames⟩ := h
  exact ⟨σ'', Program.bind_error hx f, hnames⟩

/-- A fault may come after an answer. -/
theorem after {x : Eval α} {a : α} (hx : x σ = (.ok a, σ₁)) {f : α → Eval β}
    (h : (f a).Fails fault σ₁ σ') : (x >>= f).Fails fault σ σ' := by
  obtain ⟨σ'', hf, hnames⟩ := h
  exact ⟨σ'', (Program.bind_ok hx f).trans hf, hnames⟩

/-- Changing the answer raises no fault. -/
theorem of_map {x : Eval α} {f : α → β} (h : (x >>= fun a => pure (f a)).Fails fault σ σ') :
    x.Fails fault σ σ' := by
  obtain ⟨σ'', hx, hnames⟩ := h
  rw [Program.bind_apply] at hx
  cases hrun : x σ with
  | mk result σ₁ =>
    rw [hrun] at hx
    cases result with
    | ok a => cases hx
    | error stop =>
      cases hx
      exact ⟨_, hrun, hnames⟩

theorem deeper {x : Eval α} {id : RegistryId}
    (h : x.Fails fault (σ.modifyRegistry id fun r => { r with level := r.level + 1 }) σ') :
    (Eval.deeper id x).Fails fault σ σ' := by
  obtain ⟨σ'', hx, hnames⟩ := h
  refine ⟨σ''.modifyRegistry id fun r => { r with level := r.level - 1 }, ?_, fun id' => ?_⟩
  · simp only [Eval.deeper, hx]
  · rw [Session.registry_modifyRegistry_eq, ← hnames]
    split <;> rfl

end Eval.Fails

/-! ### Repetitions -/

namespace Parser

/-- More rounds do not change that a repetition fails. -/
theorem repeatWhile_fails_of_le {parser : Cursor → Eval (Option Match)} {rounds : Nat} :
    ∀ {rounds' : Nat} {s : Cursor} {σ : Session}, rounds ≤ rounds' →
      (repeatWhile parser rounds s).Fails fault σ σ' →
      (repeatWhile parser rounds' s).Fails fault σ σ' := by
  induction rounds with
  | zero =>
    intro rounds' s σ _ h
    obtain ⟨σ'', hrun, -⟩ := h
    cases hrun
  | succ rounds ih =>
    intro rounds' s σ hle h
    obtain ⟨rounds', rfl⟩ := Nat.exists_eq_add_of_le' (Nat.le_of_lt_succ (Nat.lt_succ_of_le hle))
    rw [← Nat.add_assoc] at hle ⊢
    obtain ⟨σ'', hrun, hnames⟩ := h
    rw [repeatWhile, Program.bind_apply] at hrun
    rw [repeatWhile]
    cases hp : parser s σ with
    | mk result σ₁ =>
      rw [hp] at hrun
      cases result with
      | error stop =>
        cases hrun
        exact .bind ⟨_, hp, hnames⟩ _
      | ok result =>
        refine .after hp ?_
        cases result with
        | none => cases hrun
        | some m =>
          dsimp only at hrun ⊢
          split at hrun
          · cases hrun
          · next hoffset =>
            rw [if_neg hoffset]
            have hrest : (repeatWhile parser rounds m.rest).Fails fault σ₁ σ' :=
              .of_map ⟨σ'', hrun, hnames⟩
            exact (ih (Nat.le_of_succ_le_succ hle) hrest).bind _

end Parser

/-! ### Rounds of calls -/

namespace Call

variable {call : Call} {body : Eval (Option Match)} {round : Nat}

/-- Where a round begins that there is room for, the call is that round and what comes after
it. -/
theorem Evaluates.evaluate_eq_bind (h : call.Evaluates body σ round σ')
    (hle : round ≤ call.position) :
    call.evaluate body σ =
      (body >>= call.grow body (call.position - round) (round + 1)) σ' := by
  induction h with
  | first => rfl
  | @again round σ₁ σ₂ σ₃ σ₄ result frame m _ hbody hmarked hreview hlonger hadopt ih =>
    obtain ⟨rounds, hrounds⟩ : ∃ rounds, call.position - round = rounds + 1 :=
      Nat.exists_eq_succ_of_ne_zero (Nat.sub_ne_zero_of_lt hle)
    have hnext : call.position - (round + 1) = rounds := by omega
    rw [ih (Nat.le_of_succ_le hle), Program.bind_ok hbody, hrounds, grow, judge_apply,
      if_pos hmarked, Program.bind_ok hreview, hlonger, hnext]
    exact Program.bind_ok hadopt _

/-- A call fails if a round of it does that there is room for. -/
theorem Evaluates.fails {σ₂ : Session} (h : call.Evaluates body σ round σ₁)
    (hround : round ≤ call.position) (hbody : body.Fails fault σ₁ σ₂) :
    (call.evaluate body).Fails fault σ σ₂ := by
  obtain ⟨σ', hrun, hnames⟩ := hbody.bind (call.grow body (call.position - round) (round + 1))
  exact ⟨σ', (h.evaluate_eq_bind hround).trans hrun, hnames⟩

variable {depth : Nat} {r : ρ} {s s' : Cursor}

/-- There is room for every round: when it begins, the best match takes up as much text at
least as there were rounds before. -/
theorem Begun.round_le (hb : call.Begun S run r s s' σ) (ht : S.tidy)
    (hd : depth + 1 + run.calls.length = S.depth) {run₀ : Run ρ}
    (hi : run₀.Inside S (call.opened r) run.calls)
    (he : call.Evaluates ((S.grammar.rule r).body.eval (S.grammar.call depth) s') run₀.session
      round σ') :
    round ≤ (σ'.frame call.frame).length ∧ round ≤ call.position := by
  induction he with
  | first => exact ⟨Nat.zero_le _, Nat.zero_le _⟩
  | @again round σ₁ σ₂ σ₃ σ₄ result frame m he hbody _ hreview hlonger hadopt ih =>
    obtain ⟨hlength, -⟩ := ih
    obtain ⟨run₁, rfl, hi₁⟩ := hb.evaluates_inside ht (Visit.stays ht depth) hd hi he
    obtain ⟨run₂, rfl, hkept, -⟩ := (hb.fits hd hi₁).eval hbody
    -- The body does not touch the frame but to mark it.
    have hlt₁ := frame_lt hi₁.sound hi₁.calls_eq
    have hkeeps := (hkept.frame_eq call.frame hlt₁).length_eq
    have hframe := frame_of_review hreview
    obtain ⟨hkept₃, -⟩ := (review_step run₂.session.frames.size hkept.sound hb.verbose_eq
      (round + 1) result).of_ok hreview
    have hlt₃ : call.frame < σ₃.frames.size :=
      (hlt₁.trans_le hkept.size_le).trans_le hkept₃.size_le
    have hadopted : σ₄.frames = σ₃.frames.modify call.frame fun frame =>
        { frame with best := some m, length := m.consumed call.position } :=
      (congrArg (fun p => p.2.frames) hadopt).symm
    have hbest : (σ₄.frame call.frame).length = m.consumed call.position := by
      rw [Session.frame_modify hadopted hlt₃, if_pos rfl]
    have hlonger' : frame.length < m.consumed call.position := by
      obtain ⟨-, hlt⟩ := Option.filter_eq_some_iff.1 hlonger
      exact of_decide_eq_true hlt
    rw [hframe, hkeeps] at hlonger'
    have hround : round + 1 ≤ m.consumed call.position := hlength.trans_lt hlonger'
    exact ⟨hbest ▸ hround, hround.trans (Nat.sub_le _ _)⟩

end Call

/-! ### Visits -/

namespace Visit

variable {v v' : Visit ρ}

/-- A visit fails as the one does that it leads to. -/
theorem Fits.fails (h : v.Fits S run) (ht : S.tidy) (hl : S.grammar.Leads v v')
    (hv' : Eval.Fails (v'.parser.eval (S.grammar.call v'.depth) v'.cursor) fault v'.session σ') :
    Eval.Fails (v.parser.eval (S.grammar.call v.depth) v.cursor) fault v.session σ' := by
  cases hl with
  | branch => exact hv'.bind _
  | otherwise hv => exact .after hv hv'
  | item => exact (hv'.bind _).bind _
  | after hv =>
    have hrest := hv'.of_map
    exact .bind (.after hv (hrest.bind _)) _
  | mapped => exact hv'.bind _
  | opt => exact hv'.bind _
  | many => exact (hv'.bind _).bind _
  | @further depth parser s σ m σ'' hv hoffset =>
    have hrest := hv'.of_map
    -- As the match takes up text, the rounds that are left are enough.
    have hs : s.Shows S run.calls := h.shows
    obtain ⟨run', -, -, -, htaken⟩ := h.many.eval hv
    obtain ⟨hm, hle⟩ : m.rest.Shows S run.calls ∧ m.rest.remaining + parser.least ≤ s.remaining :=
      htaken m rfl
    have htotal := hs.total_eq
    have htotal' := hm.total_eq
    have hless : m.rest.remaining + 1 ≤ s.remaining := by omega
    refine .bind (.after hv ?_) _
    dsimp only
    rw [if_neg hoffset]
    exact (Parser.repeatWhile_fails_of_le hless hrest).bind _
  | plain hr =>
    dsimp only at hv' ⊢
    rw [Parser.eval, Grammar.call, hr]
    exact hv'
  | guarded hr harrive hidle hbegin he =>
    obtain ⟨run', rfl, hcalling⟩ := h.calling
    obtain ⟨hcalling', hf⟩ := hcalling.arrived hr harrive
    have hb := hcalling'.begun hr hf hidle hbegin
    have hi := hb.inside hcalling'.sound hcalling'.seeded
    obtain ⟨-, hround⟩ := hb.round_le ht hcalling'.depth_eq hi he
    dsimp only at hv' ⊢
    rw [Parser.eval, Grammar.call, hr]
    refine .after harrive ?_
    rw [hidle, if_neg Bool.false_ne_true]
    exact .after hbegin (.bind (.deeper (he.fails hround hv')) _)

/-- A visit fails as any visit does that it leads to in the end. -/
theorem Fits.fails_of_reached (h : v.Fits S run) (ht : S.tidy)
    (hr : Relation.ReflTransGen S.grammar.Leads v v')
    (hv' : Eval.Fails (v'.parser.eval (S.grammar.call v'.depth) v'.cursor) fault v'.session σ') :
    Eval.Fails (v.parser.eval (S.grammar.call v.depth) v.cursor) fault v.session σ' := by
  induction hr with
  | refl => exact hv'
  | tail hreached hl ih =>
    obtain ⟨run', hfits⟩ := h.reached ht hreached
    exact ih (hfits.fails ht hl hv')

end Visit

end SeedGrowth
