import SeedGrowth.Proofs.Room.Basic
import SeedGrowth.Proofs.Visit.Basic

/-!
# Guarded calls where there is more room

Every step of a guarded call is done alike in the widened session, from a cursor the flags of
which are wider: flags are given away alike, and frames get the same numbers. The rounds of the
two calls go on side by side, since their matches take up the same text.
-/
namespace SeedGrowth

variable {W : Widening} {G : Grounds} {σ τ : Session} {s t : Cursor}

open Eval (Widens)

/-- The calls find the same, but for how wide the flags are. -/
structure Arrival.Widened (W : Widening) (arrival arrival' : Arrival) : Prop where
  registry_eq : arrival.registry = W.home
  flag_lt : arrival.flag < W.narrow.size
  same : arrival' = { arrival with flags := arrival'.flags }
  flags : arrival.flags.Widened W arrival'.flags

/-- The call uses the registry that is widened, and a flag below the narrow capacity. -/
structure Call.AtHome (W : Widening) (call : Call) : Prop where
  registry_eq : call.registry = W.home
  flag_lt : call.flag < W.narrow.size

/-- The results are the same, but for how wide the flags are behind the matches. -/
abbrev ResultWidened (W : Widening) : Option Match → Option Match → Prop :=
  Option.Rel (Match.Widened W)

theorem ResultWidened.valueOf_eq {result result' : Option Match}
    (h : ResultWidened W result result') : Call.valueOf result' = Call.valueOf result := by
  cases h with
  | some hm => exact congrArg some hm.value_eq
  | none => rfl

/-- A guarded rule of the current registry is called alike. -/
theorem arrive_widens (h : σ.WidenedInside G.toWidening τ) (hs : s.Widened G.toWidening t)
    {name : Value} (hfull : name.hashable = true → (σ.registry G.home).find? name = none →
      (σ.registry G.home).capacity.size ≤ (σ.registry G.home).size → G.overflows) :
    Widens G σ τ (arrive name none s) (arrive name none t) (Arrival.Widened G.toWidening) := by
  rw [arrive_apply, arrive_apply]
  refine .bind (.registryOr h) ?_
  rintro _ _ σ₁ τ₁ hrun h₁ ⟨rfl, rfl⟩
  rw [Eval.registryOr_of_current h.current] at hrun
  cases hrun
  refine .bind (.flagOf h₁ hfull) ?_
  rintro flag _ σ₂ τ₂ - h₂ ⟨rfl, hflag⟩
  obtain ⟨f, f', hf, hf', hflags⟩ := hs.flags_eq
  refine .bind (.lift h₂ hf hf' hflags) ?_
  intro f f' σ₃ τ₃ _ h₃ hflags
  have hread : Widens G σ₃ τ₃ (Eval.read (·.registry G.home)) (Eval.read (·.registry G.home))
      fun r r' => r' = { r with capacity := G.wide } := .read h₃ h₃.home_eq
  refine .bind hread ?_
  rintro r _ σ₄ τ₄ - h₄ rfl
  obtain ⟨hentered, hanchor⟩ := hflags.enterAt s.remaining
  rw [hs.remaining_eq]
  obtain ⟨hcheck, hcheck'⟩ := hentered.check_eq hflag
  refine .bind (.lift h₄ hcheck hcheck' rfl) ?_
  rintro active _ σ₅ τ₅ - h₅ rfl
  exact .pure h₅ ⟨rfl, hflag, by rw [hanchor], hentered⟩

namespace Arrival

variable {arrival arrival' : Arrival}

/-- Both calls enter the same frame, and set the same flag. -/
theorem begin_widens (ha : arrival.Widened G.toWidening arrival')
    (h : σ.WidenedInside G.toWidening τ) (hs : s.Widened G.toWidening t) :
    Widens G σ τ (arrival.begin s) (arrival'.begin t) fun (call, s') (call', t') =>
      call' = call ∧ call.AtHome G.toWidening ∧ s'.Widened G.toWidening t' := by
  obtain ⟨hregistry, hflag, hsame, hflags⟩ := ha
  rw [hsame]
  have hframe := Frame.widened_begin G.toWidening arrival.name arrival.flag arrival.position
  refine .bind (.newFrame h hframe) ?_
  rintro frame _ σ₁ τ₁ - h₁ rfl
  obtain ⟨hset, hset'⟩ := hflags.set_eq hflag
  refine .bind (.lift h₁ hset hset' (hflags.insert hflag)) ?_
  intro f f' σ₂ τ₂ _ h₂ hf
  have hcarrying := hf.carrying (.anchor (arrival.anchor.insert arrival.flag frame))
  have hs' := hs.withFlags hcarrying
  dsimp only
  rw [hs'.fragment_eq]
  refine .bind (.trace h₂ _ _) fun _ _ σ₃ τ₃ _ h₃ _ => ?_
  exact .pure h₃ ⟨rfl, ⟨hregistry, hflag⟩, hs'⟩

/-- Both calls are answered with the best match of one frame. -/
theorem answer_widens (ha : arrival.Widened G.toWidening arrival')
    (h : σ.WidenedInside G.toWidening τ) :
    Widens G σ τ arrival.answer arrival'.answer (ResultWidened G.toWidening) := by
  rw [ha.same]
  unfold answer
  dsimp only
  cases hframe : arrival.anchor.frame? arrival.flag with
  | none => exact .pure h .none
  | some id =>
    refine .bind (.modifyFrame h id fun hf => ?_) fun _ _ σ₁ τ₁ _ h₁ _ => ?_
    · exact ⟨hf.name_eq, hf.flag_eq, hf.position_eq, hf.best, hf.length_eq, rfl⟩
    refine .bind (.read h₁ (h₁.frame id)) ?_
    intro frame frame' σ₂ τ₂ _ h₂ hf
    rw [hf.bestValue_eq]
    exact .bind (.trace h₂ _ _) fun _ _ σ₃ τ₃ _ h₃ _ => .pure h₃ hf.best

end Arrival

namespace Call

variable {call : Call} {result result' : Option Match} {frame frame' : Frame}

theorem review_widens (call : Call) (h : σ.WidenedInside G.toWidening τ)
    (hresult : ResultWidened G.toWidening result result') (round : Nat) :
    Widens G σ τ (call.review round result) (call.review round result')
      (Frame.Widened G.toWidening) := by
  unfold review
  rw [hresult.valueOf_eq]
  exact .bind (.trace h _ _) fun _ _ σ₁ τ₁ _ h₁ _ => .read h₁ (h₁.frame call.frame)

theorem longer?_widened (call : Call) (hframe : frame.Widened W frame')
    (hresult : ResultWidened W result result') :
    ResultWidened W (call.longer? frame result) (call.longer? frame' result') := by
  cases hresult with
  | none => exact .none
  | some hm =>
    unfold longer?
    rw [Option.filter_some, Option.filter_some, hm.consumed_eq, hframe.length_eq]
    split
    · exact .some hm
    · exact .none

theorem settle_widens (call : Call) (h : σ.WidenedInside G.toWidening τ)
    (hframe : frame.Widened G.toWidening frame')
    (hresult : ResultWidened G.toWidening result result') :
    Widens G σ τ (call.settle frame result) (call.settle frame' result')
      (ResultWidened G.toWidening) := by
  unfold settle
  rw [hframe.bestValue_eq]
  cases hresult <;> exact .bind (.trace h _ _) fun _ _ σ₁ τ₁ _ h₁ _ => .pure h₁ hframe.best

theorem adopt_widens (call : Call) {m m' : Match} (h : σ.WidenedInside G.toWidening τ)
    (hm : m.Widened G.toWidening m') :
    Widens G σ τ (call.adopt m) (call.adopt m') fun _ _ => True := by
  refine .modifyFrame h call.frame fun {frame frame'} hf => ?_
  refine ⟨hf.name_eq, hf.flag_eq, hf.position_eq, .some hm, ?_, hf.reentered_eq⟩
  exact hm.consumed_eq call.position

section Rounds

variable {body body' : Eval (Option Match)} {σ₀ : Session}

/-- The two calls judge their results alike. -/
theorem judge_widens (call : Call) (h : σ.WidenedInside G.toWidening τ)
    (hresult : ResultWidened G.toWidening result result') (round : Nat)
    {further further' : Match → Eval (Option Match)}
    (hfurther : ∀ frame m m' σ' τ', (σ.frame call.frame).reentered = true →
      call.review round result σ = (.ok frame, σ') → call.longer? frame result = some m →
      m.Widened G.toWidening m' → σ'.WidenedInside G.toWidening τ' →
      Widens G σ' τ' (further m) (further' m') (ResultWidened G.toWidening)) :
    Widens G σ τ (call.judge round result further) (call.judge round result' further')
      (ResultWidened G.toWidening) := by
  refine .bind (.read h (h.frame call.frame)) ?_
  intro frame frame' σ₁ τ₁ hread h₁ hframe
  cases hread
  rw [hframe.reentered_eq]
  split
  · next hmarked =>
    refine .bind (call.review_widens h₁ hresult round) ?_
    intro frame frame' σ₂ τ₂ hreview h₂ hframe
    have hlonger := call.longer?_widened hframe hresult
    generalize hl : call.longer? frame result = longer at hlonger ⊢
    generalize call.longer? frame' result' = longer' at hlonger ⊢
    cases hlonger with
    | none => exact call.settle_widens h₂ hframe hresult
    | some hm => exact hfurther _ _ _ _ _ hmarked hreview hl hm h₂
  · exact .pure h₁ hresult

/-- The rounds of the two calls go on side by side. -/
theorem grow_widens (call : Call)
    (hbody : ∀ round σ' τ', call.Evaluates body σ₀ round σ' →
      σ'.WidenedInside G.toWidening τ' →
      Widens G σ' τ' body body' (ResultWidened G.toWidening)) :
    ∀ (rounds : Nat) {round : Nat} {last last' : Option Match} {σ₁ σ τ : Session},
      call.Evaluates body σ₀ round σ₁ → body σ₁ = (.ok last, σ) →
      ResultWidened G.toWidening last last' → σ.WidenedInside G.toWidening τ →
      Widens G σ τ (call.grow body rounds (round + 1) last)
        (call.grow body' rounds (round + 1) last') (ResultWidened G.toWidening) := by
  intro rounds
  induction rounds with
  | zero =>
    intro round last last' σ₁ σ τ _ _ hresult h
    exact call.judge_widens h hresult _ fun _ _ _ _ _ _ _ _ _ h₂ => .throw h₂ .exhausted
  | succ rounds ih =>
    intro round last last' σ₁ σ τ hround hlast hresult h
    refine call.judge_widens h hresult _ fun frame m m' σ₂ τ₂ hmarked hreview hl hm h₂ => ?_
    refine .bind (call.adopt_widens h₂ hm) fun _ _ σ₃ τ₃ hadopt h₃ _ => ?_
    have hnext := hround.again hlast hmarked hreview hl hadopt
    refine .bind (hbody _ _ _ hnext h₃) ?_
    intro next next' σ₄ τ₄ hrun h₄ hresult'
    exact ih hnext hrun hresult' h₄

theorem evaluate_widens (call : Call) (h : σ.WidenedInside G.toWidening τ)
    (hbody : ∀ round σ' τ', call.Evaluates body σ round σ' →
      σ'.WidenedInside G.toWidening τ' →
      Widens G σ' τ' body body' (ResultWidened G.toWidening)) :
    Widens G σ τ (call.evaluate body) (call.evaluate body') (ResultWidened G.toWidening) := by
  refine .bind (hbody 0 σ τ .first h) ?_
  intro result result' σ₁ τ₁ hrun h₁ hresult
  exact call.grow_widens hbody _ .first hrun hresult h₁

end Rounds

theorem finish_widens (hc : call.AtHome G.toWidening) (h : σ.WidenedInside G.toWidening τ)
    (hresult : ResultWidened G.toWidening result result') :
    Widens G σ τ (call.finish result) (call.finish result') (ResultWidened G.toWidening) := by
  unfold finish
  rw [hresult.valueOf_eq]
  refine .bind (.trace h _ _) fun _ _ σ₁ τ₁ _ h₁ _ => ?_
  cases hresult with
  | none => exact .pure h₁ .none
  | some hm =>
    obtain ⟨m₁, m₁', hleave, hleave', hm₁⟩ := hm.leave hc.flag_lt
    dsimp only
    rw [hleave, hleave']
    exact .pure h₁ (.some hm₁)

end Call

/-- A guarded call is done alike if the rounds of its body are. -/
theorem guarded_widens {name : Value} {body : Cursor → Eval (Option Match)}
    (h : σ.WidenedInside G.toWidening τ) (hs : s.Widened G.toWidening t)
    (hfull : name.hashable = true → (σ.registry G.home).find? name = none →
      (σ.registry G.home).capacity.size ≤ (σ.registry G.home).size → G.overflows)
    (hbody : ∀ arrival σ₁ call s' t' σ₂ round σ' τ', arrive name none s σ = (.ok arrival, σ₁) →
      arrival.active = false → arrival.begin s σ₁ = (.ok (call, s'), σ₂) →
      call.Evaluates (body s') (σ₂.modifyRegistry call.registry fun r =>
        { r with level := r.level + 1 }) round σ' →
      σ'.WidenedInside G.toWidening τ' → s'.Widened G.toWidening t' →
      Widens G σ' τ' (body s') (body t') (ResultWidened G.toWidening)) :
    Widens G σ τ (guarded name none body s) (guarded name none body t)
      (ResultWidened G.toWidening) := by
  refine .bind (arrive_widens h hs hfull) ?_
  intro arrival arrival' σ₁ τ₁ harrive h₁ ha
  have hactive : arrival'.active = arrival.active := by rw [ha.same]
  rw [hactive]
  cases hset : arrival.active with
  | true => exact Arrival.answer_widens ha h₁
  | false =>
    refine .bind (Arrival.begin_widens ha h₁ hs) ?_
    rintro ⟨_, s'⟩ ⟨call, t'⟩ σ₂ τ₂ hbegin h₂ ⟨rfl, hc, hs'⟩
    dsimp only
    have hcall : Widens G σ₂ τ₂ (Eval.deeper call.registry (call.evaluate (body s')))
        (Eval.deeper call.registry (call.evaluate (body t'))) (ResultWidened G.toWidening) := by
      have hrounds := hbody arrival σ₁ call s' t' σ₂
      rw [hc.registry_eq] at hrounds ⊢
      exact .deeper h₂ fun h₃ => call.evaluate_widens h₃ fun round σ' τ' hround h' =>
        hrounds round σ' τ' harrive hset hbegin hround h' hs'
    refine .bind hcall ?_
    intro result result' σ₃ τ₃ _ h₃ hresult
    exact Call.finish_widens hc h₃ hresult

end SeedGrowth
