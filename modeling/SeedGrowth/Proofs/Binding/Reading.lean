import SeedGrowth.Proofs.Binding.Basic
import SeedGrowth.Proofs.Visit.Basic

/-!
# Guarded calls of several registries read as scopes

An evaluation reads as an account if it comes out the same and marks the frames of the open
calls that the account asked for, unless a trace stops it. There is one rule for each way to
build evaluations, and then one lemma for each step of a guarded call. Where a call finds its
flag set inside a call of the same rule, it is answered as in scope; any other call finds its
flag unset and evaluates the body of the rule as a scope does.
-/
namespace SeedGrowth

variable {ρ α α' β β' : Type} {B : Bindings ρ} {calls : List (OpenCall ρ)} {older : Nat}
  {σ σ' σ₀ σ₁ : Session} {s : Cursor}

/-- The evaluation in the session comes out as the account says, or it stops at a value that
cannot be written in a trace. -/
def Bindings.Reads (B : Bindings ρ) (older : Nat) (calls : List (OpenCall ρ)) (σ : Session)
    (x : Eval α) (X : Account ρ β) (view : α → β) (post : α → Prop) : Prop :=
  ∃ result σ', x σ = (result, σ') ∧ (B.traced ∧ result = .error (.fault .unwritableInteger) ∨
    B.Kept older calls σ σ' ∧ σ.Marks calls σ' X.asked ∧ result.map view = X.outcome ∧
      ∀ a, result = .ok a → post a)

namespace Bindings.Reads

variable {view : α → β} {view' : α' → β'} {post : α → Prop} {post' : α' → Prop}
  {x : Eval α} {X : Account ρ β}

theorem pure {a : α} {b : β} (h : σ.Agrees B calls) (hview : view a = b) (ha : post a) :
    B.Reads older calls σ (Pure.pure a) (Pure.pure b) view post := by
  refine ⟨.ok a, σ, rfl, .inr ⟨.refl older h, .of_same rfl, congrArg Except.ok hview, ?_⟩⟩
  rintro _ ⟨⟩
  exact ha

theorem exhausted (h : σ.Agrees B calls) :
    B.Reads older calls σ (throw .exhausted) .exhausted view post := by
  refine ⟨.error .exhausted, σ, rfl, .inr ⟨.refl older h, .of_same rfl, rfl, ?_⟩⟩
  rintro _ ⟨⟩

theorem lift (h : σ.Agrees B calls) (y : Except Fault α) :
    B.Reads older calls σ (Eval.lift y) (Account.lift y) id fun _ => True := by
  refine ⟨y.mapError .fault, σ, Eval.lift_apply y σ,
    .inr ⟨.refl older h, .of_same rfl, ?_, fun _ _ => trivial⟩⟩
  cases y <;> rfl

theorem weaken {older' : Nat} (hx : B.Reads older calls σ x X view post) (hle : older' ≤ older) :
    B.Reads older' calls σ x X view post := by
  obtain ⟨result, σ', hrun, hresult⟩ := hx
  exact ⟨result, σ', hrun, hresult.imp_right fun h => ⟨h.1.weaken hle, h.2⟩⟩

/-- The first of two evaluations may keep more frames than the other one. -/
theorem bind_of_le {older' : Nat} {f : α → Eval α'} {F : β → Account ρ β'} (hle : older' ≤ older)
    (hx : B.Reads older calls σ x X view post)
    (hf : ∀ a σ', x σ = (.ok a, σ') → B.Kept older calls σ σ' → σ.Marks calls σ' X.asked →
      post a → B.Reads older' calls σ' (f a) (F (view a)) view' post') :
    B.Reads older' calls σ (x >>= f) (X >>= F) view' post' := by
  obtain ⟨result, σ₁, hrun, hresult⟩ := hx
  cases result with
  | error stop =>
    refine ⟨.error stop, σ₁, Program.bind_error hrun f, ?_⟩
    rcases hresult with ⟨htraced, hstop⟩ | ⟨hk, hmarks, houtcome, -⟩
    · cases hstop
      exact .inl ⟨htraced, rfl⟩
    · rw [Account.bind_error houtcome.symm]
      refine .inr ⟨hk.weaken hle, hmarks, rfl, ?_⟩
      rintro _ ⟨⟩
  | ok a =>
    rcases hresult with ⟨-, hstop⟩ | ⟨hk, hmarks, houtcome, ha⟩
    · cases hstop
    · obtain ⟨result', σ₂, hrun', hresult'⟩ := hf a σ₁ hrun hk hmarks (ha a rfl)
      refine ⟨result', σ₂, (Program.bind_ok hrun f).trans hrun', ?_⟩
      rw [Account.bind_ok houtcome.symm]
      exact hresult'.imp_right fun h => ⟨(hk.weaken hle).trans h.1, hmarks.trans h.2.1, h.2.2⟩

theorem bind {f : α → Eval α'} {F : β → Account ρ β'} (hx : B.Reads older calls σ x X view post)
    (hf : ∀ a σ', x σ = (.ok a, σ') → B.Kept older calls σ σ' → post a →
      B.Reads older calls σ' (f a) (F (view a)) view' post') :
    B.Reads older calls σ (x >>= f) (X >>= F) view' post' :=
  bind_of_le le_rfl hx fun a σ' hrun hk _ ha => hf a σ' hrun hk ha

/-- The account also tells what was asked for. -/
theorem listen (hx : B.Reads older calls σ x X view post) :
    B.Reads older calls σ x X.listen (fun a => (view a, X.asked)) post := by
  obtain ⟨result, σ', hrun, hresult⟩ := hx
  refine ⟨result, σ', hrun, hresult.imp_right fun h => ⟨h.1, h.2.1, ?_, h.2.2.2⟩⟩
  rw [Account.listen, ← h.2.2.1]
  cases result <;> rfl

/-- A step of which the account knows nothing. -/
theorem step {y : Eval α'} {f : α' → Eval α} {a : α'} (hy : y σ = (.ok a, σ₁))
    (hk : B.Kept older calls σ σ₁) (hmarks : σ.Marks calls σ₁ [])
    (hf : B.Reads older calls σ₁ (f a) X view post) :
    B.Reads older calls σ (y >>= f) X view post := by
  obtain ⟨result, σ₂, hrun, hresult⟩ := hf
  exact ⟨result, σ₂, (Program.bind_ok hy f).trans hrun, hresult.imp_right fun h =>
    ⟨hk.trans h.1, hmarks.trans h.2.1, h.2.2⟩⟩

/-- A step that a trace stops. -/
theorem silenced {y : Eval α'} {f : α' → Eval α} (ht : B.traced)
    (hy : y σ = (.error (.fault .unwritableInteger), σ₁)) :
    B.Reads older calls σ (y >>= f) X view post :=
  ⟨_, σ₁, Program.bind_error hy f, .inl ⟨ht, rfl⟩⟩

/-- A last step, of which the account knows the answer. -/
theorem last {y : Eval α} {a : α} {b : β} (hy : y σ = (.ok a, σ₁)) (hk : B.Kept older calls σ σ₁)
    (hmarks : σ.Marks calls σ₁ []) (hview : view a = b) (ha : post a) :
    B.Reads older calls σ y (Pure.pure b) view post := by
  refine ⟨.ok a, σ₁, hy, .inr ⟨hk, hmarks, congrArg Except.ok hview, ?_⟩⟩
  rintro _ ⟨⟩
  exact ha

/-- What agrees with a further open call agrees with those around it. -/
theorem inside {c : OpenCall ρ} (hx : B.Reads older (c :: calls) σ x X view post) :
    B.Reads older calls σ x X view post := by
  obtain ⟨result, σ', hrun, hresult⟩ := hx
  exact ⟨result, σ', hrun, hresult.imp_right fun h =>
    ⟨⟨h.1.size_le, h.1.frame_eq, h.1.agrees.of_cons⟩, h.2.1.of_cons, h.2.2⟩⟩

/-- An evaluation one level deeper in a registry. -/
theorem deeper {id : RegistryId} (h : σ.Agrees B calls)
    (hx : (σ.modifyRegistry id fun r => { r with level := r.level + 1 }).Agrees B calls →
      B.Reads older calls (σ.modifyRegistry id fun r => { r with level := r.level + 1 }) x X view
        post) : B.Reads older calls σ (Eval.deeper id x) X view post := by
  have hdown : B.Kept older calls σ
      (σ.modifyRegistry id fun r => { r with level := r.level + 1 }) :=
    .of_same older h (fun _ => .level σ id fun r => r.level + 1) rfl
  obtain ⟨result, σ₁, hrun, hresult⟩ := hx hdown.agrees
  refine ⟨result, σ₁.modifyRegistry id fun r => { r with level := r.level - 1 }, ?_,
    hresult.imp_right fun h => ?_⟩
  · simp only [Eval.deeper, hrun]
  · have hup : B.Kept older calls σ₁
        (σ₁.modifyRegistry id fun r => { r with level := r.level - 1 }) :=
      .of_same older h.1.agrees (fun _ => .level σ₁ id fun r => r.level - 1) rfl
    exact ⟨hdown.trans (h.1.trans hup), h.2⟩

/-- A call of a rule of which no call is open. -/
theorem ask {r : ρ} {position : Nat} (hidle : ∀ c ∈ calls, c.rule = r → c.position ≠ position)
    (hx : B.Reads older calls σ x X view post) :
    B.Reads older calls σ x (Account.ask r position >>= fun _ => X) view post := by
  obtain ⟨result, σ', hrun, hresult⟩ := hx
  refine ⟨result, σ', hrun, hresult.imp_right fun h => ⟨h.1, fun c hc i id hseat => ?_, h.2.2⟩⟩
  have hne : (c.rule, c.position) ≠ (r, position) := fun heq =>
    hidle c hc (congrArg Prod.fst heq) (congrArg Prod.snd heq)
  rw [h.2.1 c hc i id hseat]
  exact or_congr_right ⟨List.mem_cons_of_mem _, fun hmem => (List.mem_cons.1 hmem).resolve_left hne⟩

end Bindings.Reads

namespace Call

variable {call : Call} {r : ρ} {scope : Scope ρ} {body : Eval (Option Match)}
  {reading : Option Found → Account ρ (Option Found)}

/-- The call is inside others, which began where it did or before, and has a later frame. -/
structure Inside (B : Bindings ρ) (calls : List (OpenCall ρ)) (call : Call) : Prop where
  earlier : ∀ c ∈ calls, ∀ i id, c.seat = some (i, id) → id < call.frame
  behind : ∀ c ∈ calls, call.position ≤ c.position
  traced : call.verbose = true → B.traced

/-- In every round of the call the body reads as it does with the best match so far. -/
def RoundsRead (B : Bindings ρ) (calls : List (OpenCall ρ)) (call : Call) (r : ρ) (scope : Scope ρ)
    (σ₀ : Session) (body : Eval (Option Match))
    (reading : Option Found → Account ρ (Option Found)) : Prop :=
  ∀ {round σ}, call.Evaluates body σ₀ round σ → σ.Agrees B (call.opened r :: calls) →
    scope.Covers id ⟨σ, calls, []⟩ →
    B.Reads σ.frames.size (call.opened r :: calls) σ body
      (reading ((σ.frame call.frame).best.map Match.found)) (Option.map Match.found)
      (Shown B.setting (call.opened r :: calls) call.position)

/-- What happens inside an open call does not change the scope around it. -/
theorem Inside.covers (hi : call.Inside B calls)
    (hk : B.Kept call.frame (call.opened r :: calls) σ σ') (hc : scope.Covers id ⟨σ, calls, []⟩) :
    scope.Covers id ⟨σ', calls, []⟩ :=
  hc.congr rfl fun c hmem i id hseat => (hk.frame_eq id (hi.earlier c hmem i id hseat)).best_eq

/-- The best match of an open call may be handed out inside the calls that are open. -/
theorem Inside.best_shown (hi : call.Inside B calls) (h : σ.Agrees B (call.opened r :: calls)) :
    Shown B.setting (call.opened r :: calls) call.position (σ.frame call.frame).best := by
  intro m hm
  obtain ⟨hlt, hshows⟩ := (h.seated _ List.mem_cons_self _ _ rfl).best_shows m hm
  have hlt : m.rest.remaining < call.position := hlt
  refine ⟨(Cursor.shows_at.1 hshows).further (by simp) fun c hc => ?_, hlt.le⟩
  rcases List.mem_cons.1 hc with rfl | hc
  · exact hlt
  · exact hlt.trans_le (hi.behind c hc)

/-- Making a match the best one of an open call. -/
theorem Inside.adopt (hi : call.Inside B calls) (h : σ.Agrees B (call.opened r :: calls))
    {m : Match} (hm : m.rest.Shows B.setting (call.opened r :: calls))
    (hlt : m.rest.remaining < call.position) :
    ∃ σ', call.adopt m σ = (.ok (), σ') ∧ B.Kept call.frame (call.opened r :: calls) σ σ' ∧
      σ.Marks (call.opened r :: calls) σ' [] ∧
      (σ'.frame call.frame) =
        { σ.frame call.frame with best := some m, length := m.consumed call.position } := by
  have hown := h.seated (call.opened r) List.mem_cons_self _ _ rfl
  let σ' : Session := { σ with
    frames := σ.frames.modify call.frame fun frame =>
      { frame with best := some m, length := m.consumed call.position } }
  have hframes : σ'.frames = σ.frames.modify call.frame fun frame =>
      { frame with best := some m, length := m.consumed call.position } := rfl
  have hframe := Session.frame_modify hframes hown.lt_size
  have hother : ∀ id, id ≠ call.frame → σ.KeepsFrame σ' id :=
    fun _ => .of_modify hframes hown.lt_size
  have hsize : σ'.frames.size = σ.frames.size := Array.size_modify
  have hl : ∀ id, σ.Later (B.at id) σ' := fun _ => .of_registries rfl rfl
  have hadopted : σ'.frame call.frame =
      { σ.frame call.frame with best := some m, length := m.consumed call.position } := by
    rw [hframe, if_pos rfl]
  have hseed : m.rest.Shows B.setting [] := hm.further
    (fun c hc => by
      rcases List.mem_cons.1 hc with rfl | hc
      · exact hlt
      · exact hlt.trans_le (hi.behind c hc)) (by simp)
  -- The frames of the calls around it are earlier ones.
  have hagrees : σ'.Agrees B (call.opened r :: calls) :=
    (h.of_cons.later hl hsize.ge fun c hc i id hseat =>
      hother id (hi.earlier c hc i id hseat).ne).cons
      (hown.adopt (hl _) hsize.ge hadopted hlt (Cursor.shows_at.2 hseed))
  refine ⟨σ', rfl, ⟨hsize.ge, fun id hid => hother id hid.ne, hagrees⟩,
    .of_frames fun c _ i id _ => ?_, hadopted⟩
  rw [hframe]
  split
  · next hid => rw [hid]
  · rfl

/-- Where the frame is marked, a result is judged as it is in the loop of the scope. -/
theorem judge_reads (hi : call.Inside B calls) (h : σ.Agrees B (call.opened r :: calls))
    (hmeasured : call.Measured (σ.frame call.frame))
    (hmarked : (σ.frame call.frame).reentered = true) (round : Nat) (last : Option Match)
    {further : Match → Eval (Option Match)} {next : Found → Account ρ (Option Found)}
    (hfurther : ∀ m σ', call.review round last σ = (.ok (σ.frame call.frame), σ') →
      σ.SameStore σ' → B.Kept call.frame (call.opened r :: calls) σ σ' →
      call.longer? (σ.frame call.frame) last = some m →
      B.Reads call.frame (call.opened r :: calls) σ' (further m) (next m.found)
        (Option.map Match.found) (Shown B.setting (call.opened r :: calls) call.position)) :
    B.Reads call.frame (call.opened r :: calls) σ (call.judge round last further)
      (match Scope.longer? call.position ((σ.frame call.frame).best.map Match.found)
          (last.map Match.found) with
      | none => return (σ.frame call.frame).best.map Match.found
      | some m => next m)
      (Option.map Match.found) (Shown B.setting (call.opened r :: calls) call.position) := by
  refine .step (rfl : Eval.read _ σ = _) (.refl _ h) (.of_same rfl) ?_
  rw [if_pos hmarked]
  obtain ⟨answer, σ₁, hreview, hsame, hanswer⟩ := call.review_spec round last σ
  rcases hanswer with rfl | ⟨hverbose, rfl⟩
  · have hk : B.Kept call.frame (call.opened r :: calls) σ σ₁ :=
      .of_same call.frame h (fun _ => .of_sameStore hsame) hsame.frames
    refine .step hreview hk (.of_same hsame.frames) ?_
    rw [longer?_found hmeasured]
    cases hl : call.longer? (σ.frame call.frame) last with
    | some m => exact hfurther m σ₁ hreview hsame hk hl
    | none =>
      obtain ⟨answer, σ₂, hsettle, hsame', hanswer⟩ :=
        call.settle_spec (σ.frame call.frame) last σ₁
      rcases hanswer with rfl | ⟨hverbose, rfl⟩
      · exact .last hsettle (.of_same call.frame hk.agrees (fun _ => .of_sameStore hsame')
          hsame'.frames) (.of_same hsame'.frames) rfl (hi.best_shown h)
      · exact ⟨_, σ₂, hsettle, .inl ⟨hi.traced hverbose, rfl⟩⟩
  · exact .silenced (hi.traced hverbose) hreview

/-- The loop of a call and the loop of its scope go through the same rounds. -/
theorem grow_reads (hi : call.Inside B calls)
    (hbody : call.RoundsRead B calls r scope σ₀ body reading) :
    ∀ (rounds : Nat) {round : Nat} {last : Option Match} {σ₁ σ : Session},
      call.Evaluates body σ₀ round σ₁ → body σ₁ = (.ok last, σ) →
      (σ.frame call.frame).reentered = true →
      σ.Agrees B (call.opened r :: calls) → scope.Covers id ⟨σ, calls, []⟩ →
      call.Measured (σ.frame call.frame) →
      Shown B.setting (call.opened r :: calls) call.position last →
      B.Reads call.frame (call.opened r :: calls) σ (call.grow body rounds (round + 1) last)
        (Scope.grow call.position reading rounds ((σ.frame call.frame).best.map Match.found)
          (last.map Match.found))
        (Option.map Match.found) (Shown B.setting (call.opened r :: calls) call.position) := by
  intro rounds
  induction rounds with
  | zero =>
    intro round last σ₁ σ _ _ hmarked h _ hmeasured _
    rw [grow, Scope.grow]
    refine judge_reads hi h hmeasured hmarked (round + 1) last ?_
    exact fun m σ' _ _ hk _ => .exhausted hk.agrees
  | succ rounds ih =>
    intro round last σ₁ σ hround hlast hmarked h hcovers hmeasured hshown
    rw [grow, Scope.grow]
    refine judge_reads hi h hmeasured hmarked (round + 1) last fun m σ₂ hreview hsame hk hl => ?_
    obtain ⟨rfl, -, hfurther⟩ := of_longer? hl
    obtain ⟨σ₃, hadopt, hk₃, hmarks₃, hframe₃⟩ :=
      hi.adopt hk.agrees (hshown m rfl).1 hfurther
    refine .step hadopt hk₃ hmarks₃ ?_
    -- The match is the best one now, and its reading is what the scope hands out.
    have hnext := hround.again hlast hmarked hreview hl hadopt
    have hcovers₃ := hi.covers (hk.trans hk₃) hcovers
    have hbest : (σ₃.frame call.frame).best = some m := by rw [hframe₃]
    have hmeasured₃ : call.Measured (σ₃.frame call.frame) := by
      rw [hframe₃]
      rfl
    have hmarked₃ : (σ₃.frame call.frame).reentered = true := by
      rw [hframe₃, hsame.frame]
      exact hmarked
    have hreads := hbody hnext hk₃.agrees hcovers₃
    rw [hbest] at hreads
    have hlt := (hk₃.agrees.seated _ List.mem_cons_self _ _ rfl).lt_size
    refine .bind_of_le hlt.le hreads fun next σ₄ hrun hk₄ hmarks₄ hshown₄ => ?_
    have hmarked₄ := (hmarks₄ (call.opened r) List.mem_cons_self _ _ rfl).2 (.inl hmarked₃)
    have hkeeps := hk₄.frame_eq call.frame hlt
    have hcovers₄ := hi.covers (hk₄.weaken hlt.le) hcovers₃
    have hgrow := ih hnext hrun hmarked₄ hk₄.agrees hcovers₄ (hmeasured₃.keeps hkeeps) hshown₄
    rw [hkeeps.best_eq, hbest] at hgrow
    exact hgrow

/-- An open call evaluates its body as its rule is evaluated in the scope. -/
theorem evaluate_reads [DecidableEq ρ] (hi : call.Inside B calls)
    (hbody : call.RoundsRead B calls r scope σ body reading)
    (h : σ.Agrees B (call.opened r :: calls)) (hcovers : scope.Covers id ⟨σ, calls, []⟩)
    (hfresh : call.Fresh (σ.frame call.frame)) :
    B.Reads call.frame (call.opened r :: calls) σ (call.evaluate body)
      (Scope.evaluate r call.position reading) (Option.map Match.found)
      (Shown B.setting (call.opened r :: calls) call.position) := by
  have hlt := (h.seated _ List.mem_cons_self _ _ rfl).lt_size
  have hreads := hbody .first h hcovers
  rw [hfresh.best_eq, Option.map_none] at hreads
  refine .bind_of_le hlt.le hreads.listen fun result σ₁ hrun hk hmarks hshown => ?_
  have hkeeps := hk.frame_eq call.frame hlt
  have hmark : (σ₁.frame call.frame).reentered = true ↔
      (r, call.position) ∈ (reading none).asked := by
    have hmarked := hmarks (call.opened r) List.mem_cons_self _ _ rfl
    rw [hfresh.unmarked] at hmarked
    exact hmarked.trans (or_iff_right Bool.false_ne_true)
  dsimp only
  by_cases hasked : (r, call.position) ∈ (reading none).asked
  · rw [if_pos hasked]
    have hcovers₁ := hi.covers (hk.weaken hlt.le) hcovers
    have hgrow := grow_reads hi hbody call.position .first hrun (hmark.2 hasked) hk.agrees
      hcovers₁ (hfresh.measured.keeps hkeeps) hshown
    rw [hkeeps.best_eq, hfresh.best_eq] at hgrow
    exact hgrow
  · rw [if_neg hasked]
    have hidle := call.grow_of_idle body call.position 1 result fun hmarked =>
      hasked (hmark.1 hmarked)
    exact .last hidle (.refl _ hk.agrees) (.of_same rfl) rfl hshown

end Call

end SeedGrowth
