import SeedGrowth.Proofs.Run.Steps

/-!
# What parts of a run yield

A judgement about one part of a run: it leaves the run coherent, it ends exhausted only
if calls are nested as deep as is allowed, and its answer is as stated. One rule for each
way to build programs, by which the proofs about calls and parsers are put together.
-/
namespace SeedGrowth

variable {ρ α β : Type}

/-- Somewhere in the run calls were nested as deep as is allowed. -/
def Run.Deep (S : Setting ρ) (run : Run ρ) : Prop := ∃ m ∈ run.moments, S.depth ≤ m.calls.length

/-- The program keeps the run coherent and its answers are as stated. -/
def Yields (S : Setting ρ) (older : Nat) (run : Run ρ) (x : Followed ρ α)
    (post : α → Run ρ → Prop) : Prop :=
  ∃ result run', x run = (result, run') ∧ Kept S older run run' ∧
    (result = .error .exhausted → run'.Deep S) ∧ ∀ a, result = .ok a → post a run'

/-- The match, if there is one, shows the open calls and is not further back than a
position. -/
def Shown (S : Setting ρ) (calls : List (OpenCall ρ)) (position : Nat) (result : Option Match) :
    Prop :=
  ∀ m, result = some m → m.rest.Shows S calls ∧ m.rest.remaining ≤ position

theorem Shown.none (S : Setting ρ) (calls : List (OpenCall ρ)) (position : Nat) :
    Shown S calls position none := by
  intro m hm
  cases hm

theorem Shown.some {S : Setting ρ} {calls : List (OpenCall ρ)} {position : Nat} {m : Match}
    (h : m.rest.Shows S calls) (hle : m.rest.remaining ≤ position) :
    Shown S calls position (some m) := by
  intro m' hm
  cases hm
  exact ⟨h, hle⟩

namespace Yields

variable {S : Setting ρ} {older : Nat} {run : Run ρ}

theorem pure {a : α} {post : α → Run ρ → Prop} (h : run.Sound S) (ha : post a run) :
    Yields S older run (Pure.pure a : Followed ρ α) post := by
  refine ⟨.ok a, run, rfl, .refl older h, ?_, ?_⟩
  · intro he
    cases he
  · rintro _ ⟨⟩
    exact ha

theorem bind {x : Followed ρ α} {f : α → Followed ρ β} {mid : α → Run ρ → Prop}
    {post : β → Run ρ → Prop} (hx : Yields S older run x mid)
    (hf : ∀ a run', Kept S older run run' → mid a run' → Yields S older run' (f a) post) :
    Yields S older run (x >>= f) post := by
  obtain ⟨result, run', hrun, hkept, hdeep, hmid⟩ := hx
  cases result with
  | ok a =>
    obtain ⟨result', run'', hrun', hkept', hdeep', hpost⟩ := hf a run' hkept (hmid a rfl)
    exact ⟨result', run'', by rw [Program.bind_ok hrun, hrun'], hkept.trans hkept', hdeep', hpost⟩
  | error stop =>
    refine ⟨.error stop, run', Program.bind_error hrun f, hkept, ?_, ?_⟩
    · rintro ⟨⟩
      exact hdeep rfl
    · rintro _ ⟨⟩

theorem imp {x : Followed ρ α} {post post' : α → Run ρ → Prop} (h : Yields S older run x post)
    (hp : ∀ a run', Kept S older run run' → post a run' → post' a run') :
    Yields S older run x post' := by
  obtain ⟨result, run', hrun, hkept, hdeep, hpost⟩ := h
  exact ⟨result, run', hrun, hkept, hdeep, fun a ha => hp a run' hkept (hpost a ha)⟩

theorem weaken {older' : Nat} {x : Followed ρ α} {post : α → Run ρ → Prop}
    (h : Yields S older run x post) (hle : older' ≤ older) : Yields S older' run x post := by
  obtain ⟨result, run', hrun, hkept, hrest⟩ := h
  exact ⟨result, run', hrun, hkept.weaken hle, hrest⟩

/-- A step that changes the session alone. -/
theorem step {y : Eval α} {mid : α → Session → Prop} (h : Steps S older run y mid) :
    Yields S older run (Followed.plain y) fun a run' =>
      mid a run'.session ∧ run' = { run with session := run'.session } := by
  obtain ⟨result, σ, hy, hkept, hresult⟩ := h
  refine ⟨result, { run with session := σ }, by simp only [Followed.plain, hy], hkept, ?_, ?_⟩
  · intro he
    subst he
    obtain ⟨a, ha, -⟩ | ⟨fault, hfault, -⟩ := hresult
    · cases ha
    · cases hfault
  · intro a ha
    subst ha
    obtain ⟨a', ha, hmid⟩ | ⟨fault, hfault, -⟩ := hresult
    · cases ha
      exact ⟨hmid, rfl⟩
    · cases hfault

/-- A computation that may be faulty and does not look at the session. -/
theorem lift (h : run.Sound S) (x : Except Fault α) :
    Yields S older run (Followed.plain (Eval.lift x)) fun a run' => x = .ok a ∧ run' = run := by
  cases x with
  | ok a =>
    refine ⟨.ok a, run, rfl, .refl older h, ?_, ?_⟩
    · rintro ⟨⟩
    · rintro _ ⟨⟩
      exact ⟨rfl, rfl⟩
  | error fault =>
    refine ⟨.error (.fault fault), run, rfl, .refl older h, ?_, ?_⟩
    · rintro ⟨⟩
    · rintro _ ⟨⟩

theorem note {x : Followed ρ α} {happening : Happening ρ} {post : α → Run ρ → Prop}
    (h : run.Sound S)
    (hm : (⟨happening, run.calls, run.session.frames⟩ : Moment ρ).Sound S run.moments)
    (hx : (run.noted happening).Sound S → Yields S older (run.noted happening) x post) :
    Yields S older run (Followed.note happening >>= fun _ => x) post := by
  obtain ⟨result, run', hrun, hkept, hrest⟩ := hx (h.note hm)
  refine ⟨result, run', hrun, ?_, hrest⟩
  exact ⟨hkept.calls_eq, (List.suffix_cons _ _).trans hkept.moments_suffix, hkept.size_le,
    hkept.frame_eq, hkept.sound⟩

/-- A program inside a further call. -/
theorem inside {c : OpenCall ρ} {x : Followed ρ α} {mid post : α → Run ρ → Prop}
    (hx : Yields S older { run with calls := c :: run.calls } x mid)
    (hp : ∀ a run', mid a run' → post a { run' with calls := run.calls }) :
    Yields S older run (Followed.inside c x) post := by
  obtain ⟨result, run', hrun, hkept, hdeep, hmid⟩ := hx
  refine ⟨result, { run' with calls := run.calls }, ?_, ?_, hdeep,
    fun a ha => hp a run' (hmid a ha)⟩
  · simp only [Followed.inside, hrun]
  · have hsound := hkept.sound
    obtain ⟨session, calls, moments⟩ := run'
    obtain rfl : calls = c :: run.calls := hkept.calls_eq
    exact ⟨rfl, hkept.moments_suffix, hkept.size_le, hkept.frame_eq, hsound.close⟩

/-- A program one level deeper in a registry. -/
theorem deeper {id : RegistryId} {x : Followed ρ α} {post : α → Run ρ → Prop} (h : run.Sound S)
    (hx : ∀ run', run'.Sound S → run'.calls = run.calls →
      run'.session.frames = run.session.frames → Yields S older run' x post)
    (hp : ∀ a run' σ, σ.frames = run'.session.frames → post a run' →
      post a { run' with session := σ }) :
    Yields S older run (Followed.deeper id x) post := by
  have hdown : Kept S older run { run with
      session := run.session.modifyRegistry id fun r => { r with level := r.level + 1 } } :=
    .session_same older h (.level _ _ fun r => r.level + 1) rfl
  obtain ⟨result, run', hrun, hkept, hdeep, hpost⟩ := hx _ hdown.sound rfl rfl
  have hup : Kept S older run' { run' with
      session := run'.session.modifyRegistry id fun r => { r with level := r.level - 1 } } :=
    .session_same older hkept.sound (.level _ _ fun r => r.level - 1) rfl
  refine ⟨result, _, ?_, hdown.trans (hkept.trans hup), hdeep, fun a ha => ?_⟩
  · simp only [Followed.deeper, hrun]
  · exact hp a run' _ rfl (hpost a ha)

end Yields

end SeedGrowth
