import SeedGrowth.Proofs.Scoping.Steps

/-!
# Scopes are a stack

A scene is a point of a program: what is left to be done in the innermost scope, and the scopes
that have been entered and not left. From a scene one comes to the next one of its scope, past
an action as a whole, or into the scope that its next action opens. Inside a block the current
registry is that of the block, wherever the program is and whatever has been done in scopes that
were left. A thread spares all registries but those that it gets by itself.

Where an exception leaves several blocks, the inner ones are the last actions of the outer ones,
and all of them are left by it.
-/
namespace SeedGrowth.Scoping

open Session

variable {bench : Bench} {id : RegistryId}

/-- What a program has entered. -/
inductive Scope where
  | block (id : RegistryId)
  | thread

/-- A point of a program. -/
structure Scene where
  /-- What is left to be done in the innermost scope. -/
  rest : List Action
  bench : Bench
  /-- The scopes entered, the innermost one first. -/
  scopes : List Scope

namespace Action

/-- The action asks for the current registry. -/
def asks : Action → Bool
  | .current | .get _ | .state | .evaluate _ none | .parse _ _ _ none _ => true
  | _ => false

/-- The action is done in a scope of its own. -/
def opens : Action → Bool
  | .block .. | .thread _ => true
  | _ => false

/-- The action gets the registry by its label, or by a rule that is bound to it. -/
def Gets (bench : Bench) (id : RegistryId) : Action → Prop
  | .flagIn label _ | .evaluate _ (some label) | .block (some label) _ _ =>
    bench.lookup label = .ok id
  | .parse grammar _ _ label _ =>
    (∃ label', label = some label' ∧ bench.lookup label' = .ok id) ∨ grammar.Binds id
  | _ => False

end Action

namespace Scene

/-- The next point of the same scope. -/
inductive Next : Scene → Scene → Prop where
  | past {action rest bench scopes} :
      Next ⟨action :: rest, bench, scopes⟩ ⟨rest, (perform action bench).2, scopes⟩

/-- The next point of the same scope, or the first point of the scope that is entered there. -/
inductive Leads : Scene → Scene → Prop where
  | next {scene scene'} : Next scene scene' → Leads scene scene'
  | block {label actions raises rest bench scopes id inner} :
      bench.lookupOrAdd label = .ok (id, inner) →
      Leads ⟨.block label actions raises :: rest, bench, scopes⟩
        ⟨actions, inner.withCurrent (some id), .block id :: scopes⟩
  | thread {actions rest bench scopes} :
      Leads ⟨.thread actions :: rest, bench, scopes⟩
        ⟨actions, bench.withCurrent none, .thread :: scopes⟩

/-- The next action gets the registry by itself. -/
def Gets (scene : Scene) (id : RegistryId) : Prop :=
  ∃ action rest, scene.rest = action :: rest ∧ action.Gets scene.bench id

end Scene

/-! ### The current registry -/

namespace Bench

/-- A computation is made with the registry that its label says, or not at all. -/
theorem compute_cases (bench : Bench) (label : Option String)
    (value : Option RegistryId → Eval Value) :
    (label = none ∧ (bench.compute label value).2.session = (value none bench.session).2) ∨
      (∃ l id, label = some l ∧ bench.lookup l = .ok id ∧
        (bench.compute label value).2.session = (value (some id) bench.session).2) ∨
      (label ≠ none ∧ (bench.compute label value).2.session = bench.session) := by
  have hran : ∀ registry, label.mapM bench.lookup = .ok registry →
      (bench.compute label value).2.session = (value registry bench.session).2 := by
    intro registry hlabel
    unfold compute run
    rw [hlabel]
    dsimp only
    cases value registry bench.session with
    | mk result σ => cases result <;> rfl
  cases label with
  | none => exact .inl ⟨rfl, hran none rfl⟩
  | some l =>
    cases hlookup : bench.lookup l with
    | ok id => exact .inr (.inl ⟨l, id, rfl, hlookup, hran (some id) (by simp [hlookup])⟩)
    | error stop =>
      refine .inr (.inr ⟨Option.some_ne_none l, ?_⟩)
      simp [compute, hlookup]

end Bench

theorem Bench.spares_compute {label : Option String} {value : Option RegistryId → Eval Value}
    (hl : ∀ l, label = some l → bench.lookup l ≠ .ok id)
    (h : ∀ registry, registry ≠ some id → (value registry).Obeys (Spares id)) :
    Spares id bench.session (bench.compute label value).2.session := by
  rcases bench.compute_cases label value with ⟨-, heq⟩ | ⟨l, other, hlabel, hlookup, heq⟩ | ⟨-, heq⟩
  · rw [heq]
    exact h none (by simp) bench.session
  · rw [heq]
    refine h (some other) (fun hother => hl l hlabel ?_) bench.session
    rw [hlookup, Option.some.inj hother]
  · rw [heq]
    exact spares_of_registries id rfl rfl

theorem Bench.spares_flagOf {other : RegistryId} (h : id ≠ other) (bench : Bench)
    (name : Literal) : Spares id bench.session
      (bench.run (do Eval.flagOf other (← Eval.lift name))).2.session := by
  have hlaw := isLaw_spares id
  exact Eval.Obeys.bind hlaw (.lift hlaw name) (fun name => Eval.spares_flagOf h name) bench.session

/-- What is done with another registry current does not matter to one that is not. -/
theorem Bench.spares_withCurrent {after : Bench} {current : Option RegistryId}
    (hne : current ≠ some id)
    (h : Spares id (bench.withCurrent current).session after.session) :
    Spares id bench.session (after.withCurrent bench.session.current).session := by
  intro hcurrent hlt
  obtain ⟨hregistry, -, hlt'⟩ := h hne hlt
  exact ⟨hregistry, hcurrent, hlt'⟩

mutual

/-- An action spares a registry if neither it nor an action inside it gets the registry by
itself. -/
theorem perform_spares : ∀ (action : Action) (rest : List Action) (bench : Bench)
    (scopes : List Scope),
    (∀ scene, Relation.ReflTransGen Scene.Leads ⟨action :: rest, bench, scopes⟩ scene →
      ¬ scene.Gets id) →
    Spares id bench.session (perform action bench).2.session
  | .current, _, bench, _, _ | .state, _, bench, _, _ => spares_currentRegistry bench.session id
  | .get name, _, bench, _, _ => by
    refine (isLaw_spares id).trans (spares_currentRegistry bench.session id) ?_
    intro hcurrent
    have hne : id ≠ bench.current.1 := fun heq =>
      hcurrent (by rw [current_currentRegistry, heq]; rfl)
    exact Bench.spares_flagOf hne bench.current.2 name hcurrent
  | .create label capacity verbose, _, bench, _, _ => by
    unfold perform
    split
    · exact spares_of_registries id rfl rfl
    · exact spares_addRegistry bench.session _ id
  | .flagIn label name, rest, bench, scopes, h => by
    have hgets := h _ .refl
    unfold perform
    cases hlookup : bench.lookup label with
    | error stop => exact spares_of_registries id rfl rfl
    | ok other =>
      refine Bench.spares_flagOf (fun heq => hgets ⟨_, rest, rfl, ?_⟩) bench name
      rw [heq]
      exact hlookup
  | .evaluate source label, rest, bench, scopes, h => by
    have hgets := h _ .refl
    have hl : ∀ l, label = some l → bench.lookup l ≠ .ok id := by
      rintro l rfl hlookup
      exact hgets ⟨_, rest, rfl, hlookup⟩
    exact Bench.spares_compute hl fun registry hr =>
      Grammar.parse_spares (Calculator.not_binds id) _ hr
  | .parse grammar parser source label complete, rest, bench, scopes, h => by
    have hgets := h _ .refl
    have hl : ∀ l, label = some l → bench.lookup l ≠ .ok id := fun l hlabel hlookup =>
      hgets ⟨_, rest, rfl, .inl ⟨l, hlabel, hlookup⟩⟩
    exact Bench.spares_compute hl fun registry hr =>
      Grammar.parse_spares (fun hbinds => hgets ⟨_, rest, rfl, .inr hbinds⟩) _ hr
  | .block label actions raises, rest, bench, scopes, h => by
    unfold perform
    cases hlabel : bench.lookupOrAdd label with
    | error stop => exact spares_of_registries id rfl rfl
    | ok entered =>
      obtain ⟨other, inner⟩ := entered
      have hactions := performAll_spares actions (inner.withCurrent (some other))
        (.block other :: scopes) fun scene hscene => h scene (.head (.block hlabel) hscene)
      cases label with
      | some l =>
        obtain ⟨found, hfound, heq⟩ := bind_eq_ok.1 hlabel
        cases heq
        refine Bench.spares_withCurrent (fun heq => ?_) hactions
        exact h _ .refl ⟨_, rest, rfl, hfound.trans (congrArg _ (Option.some.inj heq))⟩
      | none =>
        cases hlabel
        intro hcurrent hlt
        have hadded := spares_addRegistry bench.session default id
        have hother : some bench.session.registries.size ≠ some id := fun heq =>
          absurd (Option.some.inj heq) (Nat.ne_of_gt hlt)
        have hinside : Spares id (bench.add default).2.session _ :=
          Bench.spares_withCurrent hother hactions
        exact (isLaw_spares id).trans hadded hinside hcurrent hlt
  | .thread actions, rest, bench, scopes, h => by
    unfold perform
    refine Bench.spares_withCurrent (by simp) (performAll_spares actions _ (.thread :: scopes) ?_)
    exact fun scene hscene => h scene (.head .thread hscene)

theorem performAll_spares : ∀ (actions : List Action) (bench : Bench) (scopes : List Scope),
    (∀ scene, Relation.ReflTransGen Scene.Leads ⟨actions, bench, scopes⟩ scene →
      ¬ scene.Gets id) →
    Spares id bench.session (performAll actions bench).2.session
  | [], _, _, _ => spares_of_registries id rfl rfl
  | action :: rest, bench, scopes, h => by
    refine (isLaw_spares id).trans (perform_spares action rest bench scopes h) ?_
    exact performAll_spares rest (perform action bench).2 scopes fun scene hscene =>
      h scene (.head (.next .past) hscene)

end

/-! ### Points of programs -/

namespace Scene

/-- What scopes being a stack comes to at a point of a program. -/
structure Stacked (scene : Scene) : Prop where
  /-- Inside a block, the registry of the block is current. -/
  installed : ∀ id outer, scene.scopes = .block id :: outer →
    scene.bench.current = (id, scene.bench)
  /-- A block or thread leaves what is current as it is, in whatever way it is left. -/
  left : ∀ action rest, scene.rest = action :: rest → action.opens = true →
    (perform action scene.bench).2.session.current = scene.bench.session.current
  /-- If there is none, the one that is asked for is new, -/
  fresh : scene.bench.session.current = none →
    scene.bench.current.1 = scene.bench.session.registries.size ∧
      scene.bench.current.2.session.registry scene.bench.session.registries.size = default
  /-- and is made when it is asked for first, and not before. -/
  made : ∀ action rest, scene.rest = action :: rest → scene.bench.session.current = none →
    (perform action scene.bench).2.session.current =
      if action.asks = true then some scene.bench.session.registries.size else none
  /-- From then on the same one is current wherever the program is in this scope. -/
  kept : ∀ id later, scene.bench.session.current = some id →
    Relation.ReflTransGen Next scene later → later.bench.current = (id, later.bench)
  /-- A thread spares the registries that are not got by themselves in it. -/
  spared : ∀ actions rest, scene.rest = .thread actions :: rest →
    ∀ id < scene.bench.session.registries.size,
      (∀ inner, Relation.ReflTransGen Leads
        ⟨actions, scene.bench.withCurrent none, .thread :: scene.scopes⟩ inner → ¬ inner.Gets id) →
      (perform (.thread actions) scene.bench).2.session.registry id =
        scene.bench.session.registry id

end Scene

end SeedGrowth.Scoping
