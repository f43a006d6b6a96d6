import SeedGrowth.Proofs.Restoration.Outcome
import SeedGrowth.Scoping

/-!
# What single actions do to the registries

An action leaves the current registry as it is. If there is none, an action that asks for it
makes a new one. An evaluation spares a registry that is not current, and to which no rule is
bound.
-/
namespace SeedGrowth

variable {ρ : Type}

namespace Session

variable {σ : Session} {id : RegistryId}

/-- A registry that is there and not current stays as it is, and does not become current. -/
def Spares (id : RegistryId) (σ σ' : Session) : Prop :=
  σ.current ≠ some id → id < σ.registries.size →
    σ'.registry id = σ.registry id ∧ σ'.current ≠ some id ∧ id < σ'.registries.size

theorem spares_of_registries {σ' : Session} (id : RegistryId)
    (hr : σ'.registries = σ.registries) (hc : σ'.current = σ.current) : σ.Spares id σ' := by
  intro hcurrent hlt
  rw [registry, registry, hr, hc]
  exact ⟨rfl, hcurrent, hlt⟩

theorem isLaw_spares (id : RegistryId) : IsLaw (Spares id) where
  untouched hr hc _ _ := spares_of_registries id hr hc
  trans := by
    intro σ σ' σ'' h h' hcurrent hlt
    obtain ⟨hregistry, hcurrent', hlt'⟩ := h hcurrent hlt
    obtain ⟨hregistry', hcurrent'', hlt''⟩ := h' hcurrent' hlt'
    exact ⟨hregistry'.trans hregistry, hcurrent'', hlt''⟩

theorem spares_addRegistry (σ : Session) (r : Registry) (id : RegistryId) :
    σ.Spares id (σ.addRegistry r).2 := by
  intro hcurrent hlt
  refine ⟨?_, hcurrent, hlt.trans (by simp [addRegistry])⟩
  rw [registry_addRegistry, if_neg (Nat.ne_of_lt hlt)]

theorem spares_currentRegistry (σ : Session) (id : RegistryId) :
    σ.Spares id σ.currentRegistry.2 := by
  cases h : σ.current with
  | some current =>
    rw [currentRegistry_of_current h]
    exact spares_of_registries id rfl rfl
  | none =>
    intro hcurrent hlt
    obtain ⟨hregistry, -, hlt'⟩ := spares_addRegistry σ default id hcurrent hlt
    rw [currentRegistry_of_none h]
    refine ⟨hregistry, fun heq => ?_, hlt'⟩
    -- The new registry has a number of its own.
    exact absurd (Option.some.inj heq) (Nat.ne_of_gt hlt)

theorem spares_modifyRegistry {other : RegistryId} (h : id ≠ other)
    (change : Registry → Registry) : σ.Spares id (σ.modifyRegistry other change) := by
  intro hcurrent hlt
  refine ⟨?_, hcurrent, hlt.trans_eq Array.size_modify.symm⟩
  rw [registry_modifyRegistry_eq, if_neg fun hmem => h hmem.1]

end Session

namespace Eval

open Session

theorem spares_registryOr (bound : Option RegistryId) (id : RegistryId) :
    (registryOr bound).Obeys (Spares id) := by
  intro σ
  cases bound with
  | some other => exact spares_of_registries id rfl rfl
  | none => exact spares_currentRegistry σ id

/-- The registry that is found is current or bound. -/
theorem ne_of_registryOr {bound : Option RegistryId} {id other : RegistryId} {σ σ' : Session}
    (h : registryOr bound σ = (.ok other, σ')) (hb : bound ≠ some id)
    (hc : σ'.current ≠ some id) : id ≠ other := by
  intro heq
  subst heq
  cases bound with
  | some bound =>
    cases h
    exact hb rfl
  | none =>
    cases h
    exact hc (current_currentRegistry σ)

theorem spares_flagOf {id other : RegistryId} (h : id ≠ other) (name : Value) :
    (flagOf other name).Obeys (Spares id) := by
  intro σ
  rw [flagOf_apply]
  cases (σ.registry other).get name with
  | error fault => exact spares_of_registries id rfl rfl
  | ok answer => exact spares_modifyRegistry h _

end Eval

namespace Grammar

open Session

/-- A rule of the grammar is bound to the registry. -/
def Binds (g : Grammar ρ) (id : RegistryId) : Prop :=
  ∃ r guard, (g.rule r).guard = some guard ∧ guard.registry = some id

theorem respects_spares {g : Grammar ρ} {id : RegistryId} (h : ¬ g.Binds id) :
    g.Respects (Spares id) where
  toIsLaw := isLaw_spares id
  traces := fun _ _ _ _ _ _ => .inl (letsTrace_of_registries (spares_of_registries id) _)
  arrives := by
    intro r guard hr σ σ' other hrun
    have hregistry := Eval.spares_registryOr guard.registry id σ
    rw [hrun] at hregistry
    refine ⟨hregistry, fun hcurrent hlt => ?_⟩
    have hne := Eval.ne_of_registryOr hrun (fun heq => h ⟨r, guard, hr, heq⟩) hcurrent
    exact Eval.spares_flagOf hne guard.name σ' hcurrent hlt
  deeper := by
    intro σ σ' other hinner hcurrent hlt
    obtain ⟨hregistry, hcurrent', hlt'⟩ := hinner hcurrent (hlt.trans_eq Array.size_modify.symm)
    refine ⟨?_, hcurrent', hlt'.trans_eq Array.size_modify.symm⟩
    rw [registry_modifyRegistry_eq] at hregistry ⊢
    by_cases hid : id = other
    · subst hid
      rw [if_pos ⟨rfl, hlt⟩] at hregistry
      rw [if_pos ⟨rfl, hlt'⟩, hregistry]
      rfl
    · rw [if_neg fun hmem => hid hmem.1] at hregistry ⊢
      exact hregistry

/-- Parsing spares a registry that it is not given, that is not current, and to which no rule is
bound. -/
theorem parse_spares {g : Grammar ρ} {id : RegistryId} (h : ¬ g.Binds id) (parser : Parser ρ)
    {request : Request} (hr : request.registry ≠ some id) :
    (g.parse parser request).Obeys (Spares id) := by
  intro σ
  refine (respects_spares h).parse_obeys parser (Eval.spares_registryOr _ id σ) ?_
  intro other σ' hrun x hx hcurrent hlt
  have hne := Eval.ne_of_registryOr hrun hr hcurrent
  -- Inside, the registry that was found is current.
  obtain ⟨hregistry, -, hlt'⟩ := hx { σ' with current := some other }
    (fun heq => hne (Option.some.inj heq).symm) hlt
  exact ⟨hregistry, hcurrent, hlt'⟩

end Grammar

theorem Calculator.not_binds (id : RegistryId) : ¬ Calculator.grammar.Binds id := by
  intro h
  obtain ⟨r, guard, hr, hid⟩ := h
  cases r <;> cases hr <;> cases hid

end SeedGrowth
