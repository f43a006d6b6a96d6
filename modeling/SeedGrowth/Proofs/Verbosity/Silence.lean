import SeedGrowth.Proofs.Restoration.Outcome

/-!
# Silence

Where no registry is verbose, nothing is traced, however an evaluation ends. A registry does not
become verbose, and a call is as verbose as its registry is where it begins.
-/
namespace SeedGrowth

variable {ρ : Type} {σ σ' σ'' : Session}

namespace Session

/-- No registry is verbose. -/
def Mute (σ : Session) : Prop := ∀ id, (σ.registry id).verbose = false

/-- Without verbose registries the trace is kept, and there are still none afterwards. -/
def KeepsSilence (σ σ' : Session) : Prop := σ.Mute → σ'.Mute ∧ σ'.trace = σ.trace

theorem mute_empty : Session.empty.Mute := fun _ => rfl

theorem Mute.addRegistry (h : σ.Mute) {registry : Registry} (hr : registry.verbose = false) :
    (σ.addRegistry registry).2.Mute := by
  intro id
  rw [registry_addRegistry]
  split
  · exact hr
  · exact h id

theorem Mute.restored (h : σ.Mute) (hr : σ.Restored σ') : σ'.Mute :=
  fun id => (hr.registry id).verbose.trans (h id)

/-- Registries that are as before and another one may be current, but the trace is the same. -/
theorem Mute.keepsSilence (hr : σ.Restored σ') (ht : σ'.trace = σ.trace) : σ.KeepsSilence σ' :=
  fun h => ⟨h.restored hr, ht⟩

theorem isLaw_keepsSilence : IsLaw KeepsSilence where
  untouched hr hc ht _ := Mute.keepsSilence (.of_registries hr hc) ht
  trans := by
    intro σ σ' σ'' h h' hmute
    obtain ⟨hmute', htrace⟩ := h hmute
    obtain ⟨hmute'', htrace'⟩ := h' hmute'
    exact ⟨hmute'', htrace'.trans htrace⟩

end Session

open Session

namespace Eval

theorem trace_registryOr (bound : Option RegistryId) (σ : Session) :
    (registryOr bound σ).2.trace = σ.trace := by
  cases bound with
  | some id => rfl
  | none =>
    change σ.currentRegistry.2.trace = σ.trace
    unfold Session.currentRegistry
    cases σ.current <;> rfl

theorem trace_flagOf (id : RegistryId) (name : Value) (σ : Session) :
    (flagOf id name σ).2.trace = σ.trace := by
  rw [flagOf_apply]
  cases (σ.registry id).get name <;> rfl

end Eval

/-- A call is at the level of its registry, and as verbose. -/
theorem registry_of_arrive {name : Value} {bound : Option RegistryId} {s : Cursor}
    {arrival : Arrival} (h : arrive name bound s σ = (.ok arrival, σ')) :
    arrival.level = (σ'.registry arrival.registry).level ∧
      arrival.verbose = (σ'.registry arrival.registry).verbose := by
  rw [arrive_apply] at h
  obtain ⟨id, σ₁, -, h⟩ := Program.exists_of_bind h
  obtain ⟨flag, σ₂, -, h⟩ := Program.exists_of_bind h
  obtain ⟨f, σ₃, -, h⟩ := Program.exists_of_bind h
  obtain ⟨registry, σ₄, hread, h⟩ := Program.exists_of_bind h
  obtain ⟨active, σ₅, hcheck, h⟩ := Program.exists_of_bind h
  cases h
  cases hread
  obtain ⟨-, rfl⟩ := Eval.eq_of_lift hcheck
  exact ⟨rfl, rfl⟩

namespace Grammar

theorem respects_keepsSilence (g : Grammar ρ) : g.Respects KeepsSilence where
  toIsLaw := isLaw_keepsSilence
  traces := by
    intro r guard _ s σ σ' arrival harrive
    obtain ⟨-, hverbose⟩ := registry_of_arrive harrive
    by_cases hmute : σ'.Mute
    · rw [hmute] at hverbose
      exact .inl (hverbose ▸ isLaw_keepsSilence.letsTrace_false)
    · exact .inr fun σ'' h => absurd h hmute
  arrives := by
    intro r guard _ σ σ' id hrun
    have hregistry := Restored.registryOr guard.registry σ
    have htrace := Eval.trace_registryOr guard.registry σ
    rw [hrun] at hregistry htrace
    exact ⟨Mute.keepsSilence hregistry htrace,
      Mute.keepsSilence (Restored.flagOf id guard.name σ') (Eval.trace_flagOf id guard.name σ')⟩
  deeper := by
    intro σ σ' id h hmute
    have hlevel : ∀ (σ : Session) (change : Nat → Nat), σ.Mute →
        (σ.modifyRegistry id fun r => { r with level := change r.level }).Mute := by
      intro σ change h id'
      rw [registry_modifyRegistry_eq]
      split <;> exact h id'
    obtain ⟨hmute', htrace⟩ := h (hlevel σ (· + 1) hmute)
    exact ⟨hlevel σ' (· - 1) hmute', htrace⟩

/-- Without verbose registries nothing is traced of a parse. -/
theorem parse_keepsSilence (g : Grammar ρ) (parser : Parser ρ) (request : Request) :
    (g.parse parser request).Obeys KeepsSilence := by
  intro σ
  refine g.respects_keepsSilence.parse_obeys parser
    (Mute.keepsSilence (Restored.registryOr _ σ) (Eval.trace_registryOr _ σ)) ?_
  intro id σ' _ x hx hmute
  -- Which registry is current does not matter to what is verbose.
  exact hx { σ' with current := some id } hmute

end Grammar

end SeedGrowth
