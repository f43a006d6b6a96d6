import SeedGrowth.Calculator.Grammar
import SeedGrowth.Proofs.Grammar.Parsing
import SeedGrowth.Proofs.Registry.History
import SeedGrowth.Proofs.Restoration.Basic

/-!
# What calls leave behind

However a call or a parse ends, with a match, without one, or by a fault anywhere inside
nested calls, the registries have the levels they had. They may have got further names, at
the end, which have their places as flags. The current registry is the one it was, unless
there was none and a standard one was made.
-/
namespace SeedGrowth

variable {ρ : Type}

/-- The registry is at its level again, and the names it has got have their places as flags. -/
structure Registry.Named (r r' : Registry) : Prop extends Grown r r' where
  level : r'.level = r.level
  placed : ∀ {i : Nat} {name : Value}, r.size ≤ i → r'.names[i]? = some name →
    name.alike name = true → r'.find? name = some i

namespace Registry.Named

variable {r r' r'' : Registry}

theorem refl (r : Registry) : r.Named r where
  toGrown := .refl r
  level := rfl
  placed := by
    intro i name hle hi
    rw [List.getElem?_eq_none hle] at hi
    cases hi

theorem trans (h : r.Named r') (h' : r'.Named r'') : r.Named r'' where
  toGrown := h.toGrown.trans h'.toGrown
  level := h'.level.trans h.level
  placed := by
    intro i name hle hi halike
    by_cases hlt : i < r'.size
    · -- A name that was there before keeps its flag.
      have hi' : r'.names[i]? = some name := by
        obtain ⟨rest, hrest⟩ := h'.names
        rwa [← hrest, List.getElem?_append_left hlt] at hi
      exact h'.toGrown.find? (h.placed hle hi' halike)
    · exact h'.placed (Nat.le_of_not_lt hlt) hi halike

/-- A name that is looked up is added at the end, if it is new. -/
theorem of_get {name : Value} {flag : Nat} (h : r.get name = .ok (flag, r')) : r.Named r' := by
  have hanswers := r.get_answers name
  rw [h] at hanswers
  cases hanswers with
  | known _ _ => exact refl r
  | added _ hnew _ =>
    refine ⟨⟨rfl, rfl, List.prefix_append ..⟩, rfl, fun {i name'} hle hi halike => ?_⟩
    have hlast : i = r.size ∧ name' = name := by
      rw [List.getElem?_append_right hle] at hi
      have hi' := List.getElem?_singleton.symm.trans hi
      split at hi'
      · next heq =>
        cases hi'
        exact ⟨Nat.le_antisymm (Nat.le_of_sub_eq_zero heq) hle, rfl⟩
      · cases hi'
    obtain ⟨rfl, rfl⟩ := hlast
    exact find?_append_self halike hnew

/-- What happens one level deeper is undone with the level. -/
theorem withLevel {level : Nat} (h : Registry.Named { r with level } r') :
    r.Named { r' with level := r.level } :=
  ⟨⟨h.capacity, h.verbose, h.names⟩, rfl, h.placed⟩

end Registry.Named

/-- The registries are at their levels again, and may have got further names; where there is no
registry yet, one without names is meant. The current registry is as it was, or there was none
and it is one more than there were. -/
structure Session.Restored (σ σ' : Session) : Prop where
  registry : ∀ id, (σ.registry id).Named (σ'.registry id)
  current : (σ'.current = σ.current ∧ σ'.registries.size = σ.registries.size) ∨
    (σ.current = none ∧ σ'.current = some σ.registries.size ∧
      σ'.registries.size = σ.registries.size + 1)

namespace Session.Restored

variable {σ σ' σ'' : Session}

theorem of_registries (hr : σ'.registries = σ.registries) (hc : σ'.current = σ.current) :
    σ.Restored σ' := by
  refine ⟨fun id => ?_, .inl ⟨hc, congrArg Array.size hr⟩⟩
  rw [Session.registry, Session.registry, hr]
  exact .refl _

theorem trans (h : σ.Restored σ') (h' : σ'.Restored σ'') : σ.Restored σ'' := by
  refine ⟨fun id => (h.registry id).trans (h'.registry id), ?_⟩
  rcases h.current with ⟨hc, hs⟩ | ⟨hnone, hc, hs⟩
  · rw [← hc, ← hs]
    exact h'.current
  · rcases h'.current with ⟨hc', hs'⟩ | ⟨hnone', -⟩
    · exact .inr ⟨hnone, hc'.trans hc, hs'.trans hs⟩
    · rw [hc] at hnone'
      cases hnone'

theorem isLaw : Session.IsLaw Session.Restored where
  untouched hr hc _ _ := of_registries hr hc
  trans := trans

theorem size_le (h : σ.Restored σ') : σ.registries.size ≤ σ'.registries.size := by
  rcases h.current with ⟨-, hs⟩ | ⟨-, -, hs⟩ <;> omega

/-- A registry is found, or a standard one is made where there is none. -/
theorem currentRegistry (σ : Session) : σ.Restored σ.currentRegistry.2 := by
  unfold Session.currentRegistry
  cases hc : σ.current with
  | some id => exact of_registries rfl rfl
  | none =>
    refine ⟨fun id => ?_, .inr ⟨hc, rfl, Array.size_push _⟩⟩
    change (σ.registry id).Named ((σ.addRegistry default).2.registry id)
    rw [registry_addRegistry]
    split
    · next heq =>
      have hdefault : σ.registry id = default := by
        simp [Session.registry, Array.getD_eq_getD_getElem?, heq]
      rw [hdefault]
      exact .refl _
    · exact .refl _

theorem registryOr (bound : Option RegistryId) : (Eval.registryOr bound).Obeys Restored := by
  intro σ
  cases bound with
  | some id => exact of_registries rfl rfl
  | none => exact currentRegistry σ

theorem modifyRegistry (σ : Session) (id : RegistryId) {registry : Registry}
    (h : (σ.registry id).Named registry) : σ.Restored (σ.modifyRegistry id fun _ => registry) := by
  refine ⟨fun id' => ?_, .inl ⟨rfl, Array.size_modify⟩⟩
  rw [registry_modifyRegistry_eq]
  split
  · next hid =>
    rw [hid.1]
    exact h
  · exact .refl _

theorem flagOf (id : RegistryId) (name : Value) : (Eval.flagOf id name).Obeys Restored := by
  intro σ
  rw [Eval.flagOf_apply]
  cases hget : (σ.registry id).get name with
  | error fault => exact of_registries rfl rfl
  | ok answer => exact modifyRegistry σ id (.of_get hget)

/-- The level goes back on the way out. -/
theorem deeper (id : RegistryId)
    (h : (σ.modifyRegistry id fun r => { r with level := r.level + 1 }).Restored σ') :
    σ.Restored (σ'.modifyRegistry id fun r => { r with level := r.level - 1 }) := by
  have hsize : (σ.modifyRegistry id fun r => { r with level := r.level + 1 }).registries.size =
      σ.registries.size := Array.size_modify
  refine ⟨fun id' => ?_, ?_⟩
  · have hnamed := h.registry id'
    have hle := h.size_le
    rw [registry_modifyRegistry_eq] at hnamed ⊢
    rw [hsize] at hle
    by_cases hid : id' = id
    · subst hid
      by_cases hlt : id' < σ.registries.size
      · rw [if_pos ⟨rfl, hlt⟩] at hnamed
        have hlevel : (σ'.registry id').level - 1 = (σ.registry id').level := by
          rw [hnamed.level, Nat.add_sub_cancel]
        rw [if_pos ⟨rfl, hlt.trans_le hle⟩, hlevel]
        exact hnamed.withLevel
      · -- A registry that is made meanwhile is at level zero.
        rw [if_neg fun hmem => hlt hmem.2] at hnamed
        split
        · have hzero : (σ.registry id').level = 0 := by
            simp [Session.registry, Array.getD_eq_getD_getElem?, hlt]
            rfl
          have hlevel : (σ'.registry id').level - 1 = (σ.registry id').level := by
            rw [hnamed.level, hzero]
          rw [hlevel]
          exact Registry.Named.withLevel hnamed
        · exact hnamed
    · rw [if_neg fun hmem => hid hmem.1] at hnamed ⊢
      exact hnamed
  · have hcurrent := h.current
    rw [hsize] at hcurrent
    simpa only [Session.modifyRegistry, Array.size_modify] using hcurrent

/-- What happens while some registry is current does not change which one was before. -/
theorem within {α : Type} {x : Eval α} (hx : x.Obeys Restored) (id : RegistryId) :
    (Eval.within id x).Obeys Restored := by
  intro σ
  have h := hx { σ with current := some id }
  refine ⟨h.registry, .inl ⟨rfl, ?_⟩⟩
  rcases h.current with ⟨-, hs⟩ | ⟨hnone, -⟩
  · exact hs
  · cases hnone

end Session.Restored

namespace Grammar

open Session

theorem respects_restored (g : Grammar ρ) : g.Respects Restored where
  toIsLaw := Restored.isLaw
  traces := fun _ _ _ _ _ _ => .inl (letsTrace_of_registries Restored.of_registries _)
  arrives := by
    intro r guard _ σ σ' id hrun
    refine ⟨?_, Restored.flagOf id guard.name σ'⟩
    have hregistry := Restored.registryOr guard.registry σ
    rwa [hrun] at hregistry
  deeper id h := Restored.deeper id h

theorem parse_restored (g : Grammar ρ) (parser : Parser ρ) (request : Request) :
    (g.parse parser request).Obeys Restored := by
  intro σ
  refine g.respects_restored.parse_obeys parser (Restored.registryOr _ σ) ?_
  exact fun id σ' _ x hx => Restored.within hx id σ'

/-- Parsing makes a registry current only if it is given none. -/
theorem parse_current (g : Grammar ρ) (parser : Parser ρ) (request : Request) (σ : Session) :
    (g.parse parser request σ).2.current = (Eval.registryOr request.registry σ).2.current := by
  cases hfound : Eval.registryOr request.registry σ with
  | mk found τ =>
    cases found with
    | error stop => rw [parse, Program.bind_error hfound]
    | ok id =>
      cases hclear : Cursor.clear request.source.toList (τ.registry id).capacity with
      | error fault => rw [g.parse_of_clear_error parser hfound hclear]
      | ok s => rw [g.parse_of_clear parser hfound hclear]

theorem parse_current_of_isSome (g : Grammar ρ) (parser : Parser ρ) {request : Request}
    (h : request.registry.isSome = true) (σ : Session) :
    (g.parse parser request σ).2.current = σ.current := by
  obtain ⟨id, hid⟩ := Option.isSome_iff_exists.1 h
  rw [parse_current, hid]
  rfl

/-- However a call of a rule, a parse or a calculation ends, the registries are at the levels at
which they were, with the flags of their names kept and those of new names handed out in a row,
and the current registry is the one it was. Only where there was none, and none was given, it may
be a new one. -/
theorem leaves_restored (g : Grammar ρ) (σ : Session) :
    (∀ depth r s, σ.Restored (g.call depth r s σ).2) ∧
      (∀ parser s, σ.Restored (g.apply parser s σ).2) ∧
      (∀ parser request, σ.Restored (g.parse parser request σ).2 ∧
        (request.registry.isSome = true → (g.parse parser request σ).2.current = σ.current)) ∧
      ∀ source registry, σ.Restored (Calculator.evaluate source registry σ).2 ∧
        (registry.isSome = true → (Calculator.evaluate source registry σ).2.current = σ.current) :=
  ⟨fun depth r s => g.respects_restored.call_obeys depth r s σ,
    fun parser s => g.respects_restored.apply_obeys parser s σ,
    fun parser request =>
      ⟨g.parse_restored parser request σ, fun h => g.parse_current_of_isSome parser h σ⟩,
    fun _ _ => ⟨Calculator.grammar.parse_restored Calculator.start _ σ,
      fun h => Calculator.grammar.parse_current_of_isSome Calculator.start h σ⟩⟩

end Grammar

/-- A division by zero ends a calculation inside brackets, while two rules are being called for
the second time. The rules have got their flags in a new registry, which is at level zero. -/
theorem Calculator.evaluate_division_restored :
    (Calculator.evaluate "1+(1/0)" none .empty).1 = .error (.fault (.zeroDivision .quotient)) ∧
      Session.Restored .empty (Calculator.evaluate "1+(1/0)" none .empty).2 ∧
      (Calculator.evaluate "1+(1/0)" none .empty).2.current = some 0 ∧
      ((Calculator.evaluate "1+(1/0)" none .empty).2.registry 0).level = 0 ∧
      ((Calculator.evaluate "1+(1/0)" none .empty).2.registry 0).size = 2 := by
  obtain ⟨-, -, -, hevaluate⟩ := Calculator.grammar.leaves_restored .empty
  obtain ⟨hrestored, -⟩ := hevaluate "1+(1/0)" none
  have hfault : fault? (Calculator.evaluate "1+(1/0)" none .empty).1 =
      some (.zeroDivision .quotient) := by decide +kernel
  have hlevel := (hrestored.registry 0).level
  exact ⟨fault?_eq_some.1 hfault, hrestored, by decide +kernel, hlevel, by decide +kernel⟩

end SeedGrowth
