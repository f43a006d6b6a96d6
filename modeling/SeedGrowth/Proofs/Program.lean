import SeedGrowth.Grammar.Session

/-!
# Programs with a state

Evaluations are programs that change a state and may stop; the state survives. The
equations here say how such programs run.
-/
namespace SeedGrowth

/-- A program that changes a state of type `σ` and may stop. -/
abbrev Program (σ α : Type) : Type := ExceptT Stop (StateM σ) α

namespace Program

variable {σ α β : Type}

theorem bind_apply (x : Program σ α) (f : α → Program σ β) (s : σ) :
    (x >>= f) s = match x s with
      | (.ok a, s') => f a s'
      | (.error stop, s') => (.error stop, s') := by
  change ExceptT.bindCont f (x s).1 (x s).2 = _
  cases x s with
  | mk result s' => cases result <;> rfl

theorem bind_ok {x : Program σ α} {s s' : σ} {a : α} (h : x s = (.ok a, s'))
    (f : α → Program σ β) : (x >>= f) s = f a s' := by
  rw [bind_apply, h]

theorem bind_error {x : Program σ α} {s s' : σ} {stop : Stop} (h : x s = (.error stop, s'))
    (f : α → Program σ β) : (x >>= f) s = (.error stop, s') := by
  rw [bind_apply, h]

/-- A row of programs that goes well does so step by step. -/
theorem exists_of_bind {x : Program σ α} {f : α → Program σ β} {s s' : σ} {b : β}
    (h : (x >>= f) s = (.ok b, s')) : ∃ a s₁, x s = (.ok a, s₁) ∧ f a s₁ = (.ok b, s') := by
  rw [bind_apply] at h
  cases hx : x s with
  | mk result s₁ =>
    rw [hx] at h
    cases result with
    | ok a => exact ⟨a, s₁, rfl, h⟩
    | error stop => cases h

end Program

/-- Where a row of checked computations goes wrong. -/
theorem bind_eq_error {ε α β : Type} {x : Except ε α} {f : α → Except ε β} {e : ε}
    (h : (x >>= f) = .error e) : x = .error e ∨ ∃ a, x = .ok a ∧ f a = .error e := by
  cases x with
  | ok a => exact .inr ⟨a, rfl, h⟩
  | error e' =>
    cases h
    exact .inl rfl

/-- How a row of checked computations goes well. -/
theorem bind_eq_ok {ε α β : Type} {x : Except ε α} {f : α → Except ε β} {b : β} :
    (x >>= f) = .ok b ↔ ∃ a, x = .ok a ∧ f a = .ok b := by
  cases x with
  | ok a =>
    constructor
    · intro h
      exact ⟨a, rfl, h⟩
    · rintro ⟨a', ha, hf⟩
      cases ha
      exact hf
  | error e =>
    constructor
    · intro h
      cases h
    · rintro ⟨a, ha, -⟩
      cases ha

@[simp] theorem ok_bind {ε α β : Type} (a : α) (f : α → Except ε β) :
    (Except.ok a >>= f) = f a := rfl

@[simp] theorem error_bind {ε α β : Type} (e : ε) (f : α → Except ε β) :
    (Except.error e >>= f) = .error e := rfl

end SeedGrowth
