import SeedGrowth.Proofs.Binary64.Amount
import SeedGrowth.Value.Equality

/-!
# Being recognised as another value

Numbers are equal if they amount to the same, whether whole or real. So being recognised
as another value is symmetric and transitive. It is not reflexive on the face of it: only
what amounts to something, or bears a mark, is recognised as itself.
-/
namespace SeedGrowth

open Binary64

/-- What a number amounts to. -/
def Number.amount : Number → Option Amount
  | .int n => some (.finite (wholeUnits n))
  | .real x => (shape x).amount

theorem wholeUnits_inj {m n : Int} : wholeUnits m = wholeUnits n ↔ m = n := by
  unfold wholeUnits
  constructor
  · intro h
    exact mul_right_cancel₀ (by positivity) h
  · intro h
    rw [h]

/-- Numbers are equal if and only if they amount to the same. -/
theorem Number.same_iff (x y : Number) :
    x.same y = true ↔ ∃ a, x.amount = some a ∧ y.amount = some a := by
  cases x with
  | int m =>
    cases y with
    | int n =>
      simp only [Number.same, Number.amount, beq_iff_eq, Option.some.injEq, exists_eq_left',
        Amount.finite.injEq, wholeUnits_inj]
      exact eq_comm
    | real y => simp [Number.same, Number.amount, isInt_iff]
  | real x =>
    cases y with
    | int n => simp [Number.same, Number.amount, isInt_iff]
    | real y => exact beq_iff x y

theorem Number.same_symm {x y : Number} (h : x.same y = true) : y.same x = true := by
  obtain ⟨a, hx, hy⟩ := (same_iff x y).1 h
  exact (same_iff y x).2 ⟨a, hy, hx⟩

theorem Number.same_trans {x y z : Number} (h : x.same y = true) (h' : y.same z = true) :
    x.same z = true := by
  obtain ⟨a, hx, hy⟩ := (same_iff x y).1 h
  obtain ⟨b, hy', hz⟩ := (same_iff y z).1 h'
  rw [hy] at hy'
  cases hy'
  exact (same_iff x z).2 ⟨a, hx, hz⟩

namespace Value

/-- A number is the same as numbers that are the same. -/
theorem same_iff_of_number? {v : Value} {x : Number} (hv : v.number? = some x) (w : Value) :
    v.same w = true ↔ ∃ y, w.number? = some y ∧ x.same y = true := by
  cases v <;> cases hv <;> cases w <;> simp [Value.same, Value.number?]

theorem same_symm_of_number? {v w : Value} {x : Number} (hv : v.number? = some x)
    (h : v.same w = true) : w.same v = true := by
  obtain ⟨y, hw, hy⟩ := (same_iff_of_number? hv w).1 h
  exact (same_iff_of_number? hw v).2 ⟨x, hv, Number.same_symm hy⟩

theorem same_trans_of_number? {u v w : Value} {x : Number} (hu : u.number? = some x)
    (h : u.same v = true) (h' : v.same w = true) : u.same w = true := by
  obtain ⟨y, hv, hy⟩ := (same_iff_of_number? hu v).1 h
  obtain ⟨z, hw, hz⟩ := (same_iff_of_number? hv w).1 h'
  exact (same_iff_of_number? hu w).2 ⟨z, hw, Number.same_trans hy hz⟩

theorem eq_of_sameMark {v w : Value} (h : sameMark v w = true) : v = w := by
  unfold sameMark at h
  split at h
  · rw [beq_iff_eq.1 h]
  · cases h

mutual

theorem same_symm : ∀ {v w : Value}, v.same w = true → w.same v = true
  | .null, w, h => by
    cases w with
    | null => rfl
    | _ => cases h
  | .truth _, _, h | .int _, _, h | .real _, _, h | .nan _, _, h => same_symm_of_number? rfl h
  | .text s, w, h => by
    cases w with
    | text t =>
      have heq : s = t := beq_iff_eq.1 h
      rw [heq] at h ⊢
      exact h
    | _ => cases h
  | .tuple vs, w, h => by
    cases w with
    | tuple ws => exact sameAll_symm h
    | _ => cases h
  | .list vs, w, h => by
    cases w with
    | list ws => exact sameAll_symm h
    | _ => cases h

theorem sameAll_symm : ∀ {vs ws : List Value}, sameAll vs ws = true → sameAll ws vs = true
  | [], ws, h => by
    cases ws with
    | nil => rfl
    | cons w ws => cases h
  | v :: vs, ws, h => by
    cases ws with
    | nil => cases h
    | cons w ws =>
      simp only [sameAll, Bool.and_eq_true, Bool.or_eq_true] at h ⊢
      obtain ⟨hv | hv, hvs⟩ := h
      · have heq := eq_of_sameMark hv
        subst heq
        exact ⟨.inl hv, sameAll_symm hvs⟩
      · exact ⟨.inr (same_symm hv), sameAll_symm hvs⟩

end

mutual

theorem same_trans : ∀ {u v w : Value}, u.same v = true → v.same w = true → u.same w = true
  | .null, v, w, h, h' => by
    cases v with
    | null => exact h'
    | _ => cases h
  | .truth _, _, _, h, h' | .int _, _, _, h, h' | .real _, _, _, h, h' | .nan _, _, _, h, h' =>
    same_trans_of_number? rfl h h'
  | .text s, v, w, h, h' => by
    cases v with
    | text t =>
      have heq : s = t := beq_iff_eq.1 h
      rw [heq]
      exact h'
    | _ => cases h
  | .tuple us, v, w, h, h' => by
    cases v with
    | tuple vs =>
      cases w with
      | tuple ws => exact sameAll_trans h h'
      | _ => cases h'
    | _ => cases h
  | .list us, v, w, h, h' => by
    cases v with
    | list vs =>
      cases w with
      | list ws => exact sameAll_trans h h'
      | _ => cases h'
    | _ => cases h

theorem sameAll_trans : ∀ {us vs ws : List Value}, sameAll us vs = true → sameAll vs ws = true →
    sameAll us ws = true
  | [], vs, ws, h, h' => by
    cases vs with
    | nil => exact h'
    | cons v vs => cases h
  | u :: us, vs, ws, h, h' => by
    cases vs with
    | nil => cases h
    | cons v vs =>
      cases ws with
      | nil => cases h'
      | cons w ws =>
        simp only [sameAll, Bool.and_eq_true, Bool.or_eq_true] at h h' ⊢
        refine ⟨?_, sameAll_trans h.2 h'.2⟩
        rcases h.1 with hu | hu
        · rw [eq_of_sameMark hu]
          exact h'.1
        · rcases h'.1 with hv | hv
          · rw [← eq_of_sameMark hv]
            exact .inr hu
          · exact .inr (same_trans hu hv)

end

theorem alike_symm {v w : Value} (h : v.alike w = true) : w.alike v = true := by
  simp only [alike, Bool.or_eq_true] at h ⊢
  rcases h with h | h
  · have heq := eq_of_sameMark h
    subst heq
    exact .inl h
  · exact .inr (same_symm h)

theorem alike_trans {u v w : Value} (h : u.alike v = true) (h' : v.alike w = true) :
    u.alike w = true := by
  simp only [alike, Bool.or_eq_true] at h h' ⊢
  rcases h with h | h
  · rw [eq_of_sameMark h]
    exact h'
  · rcases h' with h' | h'
    · rw [← eq_of_sameMark h']
      exact .inr h
    · exact .inr (same_trans h h')

/-- Values that are recognised as one another are so as the same others. -/
theorem alike_eq_of_alike {v w : Value} (h : v.alike w = true) : v.alike = w.alike := by
  funext u
  rw [Bool.eq_iff_iff]
  exact ⟨alike_trans (alike_symm h), alike_trans h⟩

end Value

end SeedGrowth
