import SeedGrowth.Value.Text

/-!
# Capacities from values

A capacity is given as a value: a whole number, or a real that is one. What is
not a positive multiple of the word size is refused, and so is what is no number.
-/
namespace SeedGrowth

/-- The whole number that a number is, if it is one. -/
def Number.toInt? : Number → Option Int
  | .int n => some n
  | .real x => (Binary64.shape x).toInt?

/-- The number is real. -/
def Number.isReal : Number → Bool
  | .int _ => false
  | .real _ => true

namespace Capacity

/-- The capacity of a number of flags, which is real or not. -/
def ofInt? (n : Int) (real : Bool) : Option Capacity :=
  if h : 0 < n ∧ n % wordSize = 0 then
    some ⟨(n / wordSize).toNat, by simp only [wordSize] at h ⊢; omega, real⟩
  else none

/-- The capacity that a value gives. -/
def ofValue (v : Value) : Except Fault Capacity :=
  match v.number? with
  | none => .error (.mismatch (.binary "divmod()" v.kind .int))
  | some x =>
    match x.toInt?.bind (ofInt? · x.isReal) with
    | some c => .ok c
    | none => do throw (.badCapacity (← v.written))

/-- The capacity given, or the standard one. -/
def ofValue? : Option Value → Except Fault Capacity
  | none => .ok standard
  | some v => ofValue v

theorem ofInt?_eq_some_iff {n : Int} {real : Bool} {c : Capacity} :
    ofInt? n real = some c ↔ n = c.size ∧ real = c.real := by
  obtain ⟨words, hw, r⟩ := c
  unfold ofInt?
  by_cases h : 0 < n ∧ n % wordSize = 0
  · simp only [h, and_self, ↓reduceDIte, Option.some.injEq, mk.injEq, size]
    refine and_congr_left fun _ => ?_
    simp only [wordSize] at *
    omega
  · simp only [h, ↓reduceDIte, reduceCtorEq, false_iff, size]
    simp only [wordSize] at *
    omega

theorem ofValue_int_eq_ok_iff {n : Int} {c : Capacity} :
    ofValue (.int n) = .ok c ↔ n = c.size ∧ c.real = false := by
  simp only [ofValue, Value.number?, Number.toInt?, Number.isReal, Option.bind_some]
  cases h : ofInt? n false with
  | some d =>
    have hd := ofInt?_eq_some_iff.1 h
    constructor
    · rintro ⟨⟩
      exact ⟨hd.1, hd.2.symm⟩
    · rintro ⟨hn, hr⟩
      have hc := (ofInt?_eq_some_iff (c := c)).2 ⟨hn, hr.symm⟩
      rw [h] at hc
      cases hc
      rfl
  | none =>
    have hc : ¬ (n = c.size ∧ c.real = false) := fun ⟨hn, hr⟩ => by
      have hc := (ofInt?_eq_some_iff (c := c)).2 ⟨hn, hr.symm⟩
      rw [h] at hc
      cases hc
    simp only [hc, iff_false]
    cases (Value.int n).written <;> simp [bind, Except.bind, throw, throwThe, MonadExceptOf.throw]

end Capacity

end SeedGrowth
