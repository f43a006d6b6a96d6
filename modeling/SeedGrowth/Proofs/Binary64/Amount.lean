import Mathlib.Tactic.Positivity
import Mathlib.Tactic.Ring
import SeedGrowth.Binary64.Basic

/-!
# What reals amount to

A stored real amounts to a whole number of the least positive real, to an infinity of
either sign, or to nothing. Stored reals have one shape for each amount, apart from the
two zeros, so that reals are equal if and only if they amount to the same.
-/
namespace SeedGrowth.Binary64

open Float.Model (UnpackedFloat)
open Float.Model.UnpackedFloat

/-- What a number amounts to: whole units of the least positive real, or an infinity. -/
inductive Amount where
  | finite (units : Int)
  | infinite (negative : Bool)

/-- A natural number with a sign. -/
def signed (negative : Bool) (n : Nat) : Int := if negative then -n else n

namespace Shape

/-- What a real of the shape amounts to. -/
def amount : Shape → Option Amount
  | finite negative m q => some (.finite (signed negative (m * 2 ^ (q - leastExponent).toNat)))
  | infinite negative => some (.infinite negative)
  | nan => none

/-- The shape is that of a stored real. -/
def Stored : Shape → Prop
  | finite _ m q => m < 2 ^ 53 ∧ leastExponent ≤ q ∧ (q = leastExponent ∨ 2 ^ 52 ≤ m)
  | _ => True

end Shape

/-- The sign is a minus. -/
def isMinus : Sign → Bool
  | .negative => true
  | .positive => false

/-- The shape of a real that has been taken apart. -/
def Shape.ofUnpacked : UnpackedFloat → Shape
  | .infinity s => .infinite (isMinus s)
  | .notANumber => .nan
  | .zero s => .finite (isMinus s) 0 leastExponent
  | .finite s m e _ => .finite (isMinus s) m e

/-- Every shape is that of a stored real. -/
theorem shapeOfBits_stored (bits : Nat) : (shapeOfBits bits).Stored := by
  have hfraction : bits % exponentWeight < 2 ^ 52 := Nat.mod_lt _ (by decide)
  simp only [shapeOfBits]
  split
  · split <;> trivial
  · split
    · exact ⟨by omega, le_rfl, .inl rfl⟩
    · refine ⟨?_, by omega, .inr ?_⟩
      · have hweight : exponentWeight = 2 ^ 52 := rfl
        omega
      · have hweight : exponentWeight = 2 ^ 52 := rfl
        omega

/-- The fraction of a real is what is left of its bits by the weight of the exponent. -/
theorem toNat_unpackMantissa (bits : BitVec 64) :
    (@unpackMantissa .binary64 bits).toNat = bits.toNat % exponentWeight := by
  simp only [unpackMantissa, BitVec.toNat_cast, BitVec.extractLsb_toNat]
  rfl

theorem toNat_unpackExponent (bits : BitVec 64) :
    (@unpackExponent .binary64 bits).toNat = bits.toNat / exponentWeight % 2048 := by
  simp only [unpackExponent, BitVec.toNat_cast, BitVec.extractLsb_toNat, Nat.shiftRight_eq_div_pow]
  rfl

theorem isMinus_unpackSign (bits : BitVec 64) :
    isMinus (Sign.ofBitVec (@unpackSign .binary64 bits)) = (bits.toNat / signWeight % 2 == 1) := by
  have h : (@unpackSign .binary64 bits).toNat = bits.toNat / signWeight % 2 := by
    change (BitVec.cast _ (BitVec.extractLsb 63 63 bits)).toNat = _
    rw [BitVec.toNat_cast, BitVec.extractLsb_toNat, Nat.shiftRight_eq_div_pow]
    rfl
  rw [← h]
  generalize @unpackSign .binary64 bits = sign
  decide +revert

/-- The bit in front of the fraction, which is not stored. -/
theorem toNat_implicit (fraction : BitVec 52) :
    (1#1 ++ fraction).toNat = exponentWeight + fraction.toNat := by
  rw [BitVec.toNat_append, ← Nat.shiftLeft_add_eq_or_of_lt fraction.isLt]
  rfl

/-- The parts of a real, taken apart, are those of its bits. -/
theorem shape_eq (x : Float) : shape x = .ofUnpacked x.toModel.unpack := by
  obtain ⟨⟨⟨bits⟩, valid⟩⟩ := x
  have hm := toNat_unpackMantissa bits
  have he := toNat_unpackExponent bits
  have hs := isMinus_unpackSign bits
  have hgreatest : (@unpackExponent .binary64 bits).toNat = 2047 ↔
      @unpackExponent .binary64 bits = -1#11 := BitVec.toNat_inj (y := -1#11)
  have hleast : (@unpackExponent .binary64 bits).toNat = 0 ↔
      @unpackExponent .binary64 bits = 0#11 := BitVec.toNat_inj (y := 0#11)
  have hzero : (@unpackMantissa .binary64 bits).toNat = 0 ↔
      @unpackMantissa .binary64 bits = 0#52 := BitVec.toNat_inj (y := 0#52)
  have himplicit : (1#1 ++ @unpackMantissa .binary64 bits).toNat =
      exponentWeight + (@unpackMantissa .binary64 bits).toNat := toNat_implicit _
  change shapeOfBits bits.toNat = .ofUnpacked (unpack .binary64 bits)
  rw [shapeOfBits, ← hm, ← he, ← hs]
  delta unpack
  -- The goal is not split, since that would rewrite in the proofs that numbers carry.
  by_cases hgreat : (@unpackExponent .binary64 bits).toNat = 2047
  · rw [if_pos hgreat, if_pos (hgreatest.1 hgreat)]
    by_cases hfraction : (@unpackMantissa .binary64 bits).toNat = 0
    · rw [if_pos hfraction, if_pos (hzero.1 hfraction)]
      rfl
    · rw [if_neg hfraction, if_neg fun h => hfraction (hzero.2 h)]
      rfl
  rw [if_neg hgreat, if_neg fun h => hgreat (hgreatest.2 h)]
  by_cases hsmall : (@unpackExponent .binary64 bits).toNat = 0
  · rw [if_pos hsmall, if_pos (hleast.1 hsmall)]
    by_cases hfraction : @unpackMantissa .binary64 bits = 0#52
    · rw [dif_pos hfraction, hfraction]
      rfl
    · rw [dif_neg hfraction, hleast.1 hsmall]
      rfl
  · rw [if_neg hsmall, if_neg fun h => hsmall (hleast.2 h)]
    change _ = Shape.finite _ (1#1 ++ @unpackMantissa .binary64 bits).toNat (_ - (1023 + 52 : Int))
    rw [himplicit]
    congr 1
    unfold leastExponent
    omega

/-- Whole numbers of units with different exponents are different. -/
theorem exponent_eq_of_units_eq {m m' k k' : Nat} (hm : m < 2 ^ 53) (hm' : k' = 0 ∨ 2 ^ 52 ≤ m')
    (hle : k ≤ k') (h : m * 2 ^ k = m' * 2 ^ k') : k = k' ∧ m = m' := by
  obtain ⟨d, rfl⟩ := Nat.exists_eq_add_of_le hle
  have heq : m = m' * 2 ^ d := by
    rw [Nat.pow_add, Nat.mul_comm (2 ^ k), ← Nat.mul_assoc] at h
    exact Nat.eq_of_mul_eq_mul_right (Nat.two_pow_pos k) h
  cases d with
  | zero => exact ⟨rfl, by simpa using heq⟩
  | succ d =>
    have hlarge : 2 ^ 52 ≤ m' := hm'.resolve_left (by omega)
    have hpow : 2 ≤ 2 ^ (d + 1) := by
      rw [Nat.pow_succ]
      have := Nat.two_pow_pos d
      omega
    have hmul : 2 ^ 52 * 2 ≤ m' * 2 ^ (d + 1) := Nat.mul_le_mul hlarge hpow
    omega

/-- The units of stored reals tell them apart. -/
theorem parts_eq_of_units_eq {b b' : Bool} {m m' : Nat} {q q' : Int}
    (h : (Shape.finite b m q).Stored) (h' : (Shape.finite b' m' q').Stored)
    (heq : m * 2 ^ (q - leastExponent).toNat = m' * 2 ^ (q' - leastExponent).toNat) :
    q = q' ∧ m = m' := by
  obtain ⟨hm, hq, hc⟩ := h
  obtain ⟨hm', hq', hc'⟩ := h'
  rcases Nat.le_total (q - leastExponent).toNat (q' - leastExponent).toNat with hle | hle
  · have hc' : (q' - leastExponent).toNat = 0 ∨ 2 ^ 52 ≤ m' := by omega
    obtain ⟨hk, rfl⟩ := exponent_eq_of_units_eq hm hc' hle heq
    exact ⟨by omega, rfl⟩
  · have hc : (q - leastExponent).toNat = 0 ∨ 2 ^ 52 ≤ m := by omega
    obtain ⟨hk, rfl⟩ := exponent_eq_of_units_eq hm' hc hle heq.symm
    exact ⟨by omega, rfl⟩

theorem signed_ne_zero (b b' : Bool) {n : Nat} (h : 0 < n) : signed b n ≠ signed b' 0 := by
  cases b <;> cases b' <;> simp [signed, h.ne']

theorem signed_inj {b : Bool} {n n' : Nat} : signed b n = signed b n' ↔ n = n' := by
  cases b <;> simp [signed]

theorem signed_ne {n : Nat} (h : 0 < n) (n' : Nat) : signed true n ≠ signed false n' := by
  simp only [signed, if_true, Bool.false_eq_true, if_false]
  omega

theorem amount_finite (b : Bool) (m : Nat) (q : Int) : (Shape.finite b m q).amount =
    some (.finite (signed b (m * 2 ^ (q - leastExponent).toNat))) := rfl

/-- What is not equal does not amount to the same. -/
theorem not_equal_iff {o : Option Ordering} {a b : Option Amount} (ho : o ≠ some .eq)
    (hab : a ≠ b) : o = some .eq ↔ ∃ x, a = some x ∧ b = some x := by
  refine iff_of_false ho ?_
  rintro ⟨x, rfl, rfl⟩
  exact hab rfl

/-- Reals that have been taken apart are equal if they amount to the same. -/
theorem compare_eq_iff {u v : UnpackedFloat} (hu : (Shape.ofUnpacked u).Stored)
    (hv : (Shape.ofUnpacked v).Stored) : u.compare v = some .eq ↔
      ∃ a, (Shape.ofUnpacked u).amount = some a ∧ (Shape.ofUnpacked v).amount = some a := by
  have hunits : ∀ {m : Nat} (q : Int), 0 < m → 0 < m * 2 ^ (q - leastExponent).toNat :=
    fun q hm => Nat.mul_pos hm (Nat.two_pow_pos _)
  have hne : ∀ {b b' : Bool} {m : Nat} {q : Int}, 0 < m →
      (Shape.finite b 0 leastExponent).amount ≠ (Shape.finite b' m q).amount := by
    intro b b' m q hm heq
    rw [amount_finite, amount_finite, Nat.zero_mul, Option.some_inj, Amount.finite.injEq] at heq
    exact signed_ne_zero b' b (hunits q hm) heq.symm
  cases u with
  | notANumber => cases v <;> exact ⟨nofun, fun ⟨_, h, _⟩ => nomatch h⟩
  | infinity s =>
    cases v with
    | infinity t =>
      cases s <;> cases t <;>
        first | exact ⟨fun _ => ⟨_, rfl, rfl⟩, fun _ => rfl⟩ | exact not_equal_iff nofun nofun
    | notANumber => exact not_equal_iff nofun nofun
    | zero t => cases s <;> exact not_equal_iff nofun nofun
    | finite t m e h => cases s <;> exact not_equal_iff nofun nofun
  | zero s =>
    cases v with
    | infinity t => cases t <;> exact not_equal_iff nofun nofun
    | notANumber => exact not_equal_iff nofun nofun
    | zero t => cases s <;> cases t <;> exact ⟨fun _ => ⟨_, rfl, rfl⟩, fun _ => rfl⟩
    | finite t m e h => cases t <;> exact not_equal_iff nofun (hne h)
  | finite s m e h =>
    cases v with
    | infinity t => cases t <;> exact not_equal_iff nofun nofun
    | notANumber => exact not_equal_iff nofun nofun
    | zero t => cases s <;> exact not_equal_iff nofun (hne h).symm
    | finite t m' e' h' =>
      have hparts : compare e e' = .eq ∧ compare m m' = .eq ↔
          m' * 2 ^ (e' - leastExponent).toNat = m * 2 ^ (e - leastExponent).toNat := by
        rw [Std.compare_eq_iff_eq, Std.compare_eq_iff_eq]
        constructor
        · intro heq
          rw [heq.1, heq.2]
        · intro heq
          exact parts_eq_of_units_eq hu hv heq.symm
      have hamounts : ∀ b b', (∃ x, (Shape.finite b m e).amount = some x ∧
          (Shape.finite b' m' e').amount = some x) ↔
          signed b' (m' * 2 ^ (e' - leastExponent).toNat) =
            signed b (m * 2 ^ (e - leastExponent).toNat) := by
        simp [amount_finite]
      have hsigns := signed_ne (hunits e h) (m' * 2 ^ (e' - leastExponent).toNat)
      have hsigns' := signed_ne (hunits e' h') (m * 2 ^ (e - leastExponent).toNat)
      cases s <;> cases t
      case positive.positive =>
        refine Iff.trans ?_ (hamounts false false).symm
        change some ((compare e e').then (compare m m')) = some .eq ↔ _
        rw [Option.some_inj, Ordering.then_eq_eq, hparts, signed_inj]
      case negative.negative =>
        refine Iff.trans ?_ (hamounts true true).symm
        change some ((compare e e').then (compare m m')).swap = some .eq ↔ _
        rw [Option.some_inj, Ordering.swap_eq_eq, Ordering.then_eq_eq, hparts, signed_inj]
      case positive.negative =>
        exact (iff_of_false nofun hsigns').trans (hamounts false true).symm
      case negative.positive =>
        exact (iff_of_false nofun hsigns.symm).trans (hamounts true false).symm

/-- Reals are equal if and only if they amount to the same. -/
theorem beq_iff (x y : Float) :
    (x == y) = true ↔ ∃ a, (shape x).amount = some a ∧ (shape y).amount = some a := by
  have hx : (Shape.ofUnpacked x.toModel.unpack).Stored := shape_eq x ▸ shapeOfBits_stored _
  have hy : (Shape.ofUnpacked y.toModel.unpack).Stored := shape_eq y ▸ shapeOfBits_stored _
  rw [shape_eq, shape_eq, ← compare_eq_iff hx hy]
  change (x.toModel.unpack.compare y.toModel.unpack == some .eq) = true ↔ _
  exact beq_iff_eq

/-- The units of a whole number. -/
def wholeUnits (n : Int) : Int := n * 2 ^ 1074

theorem signed_mul (b : Bool) (m n : Nat) : signed b (m * n) = signed b m * n := by
  cases b <;> simp [signed]

/-- A real is a whole number if and only if it amounts to it. -/
theorem isInt_iff (x : Float) (n : Int) :
    (shape x).isInt n = true ↔ (shape x).amount = some (.finite (wholeUnits n)) := by
  have hstored : (shape x).Stored := shapeOfBits_stored _
  cases hx : shape x with
  | nan => simp [Shape.isInt, Shape.amount]
  | infinite b => simp [Shape.isInt, Shape.amount]
  | finite b m q =>
    rw [hx] at hstored
    obtain ⟨-, hq, -⟩ := hstored
    unfold leastExponent at hq
    -- Both sides of the equation are scaled by the same power.
    have hscale : (2 : Int) ^ (q + 1074).toNat * 2 ^ (-q).toNat = 2 ^ 1074 * 2 ^ q.toNat := by
      rw [← pow_add, ← pow_add]
      congr 1
      omega
    have hleft : (Shape.finite b m q).isInt n = true ↔
        signed b m * 2 ^ q.toNat = n * 2 ^ (-q).toNat := by
      have hsigned : signed b m * 2 ^ q.toNat = signed b (m * 2 ^ q.toNat) := by
        rw [signed_mul, Nat.cast_pow]
        rfl
      rw [hsigned]
      simp [Shape.isInt, Decimal.ratioPow, signed]
    have hright : (Shape.finite b m q).amount = some (.finite (wholeUnits n)) ↔
        signed b m * 2 ^ (q + 1074).toNat = n * 2 ^ 1074 := by
      have hsigned : signed b m * 2 ^ (q + 1074).toNat = signed b (m * 2 ^ (q + 1074).toNat) := by
        rw [signed_mul, Nat.cast_pow]
        rfl
      rw [hsigned]
      simp only [Shape.amount, wholeUnits, leastExponent, Option.some.injEq, Amount.finite.injEq,
        sub_neg_eq_add]
    rw [hleft, hright]
    have hdown : (2 : Int) ^ (-q).toNat ≠ 0 := by positivity
    have hunit : (2 : Int) ^ 1074 ≠ 0 := by positivity
    generalize (2 : Int) ^ 1074 = unit at *
    generalize (2 : Int) ^ (-q).toNat = down at *
    generalize (2 : Int) ^ q.toNat = up at *
    generalize (2 : Int) ^ (q + 1074).toNat = units at *
    constructor
    · intro h
      refine mul_right_cancel₀ hdown ?_
      calc signed b m * units * down = signed b m * up * unit := by rw [mul_assoc, hscale]; ring
        _ = n * unit * down := by rw [h]; ring
    · intro h
      refine mul_right_cancel₀ hunit ?_
      calc signed b m * up * unit = signed b m * units * down := by
            rw [mul_assoc _ units, hscale]; ring
        _ = n * down * unit := by rw [h]; ring

end SeedGrowth.Binary64
