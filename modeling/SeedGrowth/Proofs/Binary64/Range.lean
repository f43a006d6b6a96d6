import Mathlib.Algebra.Group.Nat.Defs
import Mathlib.Order.Nat
import SeedGrowth.Value.Basic

/-!
# Whole numbers among the reals

Whole numbers that can be stored as they are can be stored as reals, if need be rounded.
-/
namespace SeedGrowth.Binary64

/-- The exponent of a whole number is the place of its highest bit. -/
theorem binaryExponent_one {n : Nat} (h : n ≠ 0) : binaryExponent n 1 = n.log2 := by
  have hle : 2 ^ n.log2 ≤ n := Nat.log2_self_le h
  have hone : Nat.log2 1 = 0 := rfl
  simp [binaryExponent, Decimal.ratioPow, hone, hle]

/-- Whole numbers of 64 bits are in the range of the reals: they have 53 bits at most left of
them, and an exponent far below the greatest one. -/
theorem nearestBits_lt {n : Nat} (h : n < 2 ^ 64) : nearestBits n 1 < infinityBits := by
  unfold nearestBits
  split
  · decide
  · next hzero =>
    have hlow : 2 ^ n.log2 ≤ n := Nat.log2_self_le hzero
    have hhigh : n < 2 ^ (n.log2 + 1) := Nat.lt_log2_self
    have hlog : n.log2 < 64 := (Nat.log2_lt hzero).2 h
    rw [binaryExponent_one hzero]
    generalize n.log2 = e at *
    have hm : Decimal.roundDiv (n * 2 ^ (52 - e)) (2 ^ (e - 52)) ≤ 2 ^ 53 := by
      refine (Decimal.roundDiv_le _ _).trans (Nat.succ_le_of_lt ?_)
      rw [Nat.div_lt_iff_lt_mul (Nat.two_pow_pos _), ← Nat.pow_add]
      rcases Nat.le_total e 52 with he | he
      · rw [show e - 52 = 0 by omega, show 53 + 0 = e + 1 + (52 - e) by omega, Nat.pow_add 2 (e + 1)]
        exact Nat.mul_lt_mul_of_pos_right hhigh (Nat.two_pow_pos _)
      · rw [show 52 - e = 0 by omega, show 53 + (e - 52) = e + 1 by omega, Nat.pow_zero, Nat.mul_one]
        exact hhigh
    have hq : max ((e : Int) - 52) leastExponent = e - 52 := by unfold leastExponent; omega
    have hup : ((e : Int) - 52).toNat = e - 52 := by omega
    have hdown : (-((e : Int) - 52)).toNat = 52 - e := by omega
    simp only [hq, Decimal.ratioPow, hup, hdown, Nat.one_mul, Nat.pow_eq]
    generalize Decimal.roundDiv (n * 2 ^ (52 - e)) (2 ^ (e - 52)) = m at *
    have hweight : ((e : Int) - 52 - leastExponent).toNat * exponentWeight ≤ 1086 * exponentWeight :=
      Nat.mul_le_mul_right _ (by unfold leastExponent; omega)
    refine (Nat.min_le_left _ _).trans_lt ?_
    unfold infinityBits
    unfold exponentWeight at *
    split <;> omega

/-- Places and counts are in the range of the reals. -/
theorem exists_ofInt? {n : Nat} (h : n < placeLimit) : ∃ x, ofInt? n = some x := by
  unfold ofInt? nearest?
  have hlt : n < 2 ^ 64 := h.trans (by decide)
  rw [Int.natAbs_natCast, if_pos (nearestBits_lt hlt)]
  exact ⟨_, rfl⟩

end SeedGrowth.Binary64
