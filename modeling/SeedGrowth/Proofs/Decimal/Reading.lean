import Mathlib.Data.List.Basic
import SeedGrowth.Value.Literal

/-!
# Whole numbers that are read

A whole number is read from as many digits as one can be written with, so it can be written. Behind
a hyphen it is not positive.
-/
namespace SeedGrowth

theorem Text.lt_of_digitValue? {c : Char} {value : Nat} (h : digitValue? c = some value) :
    value < 10 := by
  unfold digitValue? at h
  split at h
  · next hdigit =>
    simp only [isAsciiDigit, Bool.and_eq_true, decide_eq_true_eq, Char.le_def,
      UInt32.le_iff_toNat_le] at hdigit
    have hhigh : c.toNat ≤ 57 := hdigit.2
    have hzero : '0'.toNat = 48 := rfl
    cases h
    omega
  · obtain ⟨block, hfind, rfl⟩ := Option.map_eq_some_iff.1 h
    have hblock := List.find?_some hfind
    simp only [Bool.and_eq_true, decide_eq_true_eq] at hblock
    omega

namespace Decimal

open Text

theorem moreDigits_lt {text rest : List Char} {digits : List Nat}
    (h : moreDigits text = some (digits, rest)) : ∀ digit ∈ digits, digit < 10 := by
  induction text using moreDigits.induct generalizing digits rest with
  | case1 =>
    cases h
    simp
  | case2 => cases h
  | case3 c rest hc =>
    rw [moreDigits, hc] at h
    cases h
  | case4 c text value hc ih =>
    rw [moreDigits, hc] at h
    obtain ⟨⟨digits', rest'⟩, hmore, heq⟩ := Option.map_eq_some_iff.1 h
    cases heq
    simpa using ⟨lt_of_digitValue? hc, ih hmore⟩
  | case5 c text hlow hc =>
    rw [moreDigits, hc] at h
    · cases h
      simp
    · exact hlow
  | case6 c text hlow value hc ih =>
    rw [moreDigits, hc] at h
    · obtain ⟨⟨digits', rest'⟩, hmore, heq⟩ := Option.map_eq_some_iff.1 h
      cases heq
      simpa using ⟨lt_of_digitValue? hc, ih hmore⟩
    · exact hlow

theorem readDigits_lt {text rest : List Char} {digits : List Nat}
    (h : readDigits text = some (digits, rest)) : ∀ digit ∈ digits, digit < 10 := by
  cases text with
  | nil => cases h
  | cons c text =>
    rw [readDigits] at h
    split at h
    · cases h
    · next value hc =>
      obtain ⟨⟨digits', rest'⟩, hmore, heq⟩ := Option.map_eq_some_iff.1 h
      cases heq
      simpa using ⟨lt_of_digitValue? hc, moreDigits_lt hmore⟩

theorem ofDigits_lt {digits : List Nat} (h : ∀ digit ∈ digits, digit < 10) {limit : Nat}
    (hlength : digits.length ≤ limit) : ofDigits digits < Nat.pow 10 limit := by
  have hfold : ∀ n, digits.foldl (fun n digit => 10 * n + digit) n <
      (n + 1) * 10 ^ digits.length := by
    clear hlength
    induction digits with
    | nil => simp
    | cons digit digits ih =>
      intro n
      obtain ⟨hdigit, hdigits⟩ := List.forall_mem_cons.1 h
      calc digits.foldl _ (10 * n + digit) < (10 * n + digit + 1) * 10 ^ digits.length :=
            ih hdigits _
        _ ≤ (n + 1) * 10 * 10 ^ digits.length := Nat.mul_le_mul_right _ (by omega)
        _ = (n + 1) * 10 ^ (digits.length + 1) := by rw [Nat.mul_assoc, ← Nat.pow_succ']
  have hlt : ofDigits digits < 10 ^ digits.length := by simpa [ofDigits] using hfold 0
  exact Nat.lt_of_lt_of_le hlt (Nat.pow_le_pow_right (by decide) hlength)

/-- What is read can be written. -/
theorem natAbs_readInteger_lt {text : List Char} {n : Int} (h : readInteger text = .ok n) :
    n.natAbs < Nat.pow 10 digitLimit := by
  unfold readInteger at h
  split at h
  next negative rest _ =>
  split at h
  · cases h
  · next digits tail hread =>
    split at h
    · cases h
    · next hlength =>
      have hlt := ofDigits_lt (readDigits_lt hread) (Nat.not_lt.1 hlength)
      split at h
      · cases h
        cases negative with
        | false => exact hlt
        | true =>
          rw [if_pos rfl, Int.natAbs_neg]
          exact hlt
      · cases h

/-- Blanks at the end are taken away behind a character that is none. -/
theorem trim_cons {c : Char} (hc : isMargin c = false) (text : List Char) :
    ∃ rest, trim (c :: text) = c :: rest := by
  have hhead : (c :: text).dropWhile isMargin = c :: text := by simp [hc]
  rw [trim, hhead, List.reverse_cons, List.dropWhile_append]
  split
  · exact ⟨[], by simp [hc]⟩
  · exact ⟨(text.reverse.dropWhile isMargin).reverse, by simp⟩

theorem readInteger_hyphen {text : List Char} {n : Int} (h : readInteger ('-' :: text) = .ok n) :
    n ≤ 0 := by
  obtain ⟨rest, htrim⟩ := trim_cons (show isMargin '-' = false by decide +kernel) text
  rw [readInteger, htrim] at h
  simp only [readSign] at h
  split at h
  · cases h
  · split at h
    · cases h
    · split at h
      · cases h
        simp
      · cases h

end Decimal

theorem integerOfText_eq_ok {s : String} {v : Value} (h : integerOfText s = .ok v) :
    ∃ n, v = .int n ∧ Decimal.readInteger s.toList = .ok n := by
  unfold integerOfText at h
  split at h
  · next n hread =>
    cases h
    exact ⟨n, rfl, hread⟩
  · cases h
  · cases h

theorem realOfText_eq_ok {s : String} {v : Value} (h : realOfText s = .ok v) :
    ∃ x, v = .real x := by
  unfold realOfText at h
  split at h
  · cases h
    exact ⟨_, rfl⟩
  · cases h

end SeedGrowth
