import Mathlib.Data.List.TakeWhile
import SeedGrowth.Proofs.Scope.Basic

/-!
# Points reached over a text

One point is reached from another over the text between them: that text is gone from what
is left, and the place is the one behind it.
-/
namespace SeedGrowth

namespace Place

theorem lastLine_append_of_mem {text : List Char} (before : List Char) (h : '\n' ∈ text) :
    lastLine (before ++ text) = lastLine text := by
  have hstop : (text.reverse.takeWhile (· ≠ '\n')).length ≠ text.reverse.length := by
    intro heq
    have hall := (List.takeWhile_prefix _).eq_of_length heq
    have hne := List.mem_takeWhile_imp (hall ▸ List.mem_reverse.2 h)
    simp at hne
  rw [lastLine, List.reverse_append, List.takeWhile_append, if_neg hstop, lastLine]

theorem lastLine_append_of_not_mem (before : List Char) {text : List Char} (h : '\n' ∉ text) :
    lastLine (before ++ text) = lastLine before ++ text := by
  have hall : text.reverse.takeWhile (· ≠ '\n') = text.reverse := by
    rw [List.takeWhile_eq_self_iff]
    intro c hc
    simp only [decide_eq_true_eq]
    rintro rfl
    exact h (List.mem_reverse.1 hc)
  simp only [lastLine, List.reverse_append, List.takeWhile_append, hall, if_true,
    List.reverse_reverse]

/-- Moving over two texts in turn is moving over both. -/
theorem after_append (place : Place) (first second : List Char) :
    place.after (first ++ second) = (place.after first).after second := by
  simp only [after, Place.mk.injEq, List.length_append, List.count_append, List.mem_append]
  refine ⟨by omega, by omega, ?_⟩
  by_cases hs : '\n' ∈ second
  · simp [hs, lastLine_append_of_mem first hs]
  · by_cases hf : '\n' ∈ first
    · simp only [hs, hf, or_false, if_true, if_false, lastLine_append_of_not_mem first hs,
        List.length_append]
      omega
    · simp only [hs, hf, or_false, if_false]
      omega

end Place

namespace Point

/-- The point behind the next characters. -/
def advance (s : Point) (count : Nat) : Point := (s.next count).rest

@[simp] theorem fragment_advance (s : Point) (count : Nat) :
    (s.advance count).fragment = s.fragment.drop count := rfl

@[simp] theorem place_advance (s : Point) (count : Nat) :
    (s.advance count).place = s.place.after (s.fragment.take count) := rfl

@[simp] theorem remaining_advance (s : Point) (count : Nat) :
    (s.advance count).remaining = s.remaining - count := by
  simp [remaining]

theorem ext {s s' : Point} (hf : s.fragment = s'.fragment) (hp : s.place = s'.place) : s = s' := by
  cases s
  cases s'
  simp_all

/-- The other point is reached over the text. -/
structure Over (s : Point) (text : List Char) (s' : Point) : Prop where
  fragment_eq : s.fragment = text ++ s'.fragment
  place_eq : s'.place = s.place.after text

theorem Over.refl (s : Point) : s.Over [] s := ⟨rfl, by simp⟩

theorem Over.trans {s s' s'' : Point} {text text' : List Char} (h : s.Over text s')
    (h' : s'.Over text' s'') : s.Over (text ++ text') s'' := by
  refine ⟨?_, ?_⟩
  · rw [h.fragment_eq, h'.fragment_eq, List.append_assoc]
  · rw [h'.place_eq, h.place_eq, Place.after_append]

theorem Over.remaining_eq {s s' : Point} {text : List Char} (h : s.Over text s') :
    s.remaining = text.length + s'.remaining := by
  simp [remaining, h.fragment_eq]

/-- The text between two points and what is left say which point is reached. -/
theorem Over.unique {s s' s'' : Point} {text : List Char} (h : s.Over text s')
    (h' : s.Over text s'') : s' = s'' := by
  have hfragment : text ++ s'.fragment = text ++ s''.fragment := h.fragment_eq ▸ h'.fragment_eq
  exact ext (List.append_cancel_left hfragment) (h.place_eq.trans h'.place_eq.symm)

theorem over_advance (s : Point) (count : Nat) :
    s.Over (s.fragment.take count) (s.advance count) :=
  ⟨(List.take_append_drop count s.fragment).symm, rfl⟩

/-- Over a text that is ahead the point behind it is reached. -/
theorem over_of_append {s : Point} {text rest : List Char} (h : s.fragment = text ++ rest) :
    s.Over text (s.advance text.length) := by
  have hover := s.over_advance text.length
  rwa [h, List.take_left] at hover

end Point

end SeedGrowth
