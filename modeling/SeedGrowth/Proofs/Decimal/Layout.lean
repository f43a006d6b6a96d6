import Mathlib.Data.List.Basic
import SeedGrowth.Value.Text

/-!
# Numbers on a line

The text of a number has no line feed in it, whole or real, however it is laid out.
-/
namespace SeedGrowth

/-- The text stands on one line. -/
def OneLine (text : String) : Prop := '\n' ∉ text.toList

instance (text : String) : Decidable (OneLine text) :=
  inferInstanceAs (Decidable ('\n' ∉ text.toList))

namespace OneLine

theorem append {text text' : String} (h : OneLine text) (h' : OneLine text') :
    OneLine (text ++ text') := by
  simpa [OneLine] using ⟨h, h'⟩

theorem ite {p : Prop} [Decidable p] {text text' : String} (h : OneLine text)
    (h' : OneLine text') : OneLine (if p then text else text') := by
  split <;> assumption

/-- Characters of one line stand on one. -/
theorem ofList {text : String} (h : OneLine text) {cs : List Char} (hcs : ∀ c ∈ cs, c ∈ text.toList) :
    OneLine (String.ofList cs) := by
  rw [OneLine, String.toList_ofList]
  exact fun hmem => h (hcs _ hmem)

theorem nat (n : Nat) : OneLine (toString n) := by
  rw [OneLine, Nat.toString_eq_ofList_toDigits, String.toList_ofList]
  intro hmem
  exact absurd (Nat.isDigit_of_mem_toDigits (by decide) (by decide) hmem) (by decide)

theorem int (n : Int) : OneLine (toString n) := by
  cases n with
  | ofNat n => exact nat n
  | negSucc n => exact append (by decide +kernel) (nat (n + 1))

end OneLine

namespace Decimal

theorem zeros_oneLine (count : Nat) : OneLine (zeros count) := by
  rw [OneLine, zeros, String.toList_ofList]
  intro hmem
  exact absurd (List.eq_of_mem_replicate hmem) (by decide)

theorem Digits.positional_oneLine (d : Digits) : OneLine d.positional := by
  have hdigits := OneLine.nat d.digits
  have htake := fun n => hdigits.ofList fun c => List.mem_of_mem_take (i := n)
  have hdrop := fun n => hdigits.ofList fun c => List.mem_of_mem_drop (i := n)
  have hall := hdigits.ofList fun c h => h
  unfold positional
  refine .ite ((hall.append (zeros_oneLine _)).append (by decide +kernel)) (.ite ?_ ?_)
  · exact ((htake _).append (by decide +kernel)).append (hdrop _)
  · exact (OneLine.append (by decide +kernel) (zeros_oneLine _)).append hall

theorem Digits.scientific_oneLine (d : Digits) (width : Nat) : OneLine (d.scientific width) := by
  have hdigits := OneLine.nat d.digits
  have htake := hdigits.ofList fun c => List.mem_of_mem_take (i := 1)
  have hdrop := hdigits.ofList fun c => List.mem_of_mem_drop (i := 1)
  unfold scientific
  refine .append (.append (.append (.append htake ?_) (by decide +kernel)) ?_) ?_
  · exact .ite (by decide +kernel) (.append (by decide +kernel) hdrop)
  · exact .ite (by decide +kernel) (by decide +kernel)
  · exact .append (zeros_oneLine _) (.nat _)

/-- A real stands on one line, if the words for those without digits do. -/
theorem Layout.text_oneLine {layout : Layout} (hinfinity : OneLine layout.infinity)
    (hnan : OneLine layout.nan) (x : Float) : OneLine (layout.text x) := by
  have hsign : ∀ negative : Bool, OneLine (if negative then "-" else "") :=
    fun negative => .ite (by decide +kernel) (by decide +kernel)
  unfold text
  split
  · exact hnan
  · exact .append (hsign _) hinfinity
  · refine .ite (.append (hsign _) (by decide +kernel)) (.append (hsign _) (.ite ?_ ?_))
    · exact Digits.positional_oneLine _
    · exact Digits.scientific_oneLine _ _

end Decimal

theorem Number.plain_oneLine {x : Number} {text : String} (h : x.plain = .ok text) :
    OneLine text := by
  cases x with
  | int n =>
    change integerText n = .ok text at h
    unfold integerText at h
    split at h
    · cases h
      exact .int n
    · cases h
  | real x =>
    cases h
    exact Decimal.Layout.text_oneLine (by decide +kernel) (by decide +kernel) x

end SeedGrowth
