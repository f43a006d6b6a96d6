import SeedGrowth.Proofs.Calculator.Facts
import SeedGrowth.Proofs.Run.Erasure
import SeedGrowth.Proofs.Run.Invariant

/-!
# Flags agree with open calls

Started where no flag is set and nothing is anchored, a run hands out cursors whose flags
are those of the calls that are open where the cursor stands. So a guarded call finds its
flag set if and only if it is inside a call of the same rule at the same position, it then
finds the frame of that call, and no frame is looked at once its call has ended.
-/
namespace SeedGrowth

variable {ρ : Type}

namespace Cursor

/-- Where the cursor's anchor was set, the flags are those of the anchor, and its frames
those of the guarded calls that are open; where it was not set, no guarded call is open. -/
structure AgreesWith (s : Cursor) (calls : List (OpenCall ρ)) : Prop where
  flags_iff : ∀ a, s.anchorAt s.remaining = some a →
    ∀ i, s.mem i = true ↔ (a.frame? i).isSome = true
  frames_iff : ∀ a, s.anchorAt s.remaining = some a → ∀ i id, a.frame? i = some id ↔
    ∃ c ∈ calls, c.position = s.remaining ∧ c.seat = some (i, id)
  unanchored : s.anchorAt s.remaining = none → ∀ c ∈ calls, c.position = s.remaining → c.seat = none

/-- A cursor that shows the open calls agrees with them, in a run that began without an
anchor. -/
theorem Shows.agreesWith {S : Setting ρ} {calls : List (OpenCall ρ)} {s : Cursor}
    (h : s.Shows S calls) (ht : S.tidy) : s.AgreesWith calls := by
  have hmem : ∀ {a}, s.anchorAt s.remaining = some a → ∀ i, s.mem i = s.lit s.remaining i := by
    intro a ha i
    rw [lit_eq, ha]
    rfl
  have hframe : ∀ {a}, s.anchorAt s.remaining = some a →
      ∀ i, a.frame? i = s.frameAt s.remaining i := by
    intro a ha i
    rw [s.frameAt_eq, ha]
    rfl
  refine ⟨fun a ha i => ?_, fun a ha i id => ?_, fun hnone c hc hp => ?_⟩
  · rw [hmem ha, hframe ha]
    constructor
    · intro hlit
      obtain ⟨c, hc, id, hp, hseat⟩ := (h.lit_iff _ le_rfl i).1 hlit
      rw [h.frameAt_eq _ le_rfl c hc i id hp hseat]
      rfl
    · exact h.tidy ht _ le_rfl i
  · rw [hframe ha]
    constructor
    · intro hid
      have hlit := h.tidy ht _ le_rfl i (by rw [hid]; rfl)
      obtain ⟨c, hc, id', hp, hseat⟩ := (h.lit_iff _ le_rfl i).1 hlit
      have hid' := h.frameAt_eq _ le_rfl c hc i id' hp hseat
      rw [hid] at hid'
      cases hid'
      exact ⟨c, hc, hp, hseat⟩
    · intro hopen
      obtain ⟨c, hc, hp, hseat⟩ := hopen
      exact h.frameAt_eq _ le_rfl c hc i id hp hseat
  · cases hseat : c.seat with
    | none => rfl
    | some seat =>
      have hlit := (h.lit_iff _ le_rfl seat.1).2 ⟨c, hc, seat.2, hp, hseat⟩
      rw [lit_eq, hnone] at hlit
      cases hlit

end Cursor

/-- The moment agrees with the calls that are open then: cursors show them, calls find the
frames of the calls that they are inside of, and only frames of open calls are touched. -/
def Moment.Agrees (g : Grammar ρ) (m : Moment ρ) : Prop :=
  match m.happening with
  | .handed _ s => s.AgreesWith m.calls
  | .arrived r arrival => m.Recognises g r arrival
  | .touched id => ∃ c ∈ m.calls, ∃ i, c.seat = some (i, id)

/-- Every moment of every run agrees with the calls that are open then. A run is the
evaluation of its parser with a history, whether that ends well or not. -/
theorem Grammar.run_agrees {g : Grammar ρ} (hg : g.OfCombinators) (ha : g.NamesApart)
    (hk : g.NamesKnown) {home : RegistryId} {session : Session} (hh : session.Hosts g home)
    {s : Cursor} (hs : s.Blank) (parser : Parser ρ) (hp : parser.isCombinator = true)
    (depth : Nat) :
    (g.run depth parser s session).1 = (parser.eval (g.call depth) s session).1 ∧
      (g.run depth parser s session).2.session = (parser.eval (g.call depth) s session).2 ∧
      ∀ m ∈ (g.run depth parser s session).2.moments, m.Agrees g := by
  obtain ⟨hresult, hsession⟩ := g.run_eq_eval depth parser s session
  refine ⟨hresult, hsession, fun m hm => ?_⟩
  obtain ⟨result, run, hrun, hkept, -⟩ := Grammar.run_yields hg hk hh hs.unset.dark depth hp
  have hmoment : m ∈ run.moments := by
    rw [Grammar.run, hrun] at hm
    exact hm
  obtain ⟨-, hsound⟩ := hkept.sound.moments m hmoment
  unfold Moment.Agrees
  cases hhappening : m.happening with
  | handed parser' s' =>
    rw [hhappening] at hsound
    refine hsound.1.agreesWith fun p i hi => ?_
    rw [hs.frameAt_eq_none] at hi
    cases hi
  | arrived r arrival =>
    rw [hhappening] at hsound
    exact hsound ha
  | touched id =>
    rw [hhappening] at hsound
    exact hsound

/-- The run of a sum in the calculator. -/
theorem Calculator.run_sum_agrees :
    grammar.OfCombinators ∧ grammar.NamesApart ∧ grammar.NamesKnown ∧
      Session.empty.Hosts grammar 0 ∧ sum.Blank ∧ (Parser.ref Name.expr).isCombinator = true ∧
      ∀ m ∈ (grammar.run 9 (.ref .expr) sum .empty).2.moments, m.Agrees grammar := by
  have hs : sum.Blank := Cursor.blank_start _ _
  have h := Grammar.run_agrees ofCombinators namesApart namesKnown hosted hs (.ref .expr) rfl 9
  exact ⟨ofCombinators, namesApart, namesKnown, hosted, hs, rfl, h.2.2⟩

end SeedGrowth
