import Mathlib.Order.Lattice
import SeedGrowth.Proofs.Grammar.Combinators
import SeedGrowth.Proofs.Run.Basic
import SeedGrowth.Proofs.Session.Steps

/-!
# What cursors show

In a run every cursor shows the calls that are open where it stands, by the flags that
are lit there and their frames. It shows no call further on, so that a match can be kept
as a seed and handed out again inside other calls. The lemmas say what happens to this
when a cursor moves on and when a call begins or ends.
-/
namespace SeedGrowth

variable {ρ : Type}

/-- What the cursors and sessions of a run have in common. -/
structure Setting (ρ : Type) where
  grammar : Grammar ρ
  combinators : grammar.OfCombinators
  known : grammar.NamesKnown
  /-- The registry of its guards. -/
  home : RegistryId
  capacity : Capacity
  verbose : Bool
  /-- How many flags every cursor has, if it has any. -/
  width : Option Nat
  /-- How much text is left at most. -/
  length : Nat
  /-- The offset of every cursor and the length of its text together. -/
  total : Int
  /-- How deep calls may be nested. -/
  depth : Nat
  /-- The run began without an anchor. -/
  tidy : Prop
  /-- The registry had room for all guarded rules, and can look up their names. -/
  roomy : Prop
  hashable : roomy → grammar.NamesHashable

/-- The cursor shows the open calls that began at its position, and none further on. -/
structure Cursor.Shows (S : Setting ρ) (calls : List (OpenCall ρ)) (s : Cursor) : Prop where
  behind : ∀ c ∈ calls, s.remaining ≤ c.position
  lit_iff : ∀ p ≤ s.remaining, ∀ i,
    s.lit p i = true ↔ ∃ c ∈ calls, ∃ id, c.position = p ∧ c.seat = some (i, id)
  frameAt_eq : ∀ p ≤ s.remaining, ∀ c ∈ calls, ∀ i id,
    c.position = p → c.seat = some (i, id) → s.frameAt p i = some id
  tidy : S.tidy → ∀ p ≤ s.remaining, ∀ i, (s.frameAt p i).isSome = true → s.lit p i = true
  width_eq : s.width = S.width
  remaining_le : s.remaining ≤ S.length
  total_eq : s.place.offset + s.remaining = S.total

namespace Cursor.Shows

variable {S : Setting ρ} {calls calls' : List (OpenCall ρ)} {s : Cursor}

theorem advance (h : s.Shows S calls) {n : Nat} (hn : n ≤ s.remaining) :
    (s.advance n).Shows S calls := by
  have hle : (s.advance n).remaining ≤ s.remaining := by simp
  refine ⟨fun c hc => hle.trans (h.behind c hc), fun p hp => ?_, fun p hp => ?_, fun ht p hp => ?_,
    h.width_eq, hle.trans h.remaining_le, ?_⟩
  · simpa using h.lit_iff p (hp.trans hle)
  · simpa using h.frameAt_eq p (hp.trans hle)
  · simpa using h.tidy ht p (hp.trans hle)
  · have ht := h.total_eq
    have hl : (s.fragment.take n).length = n := by exact List.length_take_of_le hn
    rw [place_advance, Place.offset_after, hl, remaining_advance]
    omega

/-- Behind all positions of open calls it does not matter which they are. -/
theorem further (h : s.Shows S calls) (hb : ∀ c ∈ calls, s.remaining < c.position)
    (hb' : ∀ c ∈ calls', s.remaining < c.position) : s.Shows S calls' := by
  refine ⟨fun c hc => (hb' c hc).le, fun p hp i => ?_, fun p hp c hc i id hcp => ?_, h.tidy,
    h.width_eq, h.remaining_le, h.total_eq⟩
  · rw [h.lit_iff p hp]
    constructor
    · intro hopen
      obtain ⟨c, hc, id, hcp, -⟩ := hopen
      have := hb c hc
      omega
    · intro hopen
      obtain ⟨c, hc, id, hcp, -⟩ := hopen
      have := hb' c hc
      omega
  · have := hb' c hc
    omega

/-- The cursor with which the body of a guarded call is evaluated. -/
theorem enter (h : s.Shows S calls) {s' : Cursor} {r : ρ} {flag : Nat} {frame : FrameId}
    (hfragment : s'.fragment = s.fragment) (hplace : s'.place = s.place)
    (hwidth : s'.width = s.width) (hidle : s.lit s.remaining flag = false)
    (hlit : ∀ q i, s'.lit q i =
      (decide (s.remaining = q) && (s.lit s.remaining i || decide (i = flag))))
    (hframe : ∀ q i, s'.frameAt q i = if s.remaining = q then
      if i = flag then some frame else s.frameAt s.remaining i else none) :
    s'.Shows S (⟨r, s.remaining, some (flag, frame)⟩ :: calls) := by
  have hremaining : s'.remaining = s.remaining := by rw [remaining, hfragment, remaining]
  refine ⟨?_, fun p hp i => ?_, fun p hp c hc i id hcp hseat => ?_, fun ht p hp i hi => ?_,
    hwidth.trans h.width_eq, hremaining ▸ h.remaining_le, ?_⟩
  · simpa [hremaining] using h.behind
  · rw [hlit]
    rcases (hremaining ▸ hp : p ≤ s.remaining).eq_or_lt with rfl | hp
    · simp only [decide_true, Bool.true_and, Bool.or_eq_true, decide_eq_true_eq,
        h.lit_iff _ le_rfl, List.mem_cons, exists_eq_or_imp, true_and, Option.some.injEq,
        Prod.mk.injEq]
      constructor
      · rintro (hopen | rfl)
        · exact .inr hopen
        · exact .inl ⟨frame, rfl, rfl⟩
      · rintro (⟨id, rfl, -⟩ | hopen)
        · exact .inr rfl
        · exact .inl hopen
    · have hne : s.remaining ≠ p := by omega
      simp only [hne, decide_false, Bool.false_and, Bool.false_eq_true, false_iff]
      intro hopen
      obtain ⟨c, hc, id, hcp, -⟩ := hopen
      rcases List.mem_cons.1 hc with rfl | hc
      · exact hne hcp
      · have := h.behind c hc
        omega
  · rw [hframe]
    rcases List.mem_cons.1 hc with rfl | hmem
    · cases hseat
      rw [if_pos hcp, if_pos rfl]
    · have hle := h.behind c hmem
      have hps : p = s.remaining := by omega
      subst hps
      have hne : i ≠ flag := by
        rintro rfl
        rw [(h.lit_iff _ le_rfl i).2 ⟨c, hmem, id, hcp, hseat⟩] at hidle
        cases hidle
      rw [if_pos rfl, if_neg hne]
      exact h.frameAt_eq _ le_rfl c hmem i id hcp hseat
  · rw [hframe] at hi
    rw [hlit]
    by_cases hps : s.remaining = p
    · by_cases hif : i = flag
      · simp [hps, hif]
      · rw [if_pos hps, if_neg hif] at hi
        simp [hps, ← h.tidy ht _ le_rfl i hi]
    · simp [hps] at hi
  · rw [hplace, hremaining]
    exact h.total_eq

/-- The cursor of a result of a guarded call, without its flag and its frame. -/
theorem leave {r : ρ} {p flag : Nat} {frame : FrameId}
    (h : s.Shows S (⟨r, p, some (flag, frame)⟩ :: calls)) {s' : Cursor}
    (hfragment : s'.fragment = s.fragment) (hplace : s'.place = s.place)
    (hwidth : s'.width = s.width)
    (houter : ∀ c ∈ calls, p ≤ c.position)
    (hapart : ∀ c ∈ calls, ∀ i id, c.position = p → c.seat = some (i, id) → i ≠ flag)
    (hview : ∀ q i, (s'.lit q i = true ↔ s.lit q i = true ∧ i ≠ flag) ∧
      s'.frameAt q i = if i = flag then none else s.frameAt q i) :
    s'.Shows S calls := by
  have hremaining : s'.remaining = s.remaining := by rw [remaining, hfragment, remaining]
  have hother : ∀ c ∈ calls, ∀ q i id, c.position = q → c.seat = some (i, id) →
      q ≤ s'.remaining → i ≠ flag := by
    intro c hc q i id hcq hseat hq
    have hbehind : s.remaining ≤ p := h.behind _ List.mem_cons_self
    have hle := houter c hc
    exact hapart c hc i id (by omega) hseat
  refine ⟨fun c hc => ?_, fun q hq i => ?_, fun q hq c hc i id hcq hseat => ?_,
    fun ht q hq i hi => ?_, hwidth.trans h.width_eq, hremaining ▸ h.remaining_le, ?_⟩
  · exact hremaining ▸ h.behind c (List.mem_cons_of_mem _ hc)
  · rw [(hview q i).1, h.lit_iff q (hremaining ▸ hq)]
    constructor
    · intro hopen
      obtain ⟨⟨c, hc, id, hcq, hseat⟩, hi⟩ := hopen
      rcases List.mem_cons.1 hc with rfl | hc
      · cases hseat
        exact absurd rfl hi
      · exact ⟨c, hc, id, hcq, hseat⟩
    · intro hopen
      obtain ⟨c, hc, id, hcq, hseat⟩ := hopen
      exact ⟨⟨c, List.mem_cons_of_mem _ hc, id, hcq, hseat⟩, hother c hc q i id hcq hseat hq⟩
  · rw [(hview q i).2, if_neg (hother c hc q i id hcq hseat hq)]
    exact h.frameAt_eq q (hremaining ▸ hq) c (List.mem_cons_of_mem _ hc) i id hcq hseat
  · rw [(hview q i).2] at hi
    split at hi
    · cases hi
    · next hne => exact (hview q i).1.2 ⟨h.tidy ht q (hremaining ▸ hq) i hi, hne⟩
  · rw [hplace, hremaining]
    exact h.total_eq

/-- Open calls of plain rules are not shown. -/
theorem cons_plain {r : ρ} {p : Nat} (h : s.Shows S calls) (hp : s.remaining ≤ p) :
    s.Shows S (⟨r, p, none⟩ :: calls) := by
  refine ⟨?_, fun q hq i => ?_, ?_, h.tidy, h.width_eq, h.remaining_le, h.total_eq⟩
  · simpa using ⟨hp, h.behind⟩
  · simpa using h.lit_iff q hq i
  · simpa using h.frameAt_eq

theorem of_cons_plain {r : ρ} {p : Nat} (h : s.Shows S (⟨r, p, none⟩ :: calls)) :
    s.Shows S calls := by
  refine ⟨fun c hc => h.behind c (List.mem_cons_of_mem _ hc), fun q hq i => ?_,
    fun q hq c hc => h.frameAt_eq q hq c (List.mem_cons_of_mem _ hc), h.tidy, h.width_eq,
    h.remaining_le, h.total_eq⟩
  simpa using h.lit_iff q hq i

end Cursor.Shows

end SeedGrowth
