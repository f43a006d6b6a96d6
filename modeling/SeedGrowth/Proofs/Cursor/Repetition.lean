import SeedGrowth.Proofs.Cursor.Outcome
import SeedGrowth.Proofs.Scope.Mirror

/-!
# Repetitions

A repetition takes one match after the other as long as they take up text, and drops the first
one that does not, with its cursor. It goes by offsets, and by how much text is left it cannot go
on forever: both say the same, as the cursors of a run stand in one source. What ends it is that
its parser does not match, takes up nothing, or stops.
-/
namespace SeedGrowth

variable {ρ : Type}

/-- Matches of a parser that take up text, each of them from where the one before ends, up to the
last cursor and session. -/
inductive Grammar.Chain (g : Grammar ρ) (depth : Nat) (parser : Parser ρ) :
    Cursor → Session → List Match → Cursor → Session → Prop where
  | done {s σ} : Chain g depth parser s σ [] s σ
  | next {s σ m σ' text chain last τ} :
      Visit.eval g ⟨depth, parser, s, σ⟩ = (.ok (some m), σ') →
      s.point.Over text m.rest.point → text ≠ [] →
      Chain g depth parser m.rest σ' chain last τ →
      Chain g depth parser s σ (m :: chain) last τ

variable {g : Grammar ρ} {o : Origin} {depth : Nat} {parser : Parser ρ} {s s' last : Cursor}
  {σ σ' τ : Session} {chain : List Match}

/-- Every match of a chain takes up one character at least. -/
theorem Grammar.Chain.length_le (h : g.Chain depth parser s σ chain last τ) :
    chain.length + last.remaining ≤ s.remaining := by
  induction h with
  | done => exact (Nat.zero_add _).le
  | @next s σ m σ' text chain last τ _ hover hne _ ih =>
    have hremaining : s.remaining = text.length + m.rest.remaining := hover.remaining_eq
    have hpos := List.length_pos_iff.2 hne
    rw [List.length_cons]
    omega

/-- Where no more is left, a cursor is reached from the other one over the text between them. -/
theorem Cursor.Stands.over (h : s.Stands o σ) (h' : s'.Stands o σ')
    (hle : s'.remaining ≤ s.remaining) : ∃ text, s.point.Over text s'.point := by
  obtain ⟨before, hsource, hplace⟩ := h.reached
  obtain ⟨before', hsource', hplace'⟩ := h'.reached
  rcases List.append_eq_append_iff.1 (hsource.symm.trans hsource') with
    ⟨text, rfl, hfragment⟩ | ⟨text, rfl, hfragment⟩
  · refine ⟨text, hfragment, ?_⟩
    change s'.place = s.place.after text
    rw [hplace', hplace, Place.after_append]
  · -- the second cursor is not before the first one, so they are at the same place
    have hlength := congrArg List.length hfragment
    rw [List.length_append] at hlength
    have hle : s'.fragment.length ≤ s.fragment.length := hle
    have hnil : text = [] := List.eq_nil_of_length_eq_zero (by omega)
    subst hnil
    refine ⟨[], hfragment.symm, ?_⟩
    change s'.place = s.place.after []
    rw [hplace', hplace, List.append_nil, Place.after_nil]

/-- A match in a run is behind the cursor, and the run can go on from there. -/
theorem Visit.Upright.matched {v : Visit ρ} (h : v.Upright o) {m : Match}
    (hv : v.eval g = (.ok (some m), σ)) :
    Visit.Upright o ⟨v.depth, v.parser, m.rest, σ⟩ ∧
      ∃ text, v.cursor.point.Over text m.rest.point := by
  obtain ⟨hσ, -, hadmits⟩ := h.eval hv
  cases hadmits with
  | some hm hle => exact ⟨⟨hσ, hm, h.combinator⟩, h.stands.over hm hle⟩

end SeedGrowth
