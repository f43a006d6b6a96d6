import Mathlib.Algebra.GroupWithZero.Nat
import SeedGrowth.Proofs.Scope.Points
import SeedGrowth.Proofs.Value.Written

/-!
# Splitting in steps

Characters may be taken off a cursor in any number of steps: where it ends depends on how many
they are together, and so do line and column. The pieces lie side by side, from the cursor on.
A number is refused as a count if it does not lie between zero and what is left.
-/
namespace SeedGrowth

/-- The faults of a count that is out of range: it is told, or it is too long to be told. -/
inductive Fault.RefusesCount (count : Value) (length : Nat) : Fault → Prop where
  | told {text} : count.written = .ok text → RefusesCount count length (.countOutOfRange text length)
  | untold : count.writable = false → RefusesCount count length .unwritableInteger

namespace Cursor

/-- Splits off pieces, one after the other: the rest, and the pieces. -/
def cut (s : Cursor) : List Value → Except Fault (Cursor × List Cursor)
  | [] => return (s, [])
  | count :: counts => do
    let (rest, piece) ← s.takeSplit count
    let (last, pieces) ← rest.cut counts
    return (last, piece :: pieces)

/-- The cursors lie side by side from the first one on, and are all the text up to the last. -/
inductive SideBySide : Cursor → List Cursor → Cursor → Prop where
  | nil {s} : SideBySide s [] s
  | cons {s piece rest pieces last} : piece.place = s.place → piece.payload = s.payload →
      piece.fragment ++ rest.fragment = s.fragment →
      rest.place = s.place.after piece.fragment → SideBySide rest pieces last →
      SideBySide s (piece :: pieces) last

variable {s last : Cursor}

theorem SideBySide.fragment_eq {pieces : List Cursor} (h : s.SideBySide pieces last) :
    pieces.flatMap fragment ++ last.fragment = s.fragment := by
  induction h with
  | nil => rfl
  | cons _ _ hfragment _ _ ih =>
    rw [List.flatMap_cons, List.append_assoc, ih, hfragment]

/-- However many pieces there are, the last place is the one behind all of their text. -/
theorem SideBySide.place_eq {pieces : List Cursor} (h : s.SideBySide pieces last) :
    last.place = s.place.after (pieces.flatMap fragment) := by
  induction h with
  | nil => exact (Place.after_nil _).symm
  | cons _ _ _ hplace _ ih => rw [ih, hplace, List.flatMap_cons, Place.after_append]

theorem advance_zero (s : Cursor) : s.advance 0 = s := by
  simp [advance]

/-- Two steps end where one does. -/
theorem advance_advance (s : Cursor) (a b : Nat) : (s.advance a).advance b = s.advance (a + b) := by
  simp only [advance, List.drop_drop, List.take_add, Place.after_append]

theorem fragment_taken_append (s : Cursor) (count : Nat) :
    (s.taken count).fragment ++ (s.advance count).fragment = s.fragment :=
  List.take_append_drop count s.fragment

/-- What two steps take is what one does. -/
theorem fragment_taken_add (s : Cursor) (a b : Nat) :
    (s.taken a).fragment ++ ((s.advance a).taken b).fragment = (s.taken (a + b)).fragment :=
  List.take_add.symm

/-- A cursor can be cut into any pieces that do not need more text than there is. -/
theorem exists_cut {counts : List Nat} (h : counts.sum ≤ s.remaining) :
    ∃ pieces,
      s.cut (counts.map fun count : Nat => .int count) = .ok (s.advance counts.sum, pieces) ∧
      pieces.map remaining = counts ∧ s.SideBySide pieces (s.advance counts.sum) := by
  induction counts generalizing s with
  | nil =>
    rw [List.sum_nil, advance_zero]
    exact ⟨[], rfl, rfl, .nil⟩
  | cons count counts ih =>
    rw [List.sum_cons] at h ⊢
    obtain ⟨pieces, hcut, hlengths, hside⟩ := ih (s := s.advance count) (by simp; omega)
    rw [advance_advance] at hcut hside
    have hlength : (s.taken count).remaining = count := by
      simp only [taken, remaining, List.length_take]
      exact Nat.min_eq_left (by have : s.remaining = s.fragment.length := rfl; omega)
    refine ⟨s.taken count :: pieces, ?_, by rw [List.map_cons, hlength, hlengths], ?_⟩
    · rw [List.map_cons, cut, takeSplit_natCast (by omega), ok_bind]
      simp only [hcut, ok_bind]
      rfl
    · exact .cons rfl rfl (s.fragment_taken_append count) rfl hside

/-- A whole number is a count if it lies between zero and what is left. -/
theorem takeSplit_whole {count : Value} {n : Int} (h : count.whole? = some n) (hn : 0 ≤ n)
    (hle : n ≤ s.remaining) : s.takeSplit count = .ok (s.advance n.toNat, s.taken n.toNat) := by
  have hnumber : count.number? = some (.int n) := by
    cases count <;> cases h <;> rfl
  have hholds : (Bound.upTo s.remaining).holds (.int n) = true := by
    simp [Bound.holds, hn, hle]
  rw [takeSplit, Value.bounded, hnumber]
  simp only [hholds, if_true]
  rfl

/-- A number that is out of bounds is refused as a count. -/
theorem refuses_of_out {count : Value} {x : Number} (hnumber : count.number? = some x)
    (hout : (Bound.upTo s.remaining).holds x = false) :
    ∃ fault, s.takeSplit count = .error fault ∧ fault.RefusesCount count s.remaining := by
  simp only [takeSplit, Value.bounded, hnumber, hout, Bool.false_eq_true, if_false]
  cases hwritten : count.written with
  | ok text => exact ⟨_, rfl, .told hwritten⟩
  | error fault =>
    cases Value.written_error count hwritten
    refine ⟨_, rfl, .untold (Bool.eq_false_iff.2 fun hwritable => ?_)⟩
    obtain ⟨text, htext⟩ := Value.exists_written count hwritable
    rw [hwritten] at htext
    cases htext

/-- A number is refused as a count if it is out of bounds, and nothing else is. -/
theorem refuses_iff (s : Cursor) (count : Value) :
    (∃ fault, s.takeSplit count = .error fault ∧ fault.RefusesCount count s.remaining) ↔
      ∃ x, count.number? = some x ∧ (Bound.upTo s.remaining).holds x = false := by
  refine ⟨?_, fun ⟨_, hnumber, hout⟩ => refuses_of_out hnumber hout⟩
  rintro ⟨fault, heq, hrefuses⟩
  cases hnumber : count.number? with
  | none =>
    simp only [takeSplit, Value.bounded, hnumber] at heq
    cases heq
    cases hrefuses
  | some x =>
    refine ⟨x, rfl, Bool.eq_false_iff.2 fun hholds => ?_⟩
    simp only [takeSplit, Value.bounded, hnumber, hholds, if_true] at heq
    cases x with
    | int n => cases heq
    | real x =>
      cases heq
      cases hrefuses

/-- In how many steps characters are taken off does not matter: two steps end where one does in
all respects, and what they take lies side by side and is what one step takes. So a cursor can be
cut into any pieces, and ends where all of their text does. A whole number is a count if it lies
between zero and what is left, and a number that does not is refused, which nothing else is. -/
theorem takeSplit_composes (s : Cursor) :
    (∀ a b : Nat, a + b ≤ s.remaining → ∃ rest taken last taken' whole,
      s.takeSplit (.int a) = .ok (rest, taken) ∧ rest.takeSplit (.int b) = .ok (last, taken') ∧
        s.takeSplit (.int (a + b : Nat)) = .ok (last, whole) ∧
        taken.fragment ++ taken'.fragment = whole.fragment ∧
        taken.fragment ++ rest.fragment = s.fragment ∧
        whole.fragment ++ last.fragment = s.fragment ∧ taken'.place = rest.place) ∧
    (∀ counts : List Nat, counts.sum ≤ s.remaining → ∃ pieces,
      s.cut (counts.map fun count : Nat => .int count) = .ok (s.advance counts.sum, pieces) ∧
        pieces.map remaining = counts ∧ s.SideBySide pieces (s.advance counts.sum) ∧
        pieces.flatMap fragment ++ (s.advance counts.sum).fragment = s.fragment ∧
        (s.advance counts.sum).place = s.place.after (pieces.flatMap fragment)) ∧
    ∀ count : Value,
      (∀ n : Int, count.whole? = some n → 0 ≤ n → n ≤ s.remaining →
        s.takeSplit count = .ok (s.advance n.toNat, s.taken n.toNat)) ∧
      ((∃ fault, s.takeSplit count = .error fault ∧ fault.RefusesCount count s.remaining) ↔
        ∃ x, count.number? = some x ∧ (Bound.upTo s.remaining).holds x = false) := by
  refine ⟨fun a b h => ?_, fun counts h => ?_,
    fun count => ⟨fun n hwhole hn hle => takeSplit_whole hwhole hn hle, s.refuses_iff count⟩⟩
  · refine ⟨s.advance a, s.taken a, s.advance (a + b), (s.advance a).taken b, s.taken (a + b),
      takeSplit_natCast (by omega), ?_, takeSplit_natCast h, s.fragment_taken_add a b,
      s.fragment_taken_append a, s.fragment_taken_append (a + b), rfl⟩
    rw [takeSplit_natCast (by simp; omega), advance_advance]
  · obtain ⟨pieces, hcut, hlengths, hside⟩ := exists_cut h
    exact ⟨pieces, hcut, hlengths, hside, hside.fragment_eq, hside.place_eq⟩

/-- A cursor on three short lines, somewhere in a text. -/
def onLines : Cursor := ⟨['a', '\n', 'b', '\n', 'c'], ⟨7, 3, 5⟩, .absent⟩

/-- Two steps over both line feeds and one step, pieces of which one is empty, and a count that is
too great. -/
theorem takeSplit_composes_lines :
    ((2 + 2 ≤ onLines.remaining) ∧ ∃ rest taken last taken' whole,
      onLines.takeSplit (.int (2 : Nat)) = .ok (rest, taken) ∧
        rest.takeSplit (.int (2 : Nat)) = .ok (last, taken') ∧
        onLines.takeSplit (.int (2 + 2 : Nat)) = .ok (last, whole) ∧
        taken.fragment ++ taken'.fragment = whole.fragment ∧
        taken.fragment ++ rest.fragment = onLines.fragment ∧
        whole.fragment ++ last.fragment = onLines.fragment ∧ taken'.place = rest.place) ∧
    ([1, 0, 3].sum ≤ onLines.remaining ∧ ∃ pieces,
      pieces.map remaining = [1, 0, 3] ∧ onLines.SideBySide pieces (onLines.advance 4)) ∧
    onLines.takeSplit (.truth true) = .ok (onLines.advance 1, onLines.taken 1) ∧
    (∃ fault, onLines.takeSplit (.int 6) = .error fault ∧ fault.RefusesCount (.int 6) 5) ∧
    (onLines.advance 4).place = ⟨11, 5, 1⟩ := by
  obtain ⟨hsteps, hcuts, -⟩ := takeSplit_composes onLines
  obtain ⟨pieces, -, hlengths, hside, -⟩ := hcuts [1, 0, 3] (by decide)
  have hcount := (takeSplit_composes onLines).2.2
  refine ⟨⟨by decide, hsteps 2 2 (by decide)⟩, ⟨by decide, pieces, hlengths, hside⟩,
    (hcount (.truth true)).1 1 rfl (by decide) (by decide), (hcount (.int 6)).2.2 ⟨.int 6, rfl, ?_⟩,
    by decide⟩
  decide

end Cursor

end SeedGrowth
