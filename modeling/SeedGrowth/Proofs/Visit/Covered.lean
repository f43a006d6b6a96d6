import SeedGrowth.Proofs.Program
import SeedGrowth.Proofs.Run.Shown

/-!
# Flags that are covered by open calls

What a cursor holds are the flags that are set on it and the frames in its anchor, wherever
those were set. The cursor with which a call begins holds nothing but what the open calls at
its position have set, and so does every match of its body, if parsers add nothing to what
they are given. Such a match can be kept, and handed out again to whom has set as much.
-/
namespace SeedGrowth

variable {ρ : Type}

/-- The frame of a flag in the anchor that is carried, wherever that was set. -/
def Flags.frame? (f : Flags Carried) (flag : Nat) : Option FrameId :=
  match f.carried with
  | .anchor a => a.frame? flag
  | _ => Option.none

theorem Flags.frame?_of_frameAt {f : Flags Carried} {p flag : Nat} {id : FrameId}
    (h : f.frameAt p flag = some id) : f.frame? flag = some id := by
  obtain ⟨a, ha, hid⟩ := Option.bind_eq_some_iff.1 h
  obtain ⟨hc, -⟩ := anchorAt_eq_some.1 ha
  rw [frame?, hc]
  exact hid

theorem Flags.frameAt_of_anchorAt {f : Flags Carried} {p : Nat}
    (h : (f.anchorAt p).isSome = true) (flag : Nat) : f.frameAt p flag = f.frame? flag := by
  obtain ⟨a, ha⟩ := Option.isSome_iff_exists.1 h
  obtain ⟨hc, -⟩ := anchorAt_eq_some.1 ha
  rw [frameAt, ha, frame?, hc]
  rfl

theorem Flags.clear_natCast (f : Flags Carried) {flag : Nat} (h : flag < f.capacity) :
    f.clear (.int flag) = .ok (f.erase flag) := by
  rw [clear, locate_natCast h]
  rfl

/-- Taking a flag off takes its frame off as well, and leaves the others. -/
theorem Flags.withoutFlag_holds {f f' : Flags Carried} {flag : Nat} (hlt : flag < f.capacity)
    (h : withoutFlag flag f = .ok f') (i : Nat) :
    (f'.mem i = true → f.mem i = true ∧ i ≠ flag) ∧
      f'.frame? i = if i = flag then .none else f.frame? i := by
  have herase : ∀ c, (f.carrying c).clear (.int flag) = .ok ((f.carrying c).erase flag) :=
    fun c => clear_natCast _ hlt
  obtain ⟨words, carried⟩ := f
  unfold withoutFlag at h
  cases carried with
  | anchor a =>
    by_cases hs : (a.frame? flag).isSome = true
    · simp only [hs, if_true, herase] at h
      cases h
      exact ⟨by simp [mem_erase], a.frame?_erase flag i⟩
    · simp only [hs] at h
      rw [if_neg (by simp), clear_natCast _ hlt] at h
      cases h
      refine ⟨by simp [mem_erase], ?_⟩
      change a.frame? i = if i = flag then .none else a.frame? i
      split
      · next hi => simpa [hi] using hs
      · rfl
  | value v =>
    rw [clear_natCast _ hlt] at h
    cases h
    exact ⟨by simp [mem_erase], (ite_self _).symm⟩
  | flags g =>
    rw [clear_natCast _ hlt] at h
    cases h
    exact ⟨by simp [mem_erase], (ite_self _).symm⟩

namespace Cursor

variable {S : Setting ρ} {calls calls' : List (OpenCall ρ)} {s s' s'' : Cursor} {p : Nat}

/-- The frame of a flag in the anchor that the cursor carries, wherever that was set. -/
def frame? (s : Cursor) (flag : Nat) : Option FrameId := s.payload.flags?.bind (·.frame? flag)

/-- The cursor has no flag and no frame that the other one has not. -/
structure Within (s s' : Cursor) : Prop where
  mem : ∀ i, s.mem i = true → s'.mem i = true
  framed : ∀ i, (s.frame? i).isSome = true → (s'.frame? i).isSome = true

/-- Flags and frames of the cursor are those of calls that are open at the position. -/
def CoveredBy (s : Cursor) (calls : List (OpenCall ρ)) (p : Nat) : Prop :=
  ∀ i, s.mem i = true ∨ (s.frame? i).isSome = true →
    ∃ c ∈ calls, c.position = p ∧ ∃ id, c.seat = some (i, id)

theorem frame?_of_frameAt {flag : Nat} {id : FrameId} (h : s.frameAt p flag = some id) :
    s.frame? flag = some id := by
  obtain ⟨f, hf, hframe⟩ := Option.bind_eq_some_iff.1 h
  rw [frame?, hf]
  exact Flags.frame?_of_frameAt hframe

theorem frameAt_of_anchorAt (h : (s.anchorAt p).isSome = true) (flag : Nat) :
    s.frameAt p flag = s.frame? flag := by
  obtain ⟨a, ha⟩ := Option.isSome_iff_exists.1 h
  obtain ⟨f, hf, hanchor⟩ := Option.bind_eq_some_iff.1 ha
  rw [frameAt, frame?, hf]
  exact Flags.frameAt_of_anchorAt (by rw [hanchor]; rfl) flag

theorem Within.refl (s : Cursor) : s.Within s := ⟨fun _ h => h, fun _ h => h⟩

theorem Within.trans (h : s.Within s') (h' : s'.Within s'') : s.Within s'' :=
  ⟨fun i hi => h'.mem i (h.mem i hi), fun i hi => h'.framed i (h.framed i hi)⟩

theorem within_advance (s : Cursor) (n : Nat) : (s.advance n).Within s :=
  ⟨fun _ h => h, fun _ h => h⟩

theorem Within.covered (h : s.Within s') (hs' : s'.CoveredBy calls p) : s.CoveredBy calls p :=
  fun i hi => hs' i (hi.imp (h.mem i) (h.framed i))

/-- What calls that are open at a cursor's position cover is within the cursor. -/
theorem CoveredBy.within (h : s.CoveredBy calls' s'.remaining) (hsub : calls' ⊆ calls)
    (hs' : s'.Shows S calls) : s.Within s' := by
  refine ⟨fun i hi => ?_, fun i hi => ?_⟩
  · obtain ⟨c, hc, hp, id, hseat⟩ := h i (.inl hi)
    have hlit := (hs'.lit_iff _ le_rfl i).2 ⟨c, hsub hc, id, hp, hseat⟩
    rw [lit_eq, Bool.and_eq_true] at hlit
    exact hlit.2
  · obtain ⟨c, hc, hp, id, hseat⟩ := h i (.inr hi)
    have hframe := hs'.frameAt_eq _ le_rfl c (hsub hc) i id hp hseat
    rw [frame?_of_frameAt hframe]
    rfl

/-- Where a flag is lit, all flags and frames of the cursor are those of open calls. -/
theorem Shows.covered (h : s.Shows S calls) (ht : S.tidy) {flag : Nat}
    (hlit : s.lit s.remaining flag = true) : s.CoveredBy calls s.remaining := by
  rw [lit_eq, Bool.and_eq_true] at hlit
  intro i hi
  have hi : s.lit s.remaining i = true := by
    rcases hi with hmem | hframe
    · rw [lit_eq, hlit.1, hmem]
      rfl
    · rw [← frameAt_of_anchorAt hlit.1] at hframe
      exact h.tidy ht _ le_rfl i hframe
  obtain ⟨c, hc, id, hp, hseat⟩ := (h.lit_iff _ le_rfl i).1 hi
  exact ⟨c, hc, hp, id, hseat⟩

end Cursor

/-- The result of a call without its flag and its frame is covered by the calls around it. -/
theorem Match.covered_leave {calls : List (OpenCall ρ)} {m m' : Match} {c : OpenCall ρ}
    {p flag width : Nat} {id : FrameId} (h : m.rest.CoveredBy (c :: calls) p)
    (hseat : c.seat = some (flag, id)) (hw : m.rest.width = some width) (hlt : flag < width)
    (hleave : m.leave flag = .ok m') : m'.rest.CoveredBy calls p := by
  obtain ⟨f, hf, rfl⟩ := Option.map_eq_some_iff.1 hw
  rw [leave, Cursor.flags_eq_ok.2 hf, ok_bind] at hleave
  obtain ⟨f', hwithout, hm'⟩ := bind_eq_ok.1 hleave
  cases hm'
  have hflags := Cursor.flags?_withFlags hf f'
  intro i hi
  obtain ⟨hmem, hframe⟩ := Flags.withoutFlag_holds hlt hwithout i
  have hkept : (m.rest.mem i = true ∨ (m.rest.frame? i).isSome = true) ∧ i ≠ flag := by
    simp only [Cursor.mem, Cursor.frame?, hf, hflags, Option.any_some, Option.bind_some] at hi ⊢
    rcases hi with hi | hi
    · obtain ⟨hi, hne⟩ := hmem hi
      exact ⟨.inl hi, hne⟩
    · rw [hframe] at hi
      split at hi
      · cases hi
      · next hne => exact ⟨.inr hi, hne⟩
  obtain ⟨d, hd, hp, id', hd'⟩ := h i hkept.1
  rcases List.mem_cons.1 hd with rfl | hd
  · rw [hseat] at hd'
    cases hd'
    exact absurd rfl hkept.2
  · exact ⟨d, hd, hp, id', hd'⟩

end SeedGrowth
