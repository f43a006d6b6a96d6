import SeedGrowth.Grammar.Guard

/-!
# Flags at a position

Flags say something about one position only: the one of the anchor that they carry.
A flag is lit at a position if it is set there, and the frame that set it is looked
up in the anchor. The lemmas say what beginning and leaving a call do to this view;
nothing below them looks at anchors again.
-/
namespace SeedGrowth

namespace Anchor

theorem lookup_replace (frames : List (Nat × FrameId)) (flag i : Nat) (id : FrameId) :
    (frames.map fun (key, old) => (key, if key = flag then id else old)).lookup i =
      if i = flag then (frames.lookup i).map fun _ => id else frames.lookup i := by
  induction frames with
  | nil => simp
  | cons entry frames ih =>
    obtain ⟨key, old⟩ := entry
    rw [List.map_cons, List.lookup_cons, List.lookup_cons, ih]
    by_cases hi : i = key
    · subst hi
      by_cases hf : i = flag <;> simp [hf]
    · have hi' : (i == key) = false := by simpa using hi
      simp only [hi']

theorem frame?_insert (a : Anchor) (flag i : Nat) (id : FrameId) :
    (a.insert flag id).frame? i = if i = flag then some id else a.frame? i := by
  unfold insert
  split
  · next h =>
    simp only [frame?, lookup_replace] at h ⊢
    split
    · next hi =>
      obtain ⟨old, hold⟩ := Option.isSome_iff_exists.1 h
      simp [hi, hold]
    · rfl
  · next h =>
    simp only [frame?, Option.not_isSome_iff_eq_none] at h ⊢
    rw [List.lookup_append]
    by_cases hi : i = flag
    · subst hi
      simp [h]
    · have hi' : (i == flag) = false := by simpa using hi
      simp [List.lookup_cons, hi, hi']

theorem frame?_erase (a : Anchor) (flag i : Nat) :
    (a.erase flag).frame? i = if i = flag then none else a.frame? i := by
  obtain ⟨position, frames⟩ := a
  simp only [erase, frame?]
  induction frames with
  | nil => simp
  | cons entry frames ih =>
    obtain ⟨key, old⟩ := entry
    by_cases hk : key = flag
    · subst hk
      by_cases hi : i = key
      · simpa [hi] using ih
      · have hi' : (i == key) = false := by simpa using hi
        simpa [hi, hi', List.lookup_cons] using ih
    · rw [List.filter_cons_of_pos (by simpa using hk), List.lookup_cons, List.lookup_cons, ih]
      by_cases hi : i = key
      · subst hi; simp [hk]
      · have hi' : (i == key) = false := by simpa using hi
        simp [hi']

end Anchor

namespace Flags

/-- The anchor that is carried, if it was set at the position. -/
def anchorAt (f : Flags Carried) (position : Nat) : Option Anchor :=
  match f.carried with
  | .anchor a => if a.position = position then some a else .none
  | _ => .none

/-- A flag is set at the position. -/
def lit (f : Flags Carried) (position flag : Nat) : Bool :=
  (f.anchorAt position).isSome && f.mem flag

/-- The frame that set a flag at the position. -/
def frameAt (f : Flags Carried) (position flag : Nat) : Option FrameId :=
  (f.anchorAt position).bind (·.frame? flag)

theorem anchorAt_carrying {α : Type} (f : Flags α) (a : Anchor) (p : Nat) :
    (f.carrying (.anchor a)).anchorAt p = if a.position = p then some a else .none := rfl

theorem anchorAt_eq_some {f : Flags Carried} {p : Nat} {a : Anchor} :
    f.anchorAt p = some a ↔ f.carried = .anchor a ∧ a.position = p := by
  obtain ⟨words, carried⟩ := f
  cases carried with
  | anchor b =>
    simp only [anchorAt, Carried.anchor.injEq]
    constructor
    · intro h
      split at h
      · next hp => cases h; exact ⟨rfl, hp⟩
      · cases h
    · intro heq
      obtain ⟨rfl, hp⟩ := heq
      rw [if_pos hp]
  | value v => simp [anchorAt]
  | flags f => simp [anchorAt]

/-- Beginning at a position keeps what is lit there and drops the rest. -/
theorem enterAt_spec (p : Nat) (f : Flags Carried) :
    (enterAt p f).2.position = p ∧ (enterAt p f).1.capacity = f.capacity ∧
      ∀ i, (enterAt p f).1.mem i = f.lit p i ∧ (enterAt p f).2.frame? i = f.frameAt p i := by
  cases h : f.anchorAt p with
  | some a =>
    obtain ⟨hc, hp⟩ := anchorAt_eq_some.1 h
    have he : enterAt p f = (f, a) := by simp [enterAt, hc, hp]
    simp [he, hp, lit, frameAt, h]
  | none =>
    have he : enterAt p f = enterAt.fresh p f := by
      unfold enterAt
      split
      · next a hc =>
        by_cases hp : a.position = p
        · rw [anchorAt_eq_some.2 ⟨hc, hp⟩] at h
          cases h
        · rw [if_neg hp]
      · rfl
    simp [he, enterAt.fresh, lit, frameAt, h]

/-- The flags with which the body of a call is evaluated. -/
theorem lit_begin {f : Flags Carried} {a : Anchor} {flag : Nat} {id : FrameId}
    (h : flag < f.capacity) (q i : Nat) :
    ((f.insert flag).carrying (.anchor (a.insert flag id))).lit q i =
      (decide (a.position = q) && (f.mem i || decide (i = flag))) := by
  simp only [lit, anchorAt_carrying, Anchor.position_insert, mem_carrying, mem_insert h]
  by_cases hq : a.position = q <;> simp [hq]

theorem frameAt_begin (f : Flags Carried) (a : Anchor) (flag : Nat) (id : FrameId) (q i : Nat) :
    ((f.insert flag).carrying (.anchor (a.insert flag id))).frameAt q i =
      if a.position = q then if i = flag then some id else a.frame? i else .none := by
  simp only [frameAt, anchorAt_carrying, Anchor.position_insert]
  by_cases hq : a.position = q <;> simp [hq, Anchor.frame?_insert]

/-- Taking a flag and its frame off succeeds for flags that there are. -/
theorem withoutFlag_eq {f : Flags Carried} {flag : Nat} (h : flag < f.capacity) :
    ∃ f', withoutFlag flag f = .ok f' ∧ f'.capacity = f.capacity ∧
      ∀ q i, (f'.lit q i = true ↔ f.lit q i = true ∧ i ≠ flag) ∧
        f'.frameAt q i = if i = flag then .none else f.frameAt q i := by
  have hclear : ∀ g : Flags Carried, g.capacity = f.capacity →
      g.clear (.int flag) = .ok (g.erase flag) := by
    intro g hg
    rw [clear, locate_natCast (hg ▸ h)]
    rfl
  have herase : f.clear (.int flag) = .ok (f.erase flag) := hclear f rfl
  cases hc : f.carried with
  | anchor a =>
    by_cases hs : (a.frame? flag).isSome
    · refine ⟨(f.carrying (.anchor (a.erase flag))).erase flag, ?_, by simp, fun q i => ?_⟩
      · simp [withoutFlag, hc, hs, hclear (f.carrying (.anchor (a.erase flag))) rfl]
      · have ha : ((f.carrying (.anchor (a.erase flag))).erase flag).anchorAt q =
            (f.anchorAt q).map (·.erase flag) := by
          by_cases hq : a.position = q <;> simp [anchorAt, hc, hq]
        constructor
        · simp only [lit, ha, Option.isSome_map, mem_erase, mem_carrying]
          simp [and_assoc]
        · cases hq : f.anchorAt q with
          | none => simp [frameAt, ha, hq]
          | some b => simp [frameAt, ha, hq, Anchor.frame?_erase]
    · refine ⟨f.erase flag, by simp [withoutFlag, hc, hs, herase], by simp, fun q i => ?_⟩
      have ha : (f.erase flag).anchorAt q = f.anchorAt q := rfl
      constructor
      · simp [lit, ha, mem_erase, and_assoc]
      · rw [frameAt, ha, ← frameAt]
        split
        · next hi =>
          subst hi
          cases hq : f.anchorAt q with
          | none => simp [frameAt, hq]
          | some b =>
            obtain ⟨hb, -⟩ := anchorAt_eq_some.1 hq
            rw [hc] at hb
            cases hb
            simpa [frameAt, hq] using hs
        · rfl
  | value v =>
    refine ⟨f.erase flag, by simp [withoutFlag, hc, herase], by simp, fun q i => ?_⟩
    simp [lit, frameAt, anchorAt, hc]
  | flags g =>
    refine ⟨f.erase flag, by simp [withoutFlag, hc, herase], by simp, fun q i => ?_⟩
    simp [lit, frameAt, anchorAt, hc]

end Flags

namespace Cursor

/-- A flag of the cursor is set at the position. -/
def lit (s : Cursor) (position flag : Nat) : Bool := s.payload.flags?.any (·.lit position flag)

/-- The frame that set a flag of the cursor at the position. -/
def frameAt (s : Cursor) (position flag : Nat) : Option FrameId :=
  s.payload.flags?.bind (·.frameAt position flag)

/-- How many flags the cursor has, if it has any. -/
def width (s : Cursor) : Option Nat := s.payload.flags?.map (·.capacity)

@[simp] theorem lit_advance (s : Cursor) (n p i : Nat) : (s.advance n).lit p i = s.lit p i := rfl

@[simp] theorem frameAt_advance (s : Cursor) (n p i : Nat) :
    (s.advance n).frameAt p i = s.frameAt p i := rfl

@[simp] theorem width_advance (s : Cursor) (n : Nat) : (s.advance n).width = s.width := rfl

/-- A flag of the cursor is set, for whatever position. -/
def mem (s : Cursor) (flag : Nat) : Bool := s.payload.flags?.any (·.mem flag)

/-- The anchor that the cursor carries, if it was set at the position. -/
def anchorAt (s : Cursor) (position : Nat) : Option Anchor :=
  s.payload.flags?.bind (·.anchorAt position)

theorem lit_eq (s : Cursor) (p i : Nat) : s.lit p i = ((s.anchorAt p).isSome && s.mem i) := by
  unfold lit anchorAt mem
  cases s.payload.flags? with
  | none => rfl
  | some f => rfl

theorem frameAt_eq (s : Cursor) (p i : Nat) : s.frameAt p i = (s.anchorAt p).bind (·.frame? i) := by
  unfold frameAt anchorAt
  cases s.payload.flags? with
  | none => rfl
  | some f => rfl

theorem anchorAt_of_carrying {s : Cursor} {f : Flags Carried} {a : Anchor}
    (h : s.payload.flags? = some (f.carrying (.anchor a))) (p : Nat) :
    s.anchorAt p = if a.position = p then some a else none := by
  rw [anchorAt, h]
  rfl

/-- No flag of the cursor is set. -/
def Unset (s : Cursor) : Prop := ∀ i, s.mem i = false

/-- No flag of the cursor is set, and it carries no anchor. -/
structure Blank (s : Cursor) : Prop where
  unset : s.Unset
  unanchored : ∀ p, s.anchorAt p = none

/-- No flag of the cursor says anything about the text ahead. -/
def Dark (s : Cursor) : Prop := ∀ p ≤ s.remaining, ∀ i, s.lit p i = false

theorem Unset.dark {s : Cursor} (hs : s.Unset) : s.Dark := by
  intro p _ i
  rw [lit_eq, hs i, Bool.and_false]

theorem Blank.frameAt_eq_none {s : Cursor} (hs : s.Blank) (p i : Nat) : s.frameAt p i = none := by
  rw [frameAt_eq, hs.unanchored p]
  rfl

/-- A cursor at the beginning of a text, with new flags. -/
theorem blank_start (text : List Char) (c : Capacity) :
    (start text (.bare (.none c .null))).Blank := by
  refine ⟨fun i => ?_, fun p => rfl⟩
  exact Flags.mem_none c Carried.null i

theorem flags_eq_ok {s : Cursor} {f : Flags Carried} :
    s.flags = .ok f ↔ s.payload.flags? = some f := by
  unfold flags
  split <;> simp_all

theorem flags?_withFlags {s : Cursor} {f : Flags Carried} (h : s.payload.flags? = some f)
    (f' : Flags Carried) : (s.withFlags f').payload.flags? = some f' := by
  obtain ⟨fragment, place, payload⟩ := s
  cases payload <;> simp_all [withFlags, Payload.withFlags, Payload.flags?]

end Cursor

end SeedGrowth
