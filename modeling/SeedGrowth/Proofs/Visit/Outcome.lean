import SeedGrowth.Proofs.LeftRecursion.Outcome
import SeedGrowth.Proofs.Visit.Calls
import SeedGrowth.Proofs.Visit.History

/-!
# Parsers leak nothing

Whatever parsers do to flags and frames on the way, a match comes with the flags of its
cursor at most. Where nothing has been read, just those flags are lit and those frames found
that were before; further on there are none.
-/
namespace SeedGrowth

variable {ρ : Type}

/-- No flag of the cursor is set, and there is no frame in its anchor. -/
structure Cursor.Cleared (s : Cursor) : Prop where
  unset : s.Unset
  frameless : ∀ i, s.frame? i = none

/-- The match comes with no flags and frames but those of the cursor. -/
structure Match.Confined (m : Match) (s : Cursor) : Prop where
  mem : ∀ i, m.rest.mem i = true → s.mem i = true
  width_eq : m.rest.width = s.width
  /-- Where nothing has been read, the same flags are lit and the same frames are there. -/
  still : m.rest.remaining = s.remaining → ∀ i,
    m.rest.lit m.rest.remaining i = s.lit s.remaining i ∧
      m.rest.frameAt m.rest.remaining i = s.frameAt s.remaining i
  /-- Further on no flag is lit, and no frame is there. -/
  moved : m.rest.remaining ≠ s.remaining → ∀ i,
    m.rest.lit m.rest.remaining i = false ∧ m.rest.frameAt m.rest.remaining i = none
  cleared : s.Cleared → m.rest.Cleared

namespace Cursor.Shows

variable {S : Setting ρ} {calls : List (OpenCall ρ)} {s s' : Cursor}

/-- There is no frame for a flag that is not lit. -/
theorem frameAt_eq_none (h : s.Shows S calls) (ht : S.tidy) {p i : Nat} (hp : p ≤ s.remaining)
    (hi : s.lit p i = false) : s.frameAt p i = none := by
  cases hframe : s.frameAt p i with
  | none => rfl
  | some id =>
    have hlit := h.tidy ht p hp i (by rw [hframe]; rfl)
    rw [hi] at hlit
    cases hlit

/-- Cursors at one position that show the same calls have the same flags lit there, and the
same frames. -/
theorem same (h : s.Shows S calls) (h' : s'.Shows S calls) (ht : S.tidy)
    (hp : s'.remaining = s.remaining) (i : Nat) :
    s'.lit s'.remaining i = s.lit s.remaining i ∧
      s'.frameAt s'.remaining i = s.frameAt s.remaining i := by
  have hlit := h.lit_iff _ le_rfl i
  have hlit' := h'.lit_iff _ le_rfl i
  rw [hp] at hlit' ⊢
  have heq : s'.lit s.remaining i = s.lit s.remaining i := Bool.eq_iff_iff.2 (hlit'.trans hlit.symm)
  refine ⟨heq, ?_⟩
  cases hset : s.lit s.remaining i with
  | true =>
    obtain ⟨c, hc, id, hcp, hseat⟩ := hlit.1 hset
    rw [h.frameAt_eq _ le_rfl c hc i id hcp hseat, h'.frameAt_eq _ hp.ge c hc i id hcp hseat]
  | false => rw [h.frameAt_eq_none ht le_rfl hset, h'.frameAt_eq_none ht hp.ge (heq.trans hset)]

/-- Further on than all open calls no flag is lit, and there is no frame. -/
theorem dark_ahead (h : s.Shows S calls) (ht : S.tidy)
    (hp : ∀ c ∈ calls, s.remaining < c.position) (i : Nat) :
    s.lit s.remaining i = false ∧ s.frameAt s.remaining i = none := by
  have hunlit : s.lit s.remaining i = false := by
    rw [Bool.eq_false_iff]
    intro hlit
    obtain ⟨c, hc, id, hcp, -⟩ := (h.lit_iff _ le_rfl i).1 hlit
    exact absurd hcp (hp c hc).ne'
  exact ⟨hunlit, h.frameAt_eq_none ht le_rfl hunlit⟩

end Cursor.Shows

/-- What is within a cleared cursor is cleared. -/
theorem Cursor.Within.cleared {s s' : Cursor} (h : s.Within s') (hs' : s'.Cleared) :
    s.Cleared := by
  refine ⟨fun i => ?_, fun i => ?_⟩
  · have hmem := h.mem i
    rw [hs'.unset i] at hmem
    simpa using hmem
  · have hframed := h.framed i
    rw [hs'.frameless i] at hframed
    simpa using hframed

/-- A match that a visit gives leaks nothing. -/
theorem Visit.Fits.confined {S : Setting ρ} {v : Visit ρ} {run : Run ρ} (h : v.Fits S run)
    (ht : S.tidy) {m : Match} {σ : Session} (hm : v.eval S.grammar = (.ok (some m), σ)) :
    m.Confined v.cursor := by
  have hwithin : m.rest.Within v.cursor := Visit.stays ht v.depth v.parser h hm
  obtain ⟨run', -, -, -, htaken⟩ := h.eval hm
  obtain ⟨hshows, hle⟩ := htaken m rfl
  refine ⟨hwithin.mem, hshows.width_eq.trans h.shows.width_eq.symm, h.shows.same hshows ht,
    fun hne => hshows.dark_ahead ht fun c hc => ?_, hwithin.cleared⟩
  have hbehind := h.shows.behind c hc
  omega

/-- The setting of a run that begins at a cursor. Frames behind the cursor are not looked at, so
that the run counts as tidy. -/
def Setting.tidied (g : Grammar ρ) (hg : g.OfCombinators) (hk : g.NamesKnown) (home : RegistryId)
    (session : Session) (s : Cursor) (depth : Nat) : Setting ρ :=
  { Setting.start g hg hk home session s depth with tidy := True }

/-- Where no flag is lit and no frame is found at the beginning or ahead of it, the first visit
fits. -/
theorem Visit.fits_start {g : Grammar ρ} (hg : g.OfCombinators) (hk : g.NamesKnown)
    {home : RegistryId} {session : Session} (hh : session.Hosts g home) {s : Cursor} (hs : s.Dark)
    (hframes : ∀ p ≤ s.remaining, ∀ i, s.frameAt p i = none) (depth : Nat) {parser : Parser ρ}
    (hp : parser.isCombinator = true) :
    Visit.Fits (Setting.tidied g hg hk home session s depth) ⟨depth, parser, s, session⟩
      ⟨session, [], []⟩ := by
  have hstart : s.Shows (.start g hg hk home session s depth) [] := Setting.start_shows hs
  have hshows : s.Shows (Setting.tidied g hg hk home session s depth) [] := by
    refine ⟨hstart.behind, hstart.lit_iff, hstart.frameAt_eq, fun _ p hle i hi => ?_,
      hstart.width_eq, hstart.remaining_le, hstart.total_eq⟩
    rw [hframes p hle i] at hi
    cases hi
  refine ⟨rfl, .start hh rfl rfl And.left, fun c outer hsuffix => ?_, hshows, fun c hc => ?_, rfl,
    hp⟩
  · cases List.suffix_nil.1 hsuffix
  · cases hc

/-- Where the first visit fits, so do all others, and matches leak nothing. -/
theorem Grammar.visit_confined {g : Grammar ρ} (hg : g.OfCombinators) (hk : g.NamesKnown)
    {home : RegistryId} {session : Session} (hh : session.Hosts g home) {s : Cursor} (hs : s.Dark)
    (hframes : ∀ p ≤ s.remaining, ∀ i, s.frameAt p i = none) (depth : Nat) {parser : Parser ρ}
    (hp : parser.isCombinator = true) {v : Visit ρ}
    (hv : Relation.ReflTransGen g.Leads ⟨depth, parser, s, session⟩ v) {m : Match} {σ : Session}
    (hm : v.eval g = (.ok (some m), σ)) : m.Confined v.cursor := by
  obtain ⟨run, hreached⟩ := (Visit.fits_start hg hk hh hs hframes depth hp).reached trivial hv
  exact hreached.confined trivial hm

/-- Run from a cursor on which no flag is lit and no frame is found where it is or further
on, parsers leak nothing: whenever a parser is handed a cursor, a visit begins, and a match
that a visit of the run gives comes with no flags and frames but those of its cursor. -/
theorem Grammar.run_confined {g : Grammar ρ} (hg : g.OfCombinators) (hk : g.NamesKnown)
    {home : RegistryId} {session : Session} (hh : session.Hosts g home) {s : Cursor} (hs : s.Dark)
    (hframes : ∀ p ≤ s.remaining, ∀ i, s.frameAt p i = none) (depth : Nat) {parser : Parser ρ}
    (hp : parser.isCombinator = true) :
    (∀ m ∈ (g.run depth parser s session).2.moments, ∀ parser' s',
      m.happening = .handed parser' s' → ∃ v,
        Relation.ReflTransGen g.Leads ⟨depth, parser, s, session⟩ v ∧
          v.parser = parser' ∧ v.cursor = s') ∧
      ∀ v, Relation.ReflTransGen g.Leads ⟨depth, parser, s, session⟩ v →
        ∀ m σ, v.eval g = (.ok (some m), σ) → m.Confined v.cursor :=
  ⟨fun _ hm _ _ hhanded => g.run_visits hg depth hp s session hm hhanded,
    fun _ hv _ _ hm => g.visit_confined hg hk hh hs hframes depth hp hv hm⟩

/-- A letter before an element. -/
def second : Cursor := .start ['a', 'a'] (.bare (.none .standard .null))

/-- The element behind a letter is a visit of the run, and its match leaks nothing. -/
theorem visit_second_confined :
    (elements (.text "element") id).OfCombinators ∧ (elements (.text "element") id).NamesKnown ∧
      Session.quiet.Hosts (elements (.text "element") id) 0 ∧ second.Dark ∧
      (∀ p ≤ second.remaining, ∀ i, second.frameAt p i = none) ∧
      (Parser.sequence [.char 'a', .ref ()]).isCombinator = true ∧
      Relation.ReflTransGen (elements (.text "element") id).Leads
        ⟨2, .sequence [.char 'a', .ref ()], second, .quiet⟩
        ⟨2, .ref (), second.advance 1, .quiet⟩ ∧
      ∃ m σ, Visit.eval (elements (.text "element") id) ⟨2, .ref (), second.advance 1, .quiet⟩ =
          (.ok (some m), σ) ∧ m.Confined (second.advance 1) := by
  have hg := elements_ofCombinators (.text "element") id
  have hk : (elements (.text "element") id).NamesKnown := elements_namesKnown _ _ rfl
  have hh : Session.quiet.Hosts (elements (.text "element") id) 0 :=
    elements_hosts _ _ _ (by decide)
  have hblank : second.Blank := Cursor.blank_start _ _
  have hs : second.Dark := hblank.unset.dark
  have hframes : ∀ p ≤ second.remaining, ∀ i, second.frameAt p i = none :=
    fun p _ i => hblank.frameAt_eq_none p i
  have hp : (Parser.sequence [.char 'a', .ref ()] : Parser Unit).isCombinator = true := rfl
  have hv : Relation.ReflTransGen (elements (.text "element") id).Leads
      ⟨2, .sequence [.char 'a', .ref ()], second, .quiet⟩
      ⟨2, .ref (), second.advance 1, .quiet⟩ :=
    .tail (.single (.after rfl)) .item
  refine ⟨hg, hk, hh, hs, hframes, hp, hv, ?_⟩
  have hmatched : matched (Visit.eval (elements (.text "element") id)
      ⟨2, .ref (), second.advance 1, .quiet⟩).1 = true := by decide +kernel
  cases hm : Visit.eval (elements (.text "element") id)
      ⟨2, .ref (), second.advance 1, .quiet⟩ with
  | mk result σ =>
    rw [hm] at hmatched
    rcases result with stop | _ | m
    · cases hmatched
    · cases hmatched
    · exact ⟨m, σ, rfl, (Grammar.run_confined hg hk hh hs hframes 2 hp).2 _ hv m σ hm⟩

/-- A rule for nothing at all. -/
def nothing : Grammar Unit := .single .empty (some ⟨.text "nothing", some 0⟩)

/-- A session in which a call has begun. -/
def Session.framed : Session :=
  { Session.quiet with frames := #[.begin (.text "nothing") 0 1] }

/-- A cursor without flags, the anchor of which has a frame at the given length. -/
def framed (text : List Char) (position : Nat) : Cursor :=
  .start text (.bare ((Flags.none .standard Carried.null).carrying
    (.anchor ((Anchor.empty position).insert 0 0))))

theorem framed_unset (text : List Char) (position : Nat) : (framed text position).Unset := by
  intro i
  exact Flags.mem_none .standard Carried.null i

/-- Frames without flags are not kept apart: the call of a rule that reads nothing takes the
frame off that was there for its flag, and reading comes to the frame of an anchor that was
set further on. -/
theorem framed_not_confined :
    (nothing.OfCombinators ∧ nothing.NamesKnown ∧ Session.framed.Hosts nothing 0) ∧
      ((framed ['a'] 1).Unset ∧ ∃ m σ,
        Visit.eval nothing ⟨1, .ref (), framed ['a'] 1, .framed⟩ = (.ok (some m), σ) ∧
          m.rest.remaining = 1 ∧ m.rest.frameAt 1 0 ≠ (framed ['a'] 1).frameAt 1 0) ∧
      ((framed ['a', 'a'] 1).Unset ∧ ∃ m σ,
        Visit.eval nothing ⟨1, .char 'a', framed ['a', 'a'] 1, .framed⟩ = (.ok (some m), σ) ∧
          m.rest.remaining = 1 ∧ m.rest.frameAt 1 0 ≠ none) := by
  refine ⟨⟨fun _ => rfl, ?_, ?_⟩,
    ⟨framed_unset _ _, _, _, rfl, rfl, ?_⟩, ⟨framed_unset _ _, _, _, rfl, rfl, ?_⟩⟩
  · intro r guard hr
    cases hr
    rfl
  · intro r guard hr
    cases hr
    exact ⟨rfl, Nat.one_pos⟩
  · decide
  · decide

end SeedGrowth
