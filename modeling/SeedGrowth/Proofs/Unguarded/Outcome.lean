import SeedGrowth.Proofs.LeftRecursion.Outcome
import SeedGrowth.Proofs.Unguarded.Reading

/-!
# Guards that are not needed

A guarded rule that is never called again at a position before a call of it there ends might
as well be a plain one: whatever other rules do around it and inside it, whole runs come out
the same. What stands around the parsers may tell the two apart, because only guards look for
flags, look names up and leave a trace.
-/
namespace SeedGrowth

variable {ρ : Type}

namespace Grammar

variable [DecidableEq ρ] {g : Grammar ρ} {r : ρ} {home : RegistryId} {session : Session}
  {s : Cursor} {parser : Parser ρ}

/-- A run without re-entries of a rule comes out as its watched evaluation does, which reports
nothing, unless it is hindered. -/
theorem LivesIn.apply_watched (h : g.LivesIn home session)
    (hkey : g.KeysFit (some : ρ → Option ρ)) (hs : s.Dark) (hp : parser.isCombinator = true)
    (hnew : ¬ (g.run (g.nestingBound s.remaining) parser s session).2.Reenters r) :
    session.Hindered home s (g.apply parser s session).1 ∨
      readOff (g.apply parser s session).1 =
        (g.watch r (g.nestingBound s.remaining) parser s.point).outcome ∧
      ∀ position,
        (none, position) ∉ (g.watch r (g.nestingBound s.remaining) parser s.point).asked := by
  have hcall : CallsMirror (Told.watched r) (h.setting s) (g.nestingBound s.remaining)
      (g.followCall (g.nestingBound s.remaining)) (g.watchCall r (g.nestingBound s.remaining)) :=
    watchCall_mirrors hkey _
  refine (h.apply_mirrors hs hp hcall).imp_right fun hreads => ⟨hreads.1, fun position hmem => ?_⟩
  exact hnew (hreads.2.tells none position hmem)

/-- A rule that is never called again at a position before a call of it there ends comes out
the same without its guard, in whole runs: with no match, with the same rest and value, or with
the same fault; unless one of the runs is hindered by what stands around the parsers. -/
theorem apply_unguarded (h : g.LivesIn home session) (ha : g.NamesApart) (hs : s.Unset)
    (hp : parser.isCombinator = true)
    (hnew : ¬ (g.run (g.nestingBound s.remaining) parser s session).2.Reenters r) :
    readOff ((g.unguarded r).apply parser s session).1 = readOff (g.apply parser s session).1 ∨
      session.Hindered home s ((g.unguarded r).apply parser s session).1 ∨
      session.Hindered home s (g.apply parser s session).1 := by
  have h' := h.unguarded r
  rcases h.apply_watched (keysFit_some ha h.known) hs.dark hp hnew with
    hhindered | ⟨houtcome, hnone⟩
  · exact .inr (.inr hhindered)
  rcases h'.apply_reads (keysFit_some (ha.unguarded r) h'.known) hs.dark hp with
    hhindered | ⟨houtcome', -⟩
  · exact .inr (.inl hhindered)
  · -- The grammars have the same rules by name, so calls may be nested as deep in both.
    left
    calc
      readOff ((g.unguarded r).apply parser s session).1
          = ((g.unguarded r).read some (g.nestingBound s.remaining) parser s.point).outcome :=
        houtcome'
      _ = (g.watch r (g.nestingBound s.remaining) parser s.point).outcome := by
        rw [read_eq_watch hnone]
      _ = readOff (g.apply parser s session).1 := houtcome.symm

end Grammar

/-- The rule and the position that a parser which is given a cursor calls. -/
def Happening.called? : Happening ρ → Option (ρ × Nat)
  | .handed (.ref r) s => some (r, s.remaining)
  | _ => none

theorem Happening.called?_eq_some {happening : Happening ρ} {r : ρ} {position : Nat} :
    happening.called? = some (r, position) ↔
      ∃ s, happening = .handed (.ref r) s ∧ s.remaining = position := by
  constructor
  · intro h
    unfold called? at h
    split at h
    · next s =>
      cases h
      exact ⟨s, rfl, rfl⟩
    · cases h
  · rintro ⟨s, rfl, rfl⟩
    rfl

theorem Moment.reenters_iff {m : Moment ρ} {r : ρ} :
    m.Reenters r ↔ ∃ c ∈ m.calls, c.rule = r ∧ m.happening.called? = some (r, c.position) := by
  simp only [Happening.called?_eq_some]
  constructor
  · rintro ⟨s, hhappening, c, hc, hrule, hposition⟩
    exact ⟨c, hc, hrule, s, hhappening, hposition.symm⟩
  · rintro ⟨c, hc, hrule, s, hhappening, hposition⟩
    exact ⟨s, hhappening, c, hc, hrule, hposition.symm⟩

instance [DecidableEq ρ] (m : Moment ρ) (r : ρ) : Decidable (m.Reenters r) :=
  decidable_of_iff _ Moment.reenters_iff.symm

instance [DecidableEq ρ] (run : Run ρ) (r : ρ) : Decidable (run.Reenters r) :=
  inferInstanceAs (Decidable (∃ m ∈ run.moments, m.Reenters r))

/-- Sums of terms. A term is a letter or nothing at all, or a sum in brackets. -/
def additions : Grammar Bool := .pair
  ⟨.alt [.sequence [.ref false, .char '+', .ref true], .ref true], some ⟨.text "sum", some 0⟩⟩
  ⟨.alt [.sequence [.char '(', .ref false, .char ')'], .opt (.char 'a')],
    some ⟨.text "term", some 0⟩⟩

/-- A cursor before a sum the second term of which holds another sum. -/
def bracketed : Cursor := clearAt ['a', '+', '(', 'a', '+', ')']

theorem additions_livesIn : additions.LivesIn 0 .quiet where
  combinators r := by cases r <;> rfl
  known {r guard} hr := by cases r <;> cases hr <;> rfl
  hashable {r guard} hr := by cases r <;> cases hr <;> rfl
  hosts {r guard} hr := by cases r <;> cases hr <;> exact ⟨rfl, Nat.one_pos⟩
  room := Grammar.hasRoom_of_le (by decide)

theorem additions_namesApart : additions.NamesApart := by
  intro r r' guard guard' hr hr' halike
  cases r <;> cases r' <;> cases hr <;> cases hr' <;> first | rfl | cases halike

/-- A term need not be guarded, although it may match nothing, is called in each round of a
sum that begins with itself, and calls sums again. -/
theorem apply_bracketed_unguarded :
    additions.LivesIn 0 .quiet ∧ additions.NamesApart ∧ bracketed.Unset ∧
      (Parser.ref false : Parser Bool).isCombinator = true ∧
      ¬ (additions.run (additions.nestingBound bracketed.remaining) (.ref false) bracketed
        .quiet).2.Reenters true ∧
      readOff (additions.apply (.ref false) bracketed .quiet).1 = .ok (some ⟨⟨[], ⟨6, 1, 7⟩⟩,
        .tuple [.text "a", .text "+",
          .tuple [.text "(", .tuple [.text "a", .text "+", .null], .text ")"]]⟩) ∧
      readOff ((additions.unguarded true).apply (.ref false) bracketed .quiet).1 =
        readOff (additions.apply (.ref false) bracketed .quiet).1 := by
  have hs : bracketed.Unset := (Cursor.blank_start _ _).unset
  have hnew : ¬ (additions.run (additions.nestingBound bracketed.remaining) (.ref false) bracketed
      .quiet).2.Reenters true := by decide +kernel
  have hclear : ∀ result : Except Stop (Option Match),
      ¬ Session.quiet.Hindered 0 bracketed result := Session.not_hindered rfl (by decide) rfl
  have houtcome : (additions.read id 12 (.ref false) bracketed.point).outcome =
      .ok (some ⟨⟨[], ⟨6, 1, 7⟩⟩, .tuple [.text "a", .text "+",
        .tuple [.text "(", .tuple [.text "a", .text "+", .null], .text ")"]]⟩) := rfl
  refine ⟨additions_livesIn, additions_namesApart, hs, rfl, hnew, ?_, ?_⟩
  · have hkey : additions.KeysFit id :=
      Grammar.keysFit_id additions_namesApart additions_livesIn.known
    rcases additions_livesIn.apply_of_ends hkey hs.dark rfl (Account.ends_of_ok houtcome) with
      heq | hhindered
    · rw [heq, houtcome]
    · exact absurd hhindered (hclear _)
  · rcases Grammar.apply_unguarded additions_livesIn additions_namesApart hs rfl hnew with
      heq | hhindered | hhindered
    · exact heq
    all_goals exact absurd hhindered (hclear _)

/-- A rule matches without its guard and not with it, although it is not called again before a
call of it ends, and names that are told apart have room in the one registry. -/
structure Grammar.GuardMisses [DecidableEq ρ] (g : Grammar ρ) (r : ρ) (home : RegistryId)
    (session : Session) (s : Cursor) : Prop where
  combinators : g.OfCombinators
  apart : g.NamesApart
  hosts : session.Hosts g home
  room : g.HasRoom (session.registry home)
  guarded : (g.rule r).guard.isSome = true
  unset : s.Unset
  not_reentered : ¬ (g.run (g.nestingBound s.remaining) (.ref r) s session).2.Reenters r
  plain_matched : matched ((g.unguarded r).apply (.ref r) s session).1 = true
  not_matched : matched (g.apply (.ref r) s session).1 = false

/-- A letter that is worth a value, guarded by a name. -/
def named (name v : Value) : Grammar Unit :=
  .single (.mapped (.char 'a') fun _ => .ok v) (some ⟨name, some 0⟩)

theorem named_guardMisses {name v : Value} {registry : Registry} {s : Cursor}
    (hroom : registry.size < registry.capacity.size) (hs : s.Unset)
    (hnew : ¬ ((named name v).run ((named name v).nestingBound s.remaining) (.ref ()) s
      (.alone registry)).2.Reenters ())
    (hplain : matched (((named name v).unguarded ()).apply (.ref ()) s
      (.alone registry)).1 = true)
    (hnot : matched ((named name v).apply (.ref ()) s (.alone registry)).1 = false) :
    (named name v).GuardMisses () 0 (.alone registry) s where
  combinators _ := rfl
  apart _ _ _ := rfl
  hosts hr := by cases hr; exact ⟨rfl, Nat.one_pos⟩
  room := Grammar.hasRoom_of_le hroom
  guarded := rfl
  unset := hs
  not_reentered := hnew
  plain_matched := hplain
  not_matched := hnot

/-- What stands around the parsers does hinder a rule because it is guarded: a cursor has fewer
flags than the registry or none at all, or a number is too long for a trace. So does its name,
which is none that can be looked up. -/
theorem guard_misses :
    (named (.text "letter") (.int 1)).GuardMisses () 0 .crowded (clearAt ['a']) ∧
      (named (.text "letter") (.int 1)).GuardMisses () 0 .quiet (.start ['a'] .absent) ∧
      (named (.text "letter") (.int (10 ^ 4300))).GuardMisses () 0 .traced (clearAt ['a']) ∧
      (named (.list []) (.int 1)).GuardMisses () 0 .quiet (clearAt ['a']) := by
  have hs : (clearAt ['a']).Unset := (Cursor.blank_start _ _).unset
  refine ⟨named_guardMisses (by decide) hs ?_ ?_ ?_,
    named_guardMisses (by decide) (fun _ => rfl) ?_ ?_ ?_,
    named_guardMisses (by decide) hs ?_ ?_ ?_,
    named_guardMisses (by decide) hs ?_ ?_ ?_⟩
  all_goals decide +kernel

end SeedGrowth
