import SeedGrowth.Proofs.Binding.Visits
import SeedGrowth.Proofs.Context.Outcome

/-!
# Registries of guards and what is matched

Registries give the same numbers to flags, and a cursor does not tell whose they are. If each
guard uses a registry of its own choice, a call of one rule may find the flag of another one
set, and is answered as if it had called itself. That is the only difference there is: where no
call is misled by a flag, a parser comes out as with all guards on one registry.
-/
namespace SeedGrowth

variable {ρ : Type}

namespace Grammar

/-- The names of guarded rules are told apart, each guard uses a registry that has room for
the guards that use it, and the cursor has the flags of all these registries. -/
structure BoundIn (g : Grammar ρ) (home : ρ → RegistryId) (session : Session) (s : Cursor) :
    Prop where
  combinators : g.OfCombinators
  apart : g.NamesApart
  known : g.NamesKnown
  hashable : g.NamesHashable
  hosts : ∀ {r guard}, (g.rule r).guard = some guard → session.Uses (home r) guard
  room : ∀ id, (g.servedBy home id).HasRoom (session.registry id)
  wide : ∃ flags, s.payload.flags? = some flags ∧ ∀ {r guard}, (g.rule r).guard = some guard →
    (session.registry (home r)).capacity.size ≤ flags.capacity

variable {g : Grammar ρ} {home : ρ → RegistryId} {session : Session} {s : Cursor}

/-- One of the registries that guards use is traced. -/
def Traces (g : Grammar ρ) (home : ρ → RegistryId) (session : Session) : Prop :=
  ∃ r guard, (g.rule r).guard = some guard ∧ (session.registry (home r)).verbose = true

/-- The bindings of the guards, as evaluations begin at the cursor in the session. -/
def BoundIn.bindings (h : g.BoundIn home session s) : Bindings ρ where
  setting := .start g h.combinators h.known 0 session s (g.nestingBound s.remaining)
  home := home
  apart := h.apart
  hashable := h.hashable
  traced := g.Traces home session

theorem BoundIn.agrees (h : g.BoundIn home session s) : session.Agrees h.bindings [] where
  hosts := h.hosts
  wide hr := by
    obtain ⟨flags, hflags, hwide⟩ := h.wide
    exact ⟨flags.capacity, congrArg (Option.map _) hflags, hwide hr⟩
  traced hr hv := ⟨_, _, hr, hv⟩
  room := h.room
  guarded _ hc := by cases hc
  seated _ hc := by cases hc

variable [DecidableEq ρ]

/-- Scopes do not know registries. -/
theorem readCall_boundTo (g : Grammar ρ) (bound : Option RegistryId) (depth : Nat) :
    (g.boundTo bound).readCall id depth = g.readCall id depth := by
  induction depth with
  | zero => rfl
  | succ depth ih =>
    funext scope r s
    rw [readCall, readCall, ih]
    unfold readRule
    simp only [boundTo]
    cases (g.rule r).guard <;> rfl

/-- Where no call is misled, an application comes out as the evaluation by scopes, unless a
trace stops it. -/
theorem BoundIn.apply_reads (h : g.BoundIn home session s) (hs : s.Dark) {parser : Parser ρ}
    (hp : parser.isCombinator = true)
    (hled : ∀ v places, g.LeadsInside ⟨g.nestingBound s.remaining, parser, s, session⟩ v places →
      ¬ g.Misleads v places) :
    (g.Traces home session ∧ (g.apply parser s session).1 = .error (.fault .unwritableInteger)) ∨
      readOff (g.apply parser s session).1 =
        (g.read id (g.nestingBound s.remaining) parser s.point).outcome := by
  have hreads : h.bindings.ReadsAt ⟨g.nestingBound s.remaining, parser, s, session⟩
      (g.nestingBound s.remaining) parser :=
    Parser.eval_reads (Bindings.calls_readAt hled _) parser hp
  have hshows : s.Shows h.bindings.setting [] :=
    @Setting.start_shows ρ g h.combinators h.known 0 session s (g.nestingBound s.remaining) hs
  obtain ⟨result, σ', hrun, hresult⟩ := hreads .start h.agrees hshows
    (.start session s.remaining) le_rfl
  have happly : (g.apply parser s session).1 = result := congrArg Prod.fst hrun
  rw [happly]
  exact hresult.imp id fun hread => hread.2.2.1

omit [DecidableEq ρ] in
/-- It does not matter which registries the guards of a grammar use, as long as each of them
has room: an application comes out as with all guards on one registry, with no match, with the
same rest and value, or with the same fault. The exceptions are that a trace stops it, and that
a visit is misled, which calls a guarded rule that finds its flag set although no call of that
rule is unfinished there. -/
theorem apply_boundTo (h : g.BoundIn home session s) {bound : Option RegistryId}
    {single : RegistryId} {session' : Session} (h' : (g.boundTo bound).FreeAt single session' s)
    (hs : s.Dark) {parser : Parser ρ} (hp : parser.isCombinator = true) :
    readOff (g.apply parser s session).1 =
        readOff ((g.boundTo bound).apply parser s session').1 ∨
      (g.Traces home session ∧
        (g.apply parser s session).1 = .error (.fault .unwritableInteger)) ∨
      ∃ v places, g.LeadsInside ⟨g.nestingBound s.remaining, parser, s, session⟩ v places ∧
        g.Misleads v places := by
  classical
  obtain ⟨flags, hflags, hwide⟩ := h'.wide
  have hsingle : readOff ((g.boundTo bound).apply parser s session').1 =
      (g.read id (g.nestingBound s.remaining) parser s.point).outcome := by
    have hkey : (g.boundTo bound).KeysFit id :=
      keysFit_id (boundTo_namesApart h.apart bound) h'.lives.known
    rcases h'.lives.apply_reads hkey hs hp with hhindered | ⟨houtcome, -⟩
    · exact absurd hhindered (Session.not_hindered hflags hwide h'.quiet _)
    · rw [houtcome, read, readCall_boundTo, read]
      rfl
  by_cases hled : ∃ v places,
      g.LeadsInside ⟨g.nestingBound s.remaining, parser, s, session⟩ v places ∧ g.Misleads v places
  · exact .inr (.inr hled)
  · have hnone : ∀ v places,
        g.LeadsInside ⟨g.nestingBound s.remaining, parser, s, session⟩ v places →
        ¬ g.Misleads v places := fun v places hv hmisled => hled ⟨v, places, hv, hmisled⟩
    rcases h.apply_reads hs hp hnone with hstopped | heq
    · exact .inr (.inl hstopped)
    · exact .inl (heq.trans hsingle.symm)

end Grammar

/-- A rule that begins with another one, which is guarded in a registry of its own. -/
def borrowed : Grammar Bool :=
  .pair ⟨.ref true, some ⟨.text "A", some 0⟩⟩ ⟨.char 'a', some ⟨.text "B", some 1⟩⟩

/-- The registry of a rule. -/
def borrowedHome (r : Bool) : RegistryId := r.toNat

/-- A session with two registries. -/
def Session.pair : Session :=
  ⟨#[.empty .standard false, .empty .standard false], none, #[], #[], #[]⟩

/-- A cursor at the beginning of a letter. -/
def Cursor.letter : Cursor := .start ['a'] (.bare (.none .standard .null))

theorem borrowed_boundIn : borrowed.BoundIn borrowedHome .pair .letter where
  combinators r := by cases r <;> rfl
  apart := by
    intro r r' guard guard' hr hr' halike
    cases r <;> cases r' <;> cases hr <;> cases hr' <;> first | rfl | cases halike
  known {r _} hr := by cases r <;> cases hr <;> rfl
  hashable {r _} hr := by cases r <;> cases hr <;> rfl
  hosts {r _} hr := by cases r <;> cases hr <;> exact ⟨rfl, by decide⟩
  room id := by
    have hempty : Session.pair.registry id = .empty .standard false := by
      rcases id with _ | _ | id <;> rfl
    refine Grammar.hasRoom_of_le ?_
    rw [hempty]
    exact (by decide : (Registry.empty .standard false).size + 2 ≤ 64)
  wide := ⟨_, rfl, fun {r _} _ => by cases r <;> decide⟩

theorem borrowed_freeAt : (borrowed.boundTo (some 0)).FreeAt 0 .pair .letter where
  lives := {
    combinators := borrowed_boundIn.combinators
    known := Grammar.boundTo_namesKnown borrowed_boundIn.known _
    hashable := Grammar.boundTo_namesHashable borrowed_boundIn.hashable _
    hosts := by
      intro r guard hr
      cases r <;> cases hr <;> exact ⟨rfl, by decide⟩
    room := Grammar.hasRoom_of_le (by decide) }
  quiet := rfl
  wide := ⟨_, rfl, by decide⟩

/-- The letter is matched with one registry, but not with two. -/
theorem borrowed_apart :
    borrowed.BoundIn borrowedHome .pair .letter ∧
      (borrowed.boundTo (some 0)).FreeAt 0 .pair .letter ∧ Cursor.letter.Dark ∧
      (Parser.ref false : Parser Bool).isCombinator = true ∧
      readOff (borrowed.apply (.ref false) .letter .pair).1 = .ok none ∧
      readOff ((borrowed.boundTo (some 0)).apply (.ref false) .letter .pair).1 =
        .ok (some ⟨⟨[], ⟨1, 1, 2⟩⟩, .text "a"⟩) :=
  ⟨borrowed_boundIn, borrowed_freeAt, (Cursor.blank_start _ _).unset.dark, rfl, rfl, rfl⟩

/-- Where the letter is not matched, the second rule finds the flag of the first one set. -/
theorem borrowed_misleads :
    borrowed.BoundIn borrowedHome .pair .letter ∧
      (borrowed.boundTo (some 0)).FreeAt 0 .pair .letter ∧ Cursor.letter.Dark ∧
      (Parser.ref false : Parser Bool).isCombinator = true ∧
      ∃ v places, borrowed.LeadsInside
        ⟨borrowed.nestingBound 1, .ref false, .letter, .pair⟩ v places ∧
        borrowed.Misleads v places := by
  have hs : Cursor.letter.Dark := (Cursor.blank_start _ _).unset.dark
  have hp : (Parser.ref false : Parser Bool).isCombinator = true := rfl
  refine ⟨borrowed_boundIn, borrowed_freeAt, hs, hp, ?_⟩
  have hfails : (borrowed.apply (.ref false) .letter .pair).1 = .ok none := rfl
  have hmatches : readOff ((borrowed.boundTo (some 0)).apply (.ref false) .letter .pair).1 =
      .ok (some ⟨⟨[], ⟨1, 1, 2⟩⟩, .text "a"⟩) := rfl
  rcases Grammar.apply_boundTo borrowed_boundIn borrowed_freeAt hs hp with
    heq | ⟨-, hfault⟩ | hmisled
  · rw [hfails, hmatches] at heq
    cases heq
  · rw [hfails] at hfault
    cases hfault
  · exact hmisled

end SeedGrowth
