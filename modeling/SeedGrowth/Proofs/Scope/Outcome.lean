import SeedGrowth.Proofs.Calculator.Facts
import SeedGrowth.Proofs.Run.Erasure
import SeedGrowth.Proofs.Scope.Depth
import SeedGrowth.Proofs.Scope.Simulation

/-!
# Flags come to scopes

Flags, anchors and frames do what scopes do: whenever the evaluation by scopes ends, a
parser applied to a cursor without flags that are set ends in the same way, with the same
rest and value. The exceptions have to do with what stands around the parsers: cursors
that do not have the flags of the registry, and traces of numbers that are too long.
-/
namespace SeedGrowth

variable {ρ κ : Type}

/-- A fault that comes from around the parsers: the cursor has no flags at all, or not all
those that the registry gives to names, or the registry is traced and a number in the trace
is too long. -/
def Session.Hinders (session : Session) (home : RegistryId) (s : Cursor) (fault : Fault) : Prop :=
  s.payload.flags? = none ∧ fault = .flagless ∨
    (∃ flags flag, s.payload.flags? = some flags ∧ flags.capacity ≤ flag ∧
      flag < (session.registry home).capacity.size ∧ flags.check (.int flag) = .error fault) ∨
    (session.registry home).verbose = true ∧ fault = .unwritableInteger

/-- An evaluation stopped at a fault that comes from around the parsers. -/
def Session.Hindered {α : Type} (session : Session) (home : RegistryId) (s : Cursor)
    (result : Except Stop α) : Prop :=
  ∃ fault, result = .error (.fault fault) ∧ session.Hinders home s fault

/-- A cursor with all flags of a registry that is not traced has nothing in its way. -/
theorem Session.not_hindered {α : Type} {session : Session} {home : RegistryId} {s : Cursor}
    {flags : Flags Carried} (hf : s.payload.flags? = some flags)
    (hcapacity : (session.registry home).capacity.size ≤ flags.capacity)
    (hquiet : (session.registry home).verbose = false) (result : Except Stop α) :
    ¬ session.Hindered home s result := by
  intro h
  obtain ⟨fault, -, hnone | ⟨flags', flag, hf', hle, hlt, -⟩ | hverbose⟩ := h
  · rw [hf] at hnone
    cases hnone.1
  · rw [hf] at hf'
    cases hf'
    omega
  · rw [hquiet] at hverbose
    cases hverbose.1

/-- How an application ends, without what its cursor takes along. -/
def readOff (result : Except Stop (Option Match)) : Except Stop (Option Found) :=
  result.map (Option.map Match.found)

/-- The grammar is built by combinators, and the names of its guarded rules have room in one
registry of the session. -/
structure Grammar.LivesIn (g : Grammar ρ) (home : RegistryId) (session : Session) : Prop where
  combinators : g.OfCombinators
  known : g.NamesKnown
  hashable : g.NamesHashable
  hosts : session.Hosts g home
  room : g.HasRoom (session.registry home)

/-- The setting of the runs of a grammar that lives in a session. -/
def Grammar.LivesIn.setting {g : Grammar ρ} {home : RegistryId} {session : Session}
    (h : g.LivesIn home session) (s : Cursor) : Setting ρ :=
  .start g h.combinators h.known home session s (g.nestingBound s.remaining)

/-- With room in the registry, nothing else hinders a run. -/
theorem Grammar.LivesIn.hinders {g : Grammar ρ} {home : RegistryId} {session : Session}
    (h : g.LivesIn home session) {s : Cursor} {fault : Fault} (hf : (h.setting s).Hinders fault) :
    session.Hinders home s fault := by
  rcases hf with hroomy | hverbose | ⟨hwidth, rfl⟩ | ⟨flags, flag, hwidth, hle, hlt, hcheck⟩
  · exact absurd ⟨h.room, h.hashable⟩ hroomy
  · exact .inr (.inr hverbose)
  · exact .inl ⟨Option.map_eq_none_iff.1 hwidth, rfl⟩
  · obtain ⟨f, hf, hcapacity⟩ := Option.map_eq_some_iff.1 hwidth
    exact .inr (.inl ⟨f, flag, hf, hcapacity ▸ hle, hlt, flags.check_error_eq hle hcapacity hcheck⟩)

namespace Grammar

variable {key : ρ → κ} {g : Grammar ρ}

/-- An application comes out as a reading that calls of rules mirror, and the history of its
run tells of what is asked for there, unless it is hindered. -/
theorem LivesIn.apply_mirrors {told : Told key} {home : RegistryId} {session : Session}
    (h : g.LivesIn home session) {s : Cursor} (hs : s.Dark) {parser : Parser ρ}
    (hp : parser.isCombinator = true) {reading : Scope κ → ρ → Point → Account κ (Option Found)}
    (hreading : CallsMirror told (h.setting s) (g.nestingBound s.remaining)
      (g.followCall (g.nestingBound s.remaining)) reading) :
    session.Hindered home s (g.apply parser s session).1 ∨
      readOff (g.apply parser s session).1 =
        (parser.read (reading (.empty s.remaining)) s.point).outcome ∧
      Run.Records told ⟨session, [], []⟩ (g.run (g.nestingBound s.remaining) parser s session).2
        (parser.read (reading (.empty s.remaining)) s.point).asked := by
  obtain ⟨result, run, hrun, hresult⟩ := start_mirrors h.combinators h.known h.hosts hs
    (g.nestingBound s.remaining) hp hreading
  have hrun' : g.run (g.nestingBound s.remaining) parser s session = (result, run) := hrun
  have heq : (g.apply parser s session).1 = result := by
    have herase := (g.run_eq_eval (g.nestingBound s.remaining) parser s session).1
    rw [hrun'] at herase
    exact herase.symm
  rw [heq, hrun']
  rcases hresult with ⟨fault, hfault, hhinders⟩ | ⟨hrecords, houtcome⟩
  · exact .inl ⟨fault, hfault, h.hinders hhinders⟩
  · exact .inr ⟨houtcome, hrecords⟩

variable [DecidableEq κ]

/-- An application comes out as the evaluation by scopes of the same depth does, and its
run makes the calls that are made there, unless it is hindered. -/
theorem LivesIn.apply_reads {home : RegistryId} {session : Session} (h : g.LivesIn home session)
    (hkey : g.KeysFit key) {s : Cursor} (hs : s.Dark) {parser : Parser ρ}
    (hp : parser.isCombinator = true) :
    session.Hindered home s (g.apply parser s session).1 ∨
      readOff (g.apply parser s session).1 =
        (g.read key (g.nestingBound s.remaining) parser s.point).outcome ∧
      ∀ k position, (k, position) ∈ (g.read key (g.nestingBound s.remaining) parser s.point).asked →
        ∃ r, key r = k ∧
          (g.run (g.nestingBound s.remaining) parser s session).2.HasCalled r position := by
  have hcall : CallsMirror (Told.calls key) (h.setting s) (g.nestingBound s.remaining)
      (g.followCall (g.nestingBound s.remaining)) (g.readCall key (g.nestingBound s.remaining)) :=
    followCall_mirrors hkey _
  refine (h.apply_mirrors hs hp hcall).imp_right fun hreads => ⟨hreads.1, ?_⟩
  exact hreads.2.called

/-- An application comes out as an evaluation by scopes that ends does, at whatever depth,
unless it is hindered. -/
theorem LivesIn.apply_of_ends {home : RegistryId} {session : Session} (h : g.LivesIn home session)
    (hkey : g.KeysFit key) {s : Cursor} (hs : s.Dark) {parser : Parser ρ}
    (hp : parser.isCombinator = true) {depth : Nat}
    (hends : (g.read key depth parser s.point).Ends) :
    readOff (g.apply parser s session).1 = (g.read key depth parser s.point).outcome ∨
      session.Hindered home s (g.apply parser s session).1 := by
  have hdepth := read_eq_of_ends hends (g.callBound_le_nestingBound s.remaining)
  rcases h.apply_reads hkey hs hp with hhindered | ⟨houtcome, -⟩
  · exact .inr hhindered
  · left
    rw [houtcome, ← hdepth]

/-- Whenever the evaluation by scopes ends, an application of a grammar the names of which
are told apart ends in the same way: with no match, with the same rest and value, or with
the same fault; unless it is hindered by what stands around the parsers. -/
theorem apply_eq_read [DecidableEq ρ] {home : RegistryId} {session : Session}
    (h : g.LivesIn home session) (ha : g.NamesApart) {s : Cursor} (hs : s.Unset) {parser : Parser ρ}
    (hp : parser.isCombinator = true) {depth : Nat}
    (hends : (g.read id depth parser s.point).Ends) :
    readOff (g.apply parser s session).1 = (g.read id depth parser s.point).outcome ∨
      session.Hindered home s (g.apply parser s session).1 :=
  h.apply_of_ends (keysFit_id ha h.known) hs.dark hp hends

end Grammar

namespace Calculator

theorem livesIn : grammar.LivesIn 0 .empty :=
  ⟨ofCombinators, namesKnown, namesHashable, hosted, hasRoom⟩

/-- The evaluation of a sum by scopes, and what it says about the calculator. -/
theorem apply_sum_eq_read :
    grammar.LivesIn 0 .empty ∧ grammar.NamesApart ∧ sum.Unset ∧
      (Parser.ref Name.expr).isCombinator = true ∧
      (grammar.read id 9 (.ref .expr) sum.point).Ends ∧
      readOff (grammar.apply (.ref .expr) sum .empty).1 = .ok (some ⟨⟨[], ⟨3, 1, 4⟩⟩, .int 3⟩) := by
  have houtcome : (grammar.read id 9 (.ref .expr) sum.point).outcome =
      .ok (some ⟨⟨[], ⟨3, 1, 4⟩⟩, .int 3⟩) := rfl
  have hends := Account.ends_of_ok houtcome
  have hs : sum.Unset := (Cursor.blank_start _ _).unset
  refine ⟨livesIn, namesApart, hs, rfl, hends, ?_⟩
  rcases Grammar.apply_eq_read livesIn namesApart hs rfl hends with heq | hhindered
  · rw [heq, houtcome]
  · exact absurd hhindered (Session.not_hindered rfl (by decide) rfl _)

end Calculator

/-- The evaluation by scopes ends, and the application comes out otherwise. -/
def Grammar.Departs [DecidableEq ρ] (g : Grammar ρ) (home : RegistryId) (session : Session)
    (s : Cursor) (parser : Parser ρ) : Prop :=
  g.LivesIn home session ∧ g.NamesApart ∧ s.Unset ∧ parser.isCombinator = true ∧
    ∃ depth, (g.read id depth parser s.point).Ends ∧
      readOff (g.apply parser s session).1 ≠ (g.read id depth parser s.point).outcome

/-- A guarded rule for a letter that is worth a value. -/
def letter (v : Value) : Grammar Unit where
  rule _ := ⟨.mapped (.char 'a') fun _ => .ok v, some ⟨.text "letter", some 0⟩⟩
  names := [()]
  mem_names _ := List.mem_singleton_self _

/-- A session with one registry, which is not current. -/
def Session.alone (registry : Registry) : Session := ⟨#[registry], none, #[], #[], #[]⟩

/-- A session in which one word of flags has been given away and another has not. -/
def Session.crowded : Session :=
  alone ⟨Capacity.standard.doubled, false, 0, (List.range 64).map fun n => .int n⟩

/-- A session that is traced. -/
def Session.traced : Session := alone (.empty .standard true)

theorem letter_livesIn (v : Value) {registry : Registry}
    (h : registry.size < registry.capacity.size) : (letter v).LivesIn 0 (.alone registry) where
  combinators _ := rfl
  known hr := by cases hr; rfl
  hashable hr := by cases hr; rfl
  hosts hr := by cases hr; exact ⟨rfl, Nat.one_pos⟩
  room := Grammar.hasRoom_of_le h

/-- What stands around the parsers does hinder them: a cursor has fewer flags than the
registry or none at all, or a number is too long for a trace. -/
theorem letter_departs :
    (letter (.int 1)).Departs 0 .crowded (.start ['a'] (.bare (.none .standard .null))) (.ref ()) ∧
      (letter (.int 1)).Departs 0 .crowded (.start ['a'] .absent) (.ref ()) ∧
      (letter (.int (10 ^ 4300))).Departs 0 .traced
        (.start ['a'] (.bare (.none .standard .null))) (.ref ()) := by
  have hread : ∀ v payload,
      ((letter v).read id 1 (.ref ()) (Cursor.start ['a'] payload).point).outcome =
      .ok (some ⟨⟨[], ⟨1, 1, 2⟩⟩, v⟩) := fun _ _ => rfl
  have hdeparts : ∀ v session payload, (letter v).LivesIn 0 session →
      (Cursor.start ['a'] payload).Unset →
      (readOff ((letter v).apply (.ref ()) (Cursor.start ['a'] payload) session).1).isOk = false →
      (letter v).Departs 0 session (.start ['a'] payload) (.ref ()) := by
    intro v session payload h hs herror
    refine ⟨h, fun _ _ _ => rfl, hs, rfl, 1, Account.ends_of_ok (hread v payload), fun heq => ?_⟩
    rw [heq, hread] at herror
    cases herror
  refine ⟨hdeparts _ _ _ (letter_livesIn _ (by decide)) (Cursor.blank_start _ _).unset
    (by decide +kernel), hdeparts _ _ _ (letter_livesIn _ (by decide)) (fun _ => rfl)
    (by decide +kernel), hdeparts _ _ _ (letter_livesIn _ (by decide))
    (Cursor.blank_start _ _).unset (by decide +kernel)⟩

end SeedGrowth
