import SeedGrowth.Proofs.Calculator.Rules
import SeedGrowth.Proofs.Grammar.Parsing
import SeedGrowth.Proofs.Scope.Outcome

/-!
# The calculator comes to loops

Evaluated in a session that serves it, a new one for instance, a source has the value that
the loops come to, or stops at the same fault.
-/
namespace SeedGrowth

open Calculator

/-- The session serves the calculator with a registry, which may be the current one: the
registry is not traced, has room for the names of the rules, and its flags can be had. -/
structure Session.Serves (session : Session) (registry : Option RegistryId)
    (home : RegistryId) : Prop where
  uses : ∀ name, session.Uses home ⟨name, registry⟩
  quiet : (session.registry home).verbose = false
  room : grammar.HasRoom (session.registry home)
  flags : Flags.allocate (session.registry home).capacity Carried.null =
    .ok (.none (session.registry home).capacity .null)

/-- A new session serves the calculator. -/
theorem Session.serves_empty : Session.empty.Serves none 0 :=
  ⟨fun _ => .inr ⟨rfl, rfl⟩, rfl, hasRoom, rfl⟩

namespace Calculator

/-- An expression and the blanks after it are read as the loops say. -/
theorem read_start (s : Point) {size depth : Nat} (hsize : s.remaining < size)
    (hdepth : 3 * s.remaining + 3 ≤ depth) :
    (grammar.read id depth start s).outcome =
      asFound ((Meaning.values.expression size s).map
        (Option.map (Prod.map id Point.skipBlanks))) := by
  have hexpr := (readCall_eq_loops s hsize (.empty s.remaining) depth).2.2 hdepth
    (by rw [Scope.empty_movedTo]; rfl) (by rw [Scope.empty_movedTo]; rfl)
  rw [Grammar.read, start, Parser.outcome_mapped, Parser.outcome_sequence,
    Parser.outcome_readAll_cons, Parser.outcome_ref, hexpr]
  cases Meaning.values.expression size s with
  | error fault => rfl
  | ok result => cases result <;> rfl

/-- Applied at the beginning of a text, the calculator reads it as the loops say. -/
theorem apply_start {home : RegistryId} {session : Session} (h : grammar.LivesIn home session)
    (hquiet : (session.registry home).verbose = false) {capacity : Capacity}
    (hcapacity : (session.registry home).capacity = capacity) (text : List Char) {size : Nat}
    (hsize : text.length < size) :
    readOff (grammar.apply start (.start text (.bare (.none capacity .null))) session).1 =
      asFound ((Meaning.values.expression size ⟨text, .start⟩).map
        (Option.map (Prod.map id Point.skipBlanks))) := by
  let s := Cursor.start text (.bare (.none capacity .null))
  have hread := read_start s.point hsize le_rfl
  have hends : (grammar.read id (3 * s.point.remaining + 3) start s.point).Ends := by
    rw [Account.Ends, hread]
    exact asFound_ends _
  have hpoint : s.point = ⟨text, .start⟩ := rfl
  rw [← hpoint, ← hread]
  rcases h.apply_of_ends (Grammar.keysFit_id namesApart namesKnown)
    (Cursor.blank_start text capacity).unset.dark rfl hends with heq | hhindered
  · exact heq
  · refine absurd hhindered (Session.not_hindered rfl ?_ hquiet _)
    rw [Flags.capacity_none, hcapacity]

/-- What an application reads of a source decides its outcome as what the loops read does. -/
theorem outcome_of_read {source : String} {registry : Option RegistryId} {payload : Payload}
    {x : Except Stop (Option Match)}
    (hx : readOff x = asFound ((Meaning.values.expression (source.length + 1)
      ⟨source.toList, .start⟩).map (Option.map (Prod.map id Point.skipBlanks)))) :
    (x >>= fun result => (Request.outcome ⟨source, registry, true, unnamedFile⟩
        (.start source.toList payload) result).mapError .fault) =
      (Meaning.values.calculate source).mapError .fault := by
  rw [Meaning.calculate]
  dsimp only
  cases hresult : Meaning.values.expression (source.length + 1) ⟨source.toList, .start⟩ with
  | error fault =>
    rw [hresult] at hx
    rcases x with stop | m
    · cases hx
      rfl
    · cases hx
  | ok result =>
    rw [hresult] at hx
    rcases x with stop | m
    · cases result <;> cases hx
    · cases result with
      | none =>
        cases m with
        | none => rfl
        | some m => cases hx
      | some p =>
        obtain ⟨v, rest⟩ := p
        cases m with
        | none => cases hx
        | some m =>
          obtain ⟨⟨fragment, place, payload'⟩, value⟩ := m
          have hfound : (⟨⟨fragment, place⟩, value⟩ : Found) = ⟨rest.skipBlanks, v⟩ :=
            Option.some.inj (Except.ok.inj hx)
          obtain ⟨hrest, rfl⟩ := Found.mk.injEq .. ▸ hfound
          simp only [ok_bind]
          rw [← hrest]
          cases fragment <;> rfl

/-- In a session that serves the calculator, a source has the outcome of the loops. -/
theorem evaluate_of_serves {session : Session} {registry : Option RegistryId} {home : RegistryId}
    (h : session.Serves registry home) (source : String) :
    (evaluate source registry session).1 = (Meaning.values.calculate source).mapError .fault := by
  obtain ⟨σ, hor, -, hlt, hregistry, -⟩ := Eval.registryOr_spec (h.uses .null)
  have hsame : ({ σ with current := some home } : Session).registry home =
      session.registry home := hregistry
  have hlives : grammar.LivesIn home { σ with current := some home } := by
    refine ⟨ofCombinators, namesKnown, namesHashable, ?_, hsame ▸ h.room⟩
    intro r guard hr
    cases r <;> cases hr <;> exact .inl ⟨rfl, hlt⟩
  have hlength : source.toList.length < source.length + 1 :=
    Nat.lt_succ_of_le String.length_toList.le
  have happly := apply_start hlives (hsame ▸ h.quiet) rfl source.toList hlength
  rw [hsame] at happly
  have hparse := grammar.parse_outcome start ⟨source, registry, true, unnamedFile⟩
    hor (hregistry ▸ h.flags)
  rw [evaluate, hparse, hregistry]
  exact outcome_of_read happly

/-- For every source, the calculator has the outcome of the loops: the same value, the same
fault of the arithmetic or of a number, or the same report of where the source does not
match; in a new session, and in every session that serves it. -/
theorem evaluate_eq_calculate (source : String) :
    (evaluate source none .empty).1 = (Meaning.values.calculate source).mapError .fault ∧
      ∀ (session : Session) (registry : Option RegistryId) (home : RegistryId),
        session.Serves registry home →
        (evaluate source registry session).1 =
          (Meaning.values.calculate source).mapError .fault :=
  ⟨evaluate_of_serves Session.serves_empty source, fun _ _ _ h => evaluate_of_serves h source⟩

/-- A source with operations of both ranks, in a new session. -/
theorem evaluate_new_eq_calculate :
    Session.empty.Serves none 0 ∧
      (evaluate " 7 - 2*-3 - 1 " none .empty).1 = .ok (.int 12) := by
  refine ⟨Session.serves_empty, ?_⟩
  rw [(evaluate_eq_calculate _).2 .empty none 0 Session.serves_empty]
  rfl

end Calculator

end SeedGrowth
