import SeedGrowth.Proofs.Scope.Outcome

/-!
# Loops in the place of left recursion

A left-recursive rule begins with itself, followed by one of its tails, or else with its
base. The loop that it stands for applies the base once, and from then on the first tail
that matches, as long as there is more to read. The loop is a program that applies parsers
one after the other, and it has a reading by scopes, as parsers have.
-/
namespace SeedGrowth

variable {ρ α β α' β' : Type}

/-- A parser for what follows, and what is made of the value so far and its value. -/
abbrev Tail (ρ : Type) : Type := Parser ρ × (Value → Except Fault Value)

/-- What a left-recursive rule begins with and what it goes on with. -/
structure LeftRule (ρ : Type) where
  base : Parser ρ
  tails : List (Tail ρ)

namespace LeftRule

/-- The branches in which the rule calls itself. -/
def branches (l : LeftRule ρ) (r : ρ) : List (Parser ρ) :=
  l.tails.map fun (tail, change) => .mapped (.sequence [.ref r, tail]) change

/-- The body of the rule. -/
def body (l : LeftRule ρ) (r : ρ) : Parser ρ := .alt (l.branches r ++ [l.base])

/-- A guarded rule of the grammar has this form, with one tail at least. -/
structure Forms (l : LeftRule ρ) (g : Grammar ρ) (r : ρ) : Prop where
  body_eq : (g.rule r).body = l.body r
  guarded : (g.rule r).guard.isSome = true
  tails_ne_nil : l.tails ≠ []

/-- Goes on from a match by the first tail that matches behind it. -/
def applyTail (g : Grammar ρ) : List (Tail ρ) → Match → Eval (Option Match)
  | [], _ => return none
  | (tail, change) :: rest, m => do
    match ← g.apply tail m.rest with
    | none => applyTail g rest m
    | some t => return some ⟨t.rest, ← Eval.lift (change (.tuple [m.value, t.value]))⟩

/-- Goes on from a match by tails, as long as they take up text. -/
def applyTails (g : Grammar ρ) (tails : List (Tail ρ)) : Nat → Match → Eval Match
  | 0, _ => throw .exhausted
  | rounds + 1, m => do
    match ← applyTail g tails m with
    | none => return m
    | some m' =>
      if m'.rest.remaining < m.rest.remaining then applyTails g tails rounds m' else return m

/-- Begins with the base, which has to take up text, and goes on by tails. -/
def loop (l : LeftRule ρ) (g : Grammar ρ) (s : Cursor) : Eval (Option Match) := do
  match ← g.apply l.base s with
  | none => return none
  | some m =>
    if m.rest.remaining < s.remaining then
      return some (← applyTails g l.tails (m.rest.remaining + 1) m)
    else return none

section

variable [DecidableEq ρ]

/-- An application at a point, read by scopes that tell rules apart by their names. -/
def account (g : Grammar ρ) (parser : Parser ρ) (s : Point) : Account ρ (Option Found) :=
  g.read g.namesake (g.nestingBound s.remaining) parser s

/-- How an application at a point comes out by scopes. -/
def reading (g : Grammar ρ) (parser : Parser ρ) (s : Point) : Except Stop (Option Found) :=
  (account g parser s).outcome

/-- `applyTail`, read by scopes. -/
def readTail (g : Grammar ρ) : List (Tail ρ) → Found → Except Stop (Option Found)
  | [], _ => return none
  | (tail, change) :: rest, m => do
    match ← reading g tail m.rest with
    | none => readTail g rest m
    | some t => return some ⟨t.rest, ← (change (.tuple [m.value, t.value])).mapError .fault⟩

/-- `applyTails`, read by scopes. -/
def readTails (g : Grammar ρ) (tails : List (Tail ρ)) : Nat → Found → Except Stop Found
  | 0, _ => throw .exhausted
  | rounds + 1, m => do
    match ← readTail g tails m with
    | none => return m
    | some m' =>
      if m'.rest.remaining < m.rest.remaining then readTails g tails rounds m' else return m

/-- `loop`, read by scopes. -/
def readLoop (l : LeftRule ρ) (g : Grammar ρ) (s : Point) : Except Stop (Option Found) := do
  match ← reading g l.base s with
  | none => return none
  | some m =>
    if m.rest.remaining < s.remaining then
      return some (← readTails g l.tails (m.rest.remaining + 1) m)
    else return none

end

end LeftRule

/-- A cursor on which no open call is shown says nothing about the text ahead. -/
theorem Cursor.Shows.dark {S : Setting ρ} {s : Cursor} (h : s.Shows S []) : s.Dark := by
  intro p hp i
  cases hlit : s.lit p i with
  | false => rfl
  | true =>
    obtain ⟨c, hc, -⟩ := (h.lit_iff p hp i).1 hlit
    cases hc

/-- A session that applications from a cursor in a first session have led to. -/
structure Onward (g : Grammar ρ) (home : RegistryId) (first session : Session) : Prop where
  lives : g.LivesIn home session
  capacity_eq : (session.registry home).capacity = (first.registry home).capacity
  verbose_eq : (session.registry home).verbose = (first.registry home).verbose

/-- A cursor behind the first one, on which no open call is shown. -/
structure Cursor.Behind (first s : Cursor) : Prop where
  dark : s.Dark
  width_eq : s.width = first.width

/-- What hinders an application further on would have done so from the beginning. -/
theorem Session.Hindered.first {g : Grammar ρ} {home : RegistryId} {first session : Session}
    {start s : Cursor} {result : Except Stop α} (ho : Onward g home first session)
    (hb : start.Behind s) (h : session.Hindered home s result) :
    first.Hindered home start result := by
  obtain ⟨fault, hfault, hhinders⟩ := h
  refine ⟨fault, hfault, ?_⟩
  have hwidth := hb.width_eq
  unfold Cursor.width at hwidth
  unfold Hinders at hhinders ⊢
  rw [ho.capacity_eq, ho.verbose_eq] at hhinders
  rcases hhinders with ⟨hnone, rfl⟩ | ⟨flags, flag, hf, hle, hlt, hcheck⟩ | hverbose
  · rw [hnone] at hwidth
    exact .inl ⟨Option.map_eq_none_iff.1 hwidth.symm, rfl⟩
  · rw [hf] at hwidth
    obtain ⟨flags', hf', hcapacity⟩ := Option.map_eq_some_iff.1 hwidth.symm
    have hcheck' := flags.check_error_eq hle hcapacity hcheck
    exact .inr (.inl ⟨flags', flag, hf', hcapacity ▸ hle, hlt, hcheck'⟩)
  · exact .inr (.inr hverbose)

/-- The program comes out as is read by scopes unless it is hindered, does not run out of
depth if that is asked for, and leads to what is stated. -/
def ComesOut (ends : Prop) (home : RegistryId) (first : Session) (start : Cursor)
    (session : Session) (x : Eval α) (reading : Except Stop β) (view : α → β)
    (post : α → Session → Prop) : Prop :=
  ∃ result after, x session = (result, after) ∧ (ends → result ≠ .error .exhausted) ∧
    (first.Hindered home start result ∨ result.map view = reading) ∧
    ∀ a, result = .ok a → post a after

namespace ComesOut

variable {ends : Prop} {home : RegistryId} {first session : Session} {start : Cursor}

theorem pure {a : α} {b : β} {view : α → β} {post : α → Session → Prop} (h : view a = b)
    (hp : post a session) :
    ComesOut ends home first start session (Pure.pure a) (Pure.pure b) view post := by
  refine ⟨.ok a, session, rfl, ?_, .inr (congrArg Except.ok h), ?_⟩
  · intro _ he
    cases he
  · intro a' ha
    cases ha
    exact hp

theorem lift (x : Except Fault α) :
    ComesOut ends home first start session (Eval.lift x) (x.mapError .fault) id
      fun _ after => after = session := by
  refine ⟨x.mapError .fault, session, Eval.lift_apply x session, ?_, .inr ?_, fun _ _ => rfl⟩
  · cases x with
    | ok a =>
      intro _ he
      cases he
    | error fault =>
      intro _ he
      cases he
  · cases x <;> rfl

theorem bind {x : Eval α} {f : α → Eval α'} {reading : Except Stop β} {next : β → Except Stop β'}
    {view : α → β} {view' : α' → β'} {mid : α → Session → Prop} {post : α' → Session → Prop}
    (hx : ComesOut ends home first start session x reading view mid)
    (hf : ∀ a after, mid a after →
      ComesOut ends home first start after (f a) (next (view a)) view' post) :
    ComesOut ends home first start session (x >>= f) (reading >>= next) view' post := by
  obtain ⟨result, after, hrun, hends, hresult, hmid⟩ := hx
  cases result with
  | ok a =>
    obtain ⟨result', after', hrun', hends', hresult', hpost⟩ := hf a after (hmid a rfl)
    refine ⟨result', after', by rw [Program.bind_ok hrun, hrun'], hends', ?_, hpost⟩
    rcases hresult with ⟨fault, hfault, -⟩ | hreading
    · cases hfault
    · rw [← hreading]
      exact hresult'
  | error stop =>
    refine ⟨.error stop, after, Program.bind_error hrun f, ?_, ?_, ?_⟩
    · intro hasked he
      cases he
      exact hends hasked rfl
    · rcases hresult with ⟨fault, hfault, hhinders⟩ | hreading
      · cases hfault
        exact .inl ⟨fault, rfl, hhinders⟩
      · rw [← hreading]
        exact .inr rfl
    · intro a ha
      cases ha

end ComesOut

/-- The program does not run out of depth, comes out as is read by scopes unless it is
hindered, and leads to what is stated. -/
def ReadsAs (home : RegistryId) (first : Session) (start : Cursor) (session : Session)
    (x : Eval α) (reading : Except Stop β) (view : α → β) (post : α → Session → Prop) : Prop :=
  ∃ result after, x session = (result, after) ∧ result ≠ .error .exhausted ∧
    (first.Hindered home start result ∨ result.map view = reading) ∧
    ∀ a, result = .ok a → post a after

/-- A parser ends wherever no flag is set. -/
def Grammar.AlwaysEnds (g : Grammar ρ) (home : RegistryId) (parser : Parser ρ) : Prop :=
  ∀ (session : Session) (s : Cursor), session.Hosts g home → s.Dark →
    (g.apply parser s session).1 ≠ .error .exhausted

namespace LeftRule

variable [DecidableEq ρ] {g : Grammar ρ} {home : RegistryId} {first session : Session}
  {start : Cursor}

/-- The match, if there is one, is behind the first cursor, and not further back than a
position. -/
def FoundBehind (start : Cursor) (position : Nat) (result : Option Match) : Prop :=
  ∀ m, result = some m → start.Behind m.rest ∧ m.rest.remaining ≤ position

/-- Unless it is hindered, an application comes out as the parser is read where it begins. -/
theorem apply_reading (h : g.LivesIn home session) {s : Cursor} (hs : s.Dark) {parser : Parser ρ}
    (hp : parser.isCombinator = true) :
    session.Hindered home s (g.apply parser s session).1 ∨
      readOff (g.apply parser s session).1 = reading g parser s.point :=
  (h.apply_reads (Grammar.keysFit_namesake h.known) hs hp).imp_right And.left

variable {ends : Prop}

/-- An application is read by scopes. -/
theorem apply_comesOut (ho : Onward g home first session) {s : Cursor} (hs : start.Behind s)
    {parser : Parser ρ} (hp : parser.isCombinator = true)
    (hends : ends → g.AlwaysEnds home parser) :
    ComesOut ends home first start session (g.apply parser s) (reading g parser s.point)
      (Option.map Match.found) fun result after =>
        Onward g home first after ∧ FoundBehind start s.remaining result := by
  have hnot := fun hasked => hends hasked session s ho.lives.hosts hs.dark
  refine ⟨(g.apply parser s session).1, (g.apply parser s session).2, rfl, hnot, ?_, ?_⟩
  · exact (apply_reading ho.lives hs.dark hp).imp_left fun hhindered => hhindered.first ho hs
  · obtain ⟨result, run, hrun, hkept, -, htaken⟩ := Grammar.run_yields ho.lives.combinators
      ho.lives.known ho.lives.hosts hs.dark (g.nestingBound s.remaining) hp
    obtain ⟨hresult, hsession⟩ := g.run_eq_eval (g.nestingBound s.remaining) parser s session
    rw [Grammar.run, hrun] at hresult hsession
    have hlives : g.LivesIn home run.session := ⟨ho.lives.combinators, ho.lives.known,
      ho.lives.hashable, hkept.sound.hosts, hkept.sound.room ⟨ho.lives.room, ho.lives.hashable⟩⟩
    intro a ha
    have hafter : (g.apply parser s session).2 = run.session := hsession.symm
    have hok : result = .ok a := hresult.trans ha
    rw [hafter]
    refine ⟨⟨hlives, hkept.sound.capacity_eq.trans ho.capacity_eq,
      hkept.sound.verbose_eq.trans ho.verbose_eq⟩, fun m hm => ?_⟩
    obtain ⟨hshows, hle⟩ := (htaken a hok).shown m hm
    exact ⟨⟨hshows.dark, hshows.width_eq.trans hs.width_eq⟩, hle⟩

/-- The tails are combinators that end. -/
def TailsEnd (g : Grammar ρ) (home : RegistryId) (tails : List (Tail ρ)) : Prop :=
  ∀ tail ∈ tails, tail.1.isCombinator = true ∧ g.AlwaysEnds home tail.1

/-- The tails are combinators, and end if that is asked for. -/
def TailsComeOut (ends : Prop) (g : Grammar ρ) (home : RegistryId) (tails : List (Tail ρ)) : Prop :=
  ∀ tail ∈ tails, tail.1.isCombinator = true ∧ (ends → g.AlwaysEnds home tail.1)

/-- Going on by one tail is read by scopes. -/
theorem applyTail_comesOut {m : Match} (hm : start.Behind m.rest) :
    ∀ {tails : List (Tail ρ)} {session : Session}, TailsComeOut ends g home tails →
      Onward g home first session →
      ComesOut ends home first start session (applyTail g tails m) (readTail g tails m.found)
        (Option.map Match.found) fun result after =>
          Onward g home first after ∧ FoundBehind start m.rest.remaining result
  | [], session, _, ho => by
    refine .pure rfl ⟨ho, ?_⟩
    intro m' hm'
    cases hm'
  | (tail, change) :: rest, session, ht, ho => by
    obtain ⟨hp, hends⟩ := ht _ List.mem_cons_self
    rw [applyTail, readTail]
    refine .bind (apply_comesOut ho hm hp hends) ?_
    intro result after hafter
    obtain ⟨ho', hfound⟩ := hafter
    cases result with
    | none => exact applyTail_comesOut hm (fun tail ht' => ht tail (List.mem_cons_of_mem _ ht')) ho'
    | some t =>
      refine .bind (.lift (change (.tuple [m.value, t.value]))) ?_
      intro value after' hafter'
      rw [hafter']
      refine .pure rfl ⟨ho', ?_⟩
      intro m' hm'
      cases hm'
      exact hfound t rfl

/-- Going on by tails is read by scopes; rounds do not run out, because every further round
begins further on. -/
theorem applyTails_comesOut {tails : List (Tail ρ)} (ht : TailsComeOut ends g home tails) :
    ∀ (rounds : Nat) {m : Match} {session : Session}, start.Behind m.rest →
      m.rest.remaining < rounds → Onward g home first session →
      ComesOut ends home first start session (applyTails g tails rounds m)
        (readTails g tails rounds m.found) Match.found fun _ _ => True := by
  intro rounds
  induction rounds with
  | zero =>
    intro m session _ hlt _
    omega
  | succ rounds ih =>
    intro m session hm hlt ho
    rw [applyTails, readTails]
    refine .bind (applyTail_comesOut hm ht ho) ?_
    intro result after hafter
    obtain ⟨ho', hfound⟩ := hafter
    cases result with
    | none => exact .pure rfl trivial
    | some m' =>
      obtain ⟨hm', -⟩ := hfound m' rfl
      have hiff : m'.found.rest.remaining < m.found.rest.remaining ↔
          m'.rest.remaining < m.rest.remaining := Iff.rfl
      dsimp only [Option.map_some]
      by_cases hshorter : m'.rest.remaining < m.rest.remaining
      · rw [if_pos hshorter, if_pos (hiff.2 hshorter)]
        exact ih hm' (by omega) ho'
      · rw [if_neg hshorter, if_neg fun h => hshorter (hiff.1 h)]
        exact .pure rfl trivial

/-- The loop is read by scopes. -/
theorem loop_comesOut {l : LeftRule ρ} (hb : l.base.isCombinator = true)
    (hends : ends → g.AlwaysEnds home l.base) (ht : TailsComeOut ends g home l.tails)
    (h : g.LivesIn home session) (hs : start.Dark) :
    ComesOut ends home session start session (l.loop g start) (l.readLoop g start.point)
      (Option.map Match.found) fun _ _ => True := by
  rw [loop, readLoop]
  refine .bind (apply_comesOut ⟨h, rfl, rfl⟩ ⟨hs, rfl⟩ hb hends) ?_
  intro result after hafter
  obtain ⟨ho, hfound⟩ := hafter
  cases result with
  | none => exact .pure rfl trivial
  | some m =>
    obtain ⟨hm, -⟩ := hfound m rfl
    have hiff : m.found.rest.remaining < start.point.remaining ↔
        m.rest.remaining < start.remaining := Iff.rfl
    dsimp only [Option.map_some]
    by_cases hshorter : m.rest.remaining < start.remaining
    · rw [if_pos hshorter, if_pos (hiff.2 hshorter)]
      refine .bind (applyTails_comesOut ht _ hm (Nat.lt_succ_self _) ho) ?_
      intro last after' _
      exact .pure rfl trivial
    · rw [if_neg hshorter, if_neg fun h => hshorter (hiff.1 h)]
      exact .pure rfl trivial

/-- The loop ends if its base and its tails do. -/
theorem loop_readsAs {l : LeftRule ρ} (hb : l.base.isCombinator = true)
    (hends : g.AlwaysEnds home l.base) (ht : TailsEnd g home l.tails)
    (h : g.LivesIn home session) (hs : start.Dark) :
    ReadsAs home session start session (l.loop g start) (l.readLoop g start.point)
      (Option.map Match.found) fun _ _ => True := by
  obtain ⟨result, after, hloop, hnot, hrest⟩ := loop_comesOut hb (fun _ : True => hends)
    (fun tail htail => ⟨(ht tail htail).1, fun _ => (ht tail htail).2⟩) h hs
  exact ⟨result, after, hloop, hnot trivial, hrest⟩

end LeftRule

end SeedGrowth
