import SeedGrowth.Proofs.LeftRecursion.Reading
import SeedGrowth.Proofs.Visit.History

/-!
# What runs of a parser do not call

That a parser never calls a rule is said of all its runs from cursors without flags that are
set. What is read at a point is what a run comes to that has nothing in its way there, from a
clean cursor in a session that is not traced. So a reading does not ask for rules that are
never called, and it does not depend on the keys by which rules are told apart.
-/
namespace SeedGrowth

open LeftRule (reading)

variable {ρ κ : Type} {g : Grammar ρ} {home : RegistryId} {session : Session} {r : ρ}
  {parser : Parser ρ}

/-- A cursor at a point, none of the flags of which is set. -/
def Point.clean (p : Point) (capacity : Capacity) : Cursor :=
  ⟨p.fragment, p.place, .bare (.none capacity .null)⟩

theorem Point.unset_clean (p : Point) (capacity : Capacity) : (p.clean capacity).Unset :=
  fun i => Flags.mem_none capacity Carried.null i

/-- The session with a registry that is not traced. -/
def Session.muted (session : Session) (home : RegistryId) : Session :=
  session.modifyRegistry home fun registry => { registry with verbose := false }

theorem Session.registry_muted (session : Session) (home : RegistryId) :
    ((session.muted home).registry home).capacity = (session.registry home).capacity ∧
      ((session.muted home).registry home).verbose = false := by
  rw [muted, registry_modifyRegistry_eq]
  by_cases h : home < session.registries.size
  · rw [if_pos ⟨rfl, h⟩]
    exact ⟨rfl, rfl⟩
  · rw [if_neg fun hlt => h hlt.2]
    refine ⟨rfl, ?_⟩
    rw [registry, Array.getD_eq_getD_getElem?, Array.getElem?_eq_none (Nat.le_of_not_lt h)]
    rfl

/-- A match is read at the point or further on. -/
theorem LeftRule.reading_ahead [DecidableEq ρ] {s : Point} {m : Found}
    (h : reading g parser s = .ok (some m)) : m.rest.Ahead s := by
  have hcalls : ∀ r s', s'.Ahead s → Account.ExtendedBy (fun _ => True)
      (g.readCall g.namesake (g.nestingBound s.remaining) (.empty s.remaining) r s')
      (g.readCall g.namesake (g.nestingBound s.remaining) (.empty s.remaining) r s')
      (FoundAhead s') :=
    fun r s' _ => g.readCall_extended _ le_rfl (.refl _) (Scope.advancing_empty _) r s'
  exact (Parser.read_extended hcalls parser s (.refl s) (Account.ends_of_ok h)
    fun _ _ => trivial).2 _ h m rfl

namespace Grammar

/-- A run with nothing in its way. -/
theorem LivesIn.muted (h : g.LivesIn home session) : g.LivesIn home (session.muted home) where
  combinators := h.combinators
  known := h.known
  hashable := h.hashable
  hosts hr := (h.hosts hr).modifyRegistry home _
  room := by
    rw [Session.muted, Session.registry_modifyRegistry_eq]
    split
    · exact h.room
    · exact h.room

theorem not_hindered_clean {α : Type} (session : Session) (home : RegistryId) (p : Point)
    (result : Except Stop α) : ¬ (session.muted home).Hindered home
      (p.clean (session.registry home).capacity) result := by
  obtain ⟨hcapacity, hquiet⟩ := session.registry_muted home
  refine Session.not_hindered rfl ?_ hquiet result
  rw [hcapacity, Flags.capacity_none]

/-- What is read at a point is what a run from a clean cursor comes to, and the run calls
what is asked for. -/
theorem LivesIn.read_clean [DecidableEq κ] {key : ρ → κ} (h : g.LivesIn home session)
    (hkey : g.KeysFit key) (hp : parser.isCombinator = true) (depth : Nat) (p : Point) :
    ∃ result run, g.run depth parser (p.clean (session.registry home).capacity)
        (session.muted home) = (result, run) ∧
      readOff result = (g.read key depth parser p).outcome ∧
      ∀ k position, (k, position) ∈ (g.read key depth parser p).asked →
        ∃ r, key r = k ∧ run.HasCalled r position := by
  have hclean := (p.unset_clean (session.registry home).capacity).dark
  obtain ⟨result, run, hrun, hresult⟩ :=
    run_mirrors h.combinators h.known h.muted.hosts hclean depth hp (.calls key) hkey
  rcases hresult with ⟨fault, hfault, hhinders⟩ | ⟨hrecords, houtcome⟩
  · exact absurd ⟨fault, hfault, h.muted.hinders hhinders⟩
      (not_hindered_clean session home p result)
  · exact ⟨result, run, hrun, houtcome, hrecords.called⟩

/-- The rule is the other one, or of the same name. -/
def Shares (g : Grammar ρ) (r r' : ρ) : Prop := r' = r ∨ g.Namesakes r r'

/-- Neither the rule nor one of its name is called in a run of the parser, however deep calls
may be nested. -/
def NeverCalls (g : Grammar ρ) (home : RegistryId) (r : ρ) (parser : Parser ρ) : Prop :=
  ∀ (depth : Nat) (session : Session) (s : Cursor), g.LivesIn home session → s.Unset →
    ∀ r', g.Shares r r' → ∀ position,
      ¬ (g.run depth parser s session).2.HasCalled r' position

/-- Neither the rule nor one of its name is called where a run of the parser begins. -/
def NeverBegins (g : Grammar ρ) (home : RegistryId) (r : ρ) (parser : Parser ρ) : Prop :=
  ∀ (depth : Nat) (session : Session) (s : Cursor), g.LivesIn home session → s.Unset →
    ∀ r', g.Shares r r' → ¬ (g.run depth parser s session).2.HasCalled r' s.remaining

/-- A key that a rule shares with those of its name alone. -/
def KeyOf (key : ρ → κ) (g : Grammar ρ) (r : ρ) : Prop := ∀ r', key r' = key r → g.Shares r r'

/-- A rule is not called by a parser if all that the parser leads to is of a kind that the
rule is not of. -/
theorem not_called_of_leads (hg : g.OfCombinators) {kind : Parser ρ → Prop}
    (hstep : ∀ v v', g.Leads v v' → kind v.parser → kind v'.parser) (hr : ¬ kind (.ref r))
    (hp : parser.isCombinator = true) (hkind : kind parser) (depth : Nat) (session : Session)
    (s : Cursor) (position : Nat) : ¬ (g.run depth parser s session).2.HasCalled r position := by
  rintro ⟨m, hm, s', hhappening, -⟩
  obtain ⟨v, hreached, hparser, -⟩ := g.run_visits hg depth hp s session hm hhappening
  have hvisited : kind v.parser := by
    clear hparser
    induction hreached with
    | refl => exact hkind
    | tail _ hl ih => exact hstep _ _ hl ih
  rw [hparser] at hvisited
  exact hr hvisited

/-- No rule is called for a character. -/
theorem char_not_called (g : Grammar ρ) (c : Char) (depth : Nat) (session : Session) (s : Cursor)
    (r : ρ) (position : Nat) :
    ¬ (g.run depth (.char c) s session).2.HasCalled r position := by
  rintro ⟨m, hm, s', hhappening, -⟩
  rcases List.mem_singleton.1 hm with rfl
  cases hhappening

variable {key : ρ → κ}

/-- A guarded rule has a key of its own if keys fit. -/
theorem KeysFit.keyOf (h : g.KeysFit key) (hr : (g.rule r).guard.isSome = true) : g.KeyOf key r :=
  fun r' hr' => .inr ((h hr r').1 hr'.symm)

variable [DecidableEq κ] {depth : Nat} {p : Point}

/-- What is never called is not asked for. -/
theorem NeverCalls.not_asked (h : g.NeverCalls home r parser) (hlives : g.LivesIn home session)
    (hkey : g.KeysFit key) (hr : g.KeyOf key r) (hp : parser.isCombinator = true) (position : Nat) :
    (key r, position) ∉ (g.read key depth parser p).asked := by
  intro hasked
  obtain ⟨result, run, hrun, -, hcalled⟩ := hlives.read_clean hkey hp depth p
  obtain ⟨r', hr', hcalled⟩ := hcalled _ _ hasked
  have hnot := h depth _ _ hlives.muted (p.unset_clean (session.registry home).capacity) r'
    (hr r' hr') position
  rw [hrun] at hnot
  exact hnot hcalled

/-- What is never called where a parser begins is not asked for there. -/
theorem NeverBegins.not_asked (h : g.NeverBegins home r parser) (hlives : g.LivesIn home session)
    (hkey : g.KeysFit key) (hr : g.KeyOf key r) (hp : parser.isCombinator = true) :
    (key r, p.remaining) ∉ (g.read key depth parser p).asked := by
  intro hasked
  obtain ⟨result, run, hrun, -, hcalled⟩ := hlives.read_clean hkey hp depth p
  obtain ⟨r', hr', hcalled⟩ := hcalled _ _ hasked
  have hnot := h depth _ _ hlives.muted (p.unset_clean (session.registry home).capacity) r'
    (hr r' hr')
  rw [hrun] at hnot
  exact hnot hcalled

/-- There is room for a call around the deepest ones. -/
theorem callBound_lt_nestingBound (g : Grammar ρ) (length : Nat) :
    0 < g.callBound length ∧ g.callBound length < g.nestingBound length := by
  have hpos : 0 < g.callBound length :=
    Nat.mul_pos (Nat.succ_pos _) (Nat.mul_pos (Nat.succ_pos _) (Nat.succ_pos _))
  have heq : g.nestingBound length = g.callBound length * wordSize := by
    unfold callBound nestingBound
    rw [Nat.mul_assoc (length + 1)]
  refine ⟨hpos, ?_⟩
  rw [heq]
  exact (Nat.lt_mul_iff_one_lt_right hpos).2 (by decide)

end Grammar

end SeedGrowth
