import Mathlib.Logic.Relation
import SeedGrowth.Proofs.Calculator.Facts
import SeedGrowth.Proofs.Run.Erasure
import SeedGrowth.Proofs.Run.Invariant

/-!
# How deep calls are nested

At one position a guarded rule is open once, and between guarded calls there is a chain of
plain rules of which each calls the next before it has read anything. If no such chain
comes back to a rule, the calls at one position are bounded by the number of rules, and
all open calls by that and the length of the text. So no evaluation runs out of depth.
-/
namespace SeedGrowth

variable {ρ : Type}

namespace Grammar

/-- In some run that begins with no flag set, a plain rule calls another one before it has
read anything. -/
def LeadsPlainly (g : Grammar ρ) (r r' : ρ) : Prop :=
  (g.rule r).guard = none ∧ (g.rule r').guard = none ∧
    ∃ (depth : Nat) (parser : Parser ρ) (s : Cursor) (home : RegistryId) (session : Session),
      parser.isCombinator = true ∧ s.Unset ∧ session.Hosts g home ∧
        ∃ m ∈ (g.run depth parser s session).2.moments, m.Leads r r'

/-- Every cycle of calls passes through a guarded rule or through a call that is reached
only after something has been read. -/
def NoBlindCycle (g : Grammar ρ) : Prop := ∀ r, ¬ Relation.TransGen g.LeadsPlainly r r

end Grammar

/-- How open calls are counted, seen from the last one: the guarded rules that are open at
its position, and the chain of plain rules since the last of them. -/
structure Stacked (S : Setting ρ) (leads : ρ → ρ → Prop) (calls : List (OpenCall ρ))
    (c : OpenCall ρ) (guards chain : List ρ) : Prop where
  guards_nodup : guards.Nodup
  guards_open : ∀ r ∈ guards, ∃ d ∈ calls, d.rule = r ∧ d.position = c.position ∧ d.seat.isSome
  chain_nodup : chain.Nodup
  chain_leads : ∀ r ∈ chain, c.seat = none ∧ (r = c.rule ∨ Relation.TransGen leads r c.rule)
  length_le : calls.length ≤
    (S.length - c.position) * ((S.grammar.names.length + 1) * (S.grammar.names.length + 1)) +
      guards.length * (S.grammar.names.length + 1) + chain.length

namespace Stacked

variable {S : Setting ρ} {leads : ρ → ρ → Prop} {calls : List (OpenCall ρ)} {c : OpenCall ρ}
  {guards chain : List ρ}

/-- All calls of one position fit into its share. -/
theorem length_lt (h : Stacked S leads calls c guards chain) :
    calls.length < (S.length - c.position + 1) *
      ((S.grammar.names.length + 1) * (S.grammar.names.length + 1)) := by
  have hshare := S.grammar.share_lt (S.grammar.length_le_names h.guards_nodup)
    (S.grammar.length_le_names h.chain_nodup)
  have hle := h.length_le
  rw [Nat.add_mul, Nat.one_mul]
  omega

/-- The first call at a position. -/
theorem fresh (hle : calls.length ≤ (S.length - c.position) *
      ((S.grammar.names.length + 1) * (S.grammar.names.length + 1))) :
    ∃ guards chain, Stacked S leads (c :: calls) c guards chain := by
  cases hseat : c.seat with
  | none =>
    refine ⟨[], [c.rule], List.nodup_nil, by simp, List.nodup_singleton _, ?_, ?_⟩
    · intro r hr
      exact ⟨hseat, .inl (List.mem_singleton.1 hr)⟩
    · simp only [List.length_cons, List.length_nil]
      omega
  | some seat =>
    refine ⟨[c.rule], [], List.nodup_singleton _, ?_, List.nodup_nil, by simp, ?_⟩
    · intro r hr
      exact ⟨c, List.mem_cons_self, (List.mem_singleton.1 hr).symm, rfl, by rw [hseat]; rfl⟩
    · simp only [List.length_cons, List.length_nil]
      omega

/-- A plain rule that is called where the last call began is another one than those of the
chain, because they lead to it. -/
theorem plain {d : OpenCall ρ} (h : Stacked S leads calls d guards chain)
    (hp : d.position = c.position) (hseat : c.seat = none)
    (hreach : ∀ r ∈ chain, Relation.TransGen leads r c.rule)
    (hacyclic : ∀ r, ¬ Relation.TransGen leads r r) :
    Stacked S leads (c :: calls) c guards (c.rule :: chain) := by
  have hcount := h.length_le
  refine ⟨h.guards_nodup, ?_, h.chain_nodup.cons fun hmem => hacyclic _ (hreach _ hmem), ?_, ?_⟩
  · intro r hr
    obtain ⟨e, he, hrule, hep, hsome⟩ := h.guards_open r hr
    exact ⟨e, List.mem_cons_of_mem _ he, hrule, hep.trans hp, hsome⟩
  · intro r hr
    refine ⟨hseat, ?_⟩
    rcases List.mem_cons.1 hr with rfl | hr
    · exact .inl rfl
    · exact .inr (hreach r hr)
  · rw [← hp]
    simp only [List.length_cons] at hcount ⊢
    omega

/-- A guarded rule that is called where the last call began ends the chain. -/
theorem guarded {d : OpenCall ρ} (h : Stacked S leads calls d guards chain)
    (hp : d.position = c.position) (hseat : c.seat.isSome = true) (hnew : c.rule ∉ guards) :
    Stacked S leads (c :: calls) c (c.rule :: guards) [] := by
  have hcount := h.length_le
  have hchain := S.grammar.length_le_names h.chain_nodup
  refine ⟨h.guards_nodup.cons hnew, ?_, List.nodup_nil, by simp, ?_⟩
  · intro r hr
    rcases List.mem_cons.1 hr with rfl | hr
    · exact ⟨c, List.mem_cons_self, rfl, rfl, hseat⟩
    · obtain ⟨e, he, hrule, hep, hsome⟩ := h.guards_open r hr
      exact ⟨e, List.mem_cons_of_mem _ he, hrule, hep.trans hp, hsome⟩
  · rw [← hp]
    simp only [List.length_cons, List.length_nil, Nat.add_mul, Nat.one_mul] at hcount ⊢
    omega

end Stacked

/-- Open calls are counted from the outermost to the last. -/
theorem Orderly.stacked {S : Setting ρ} {moments : List (Moment ρ)} {leads : ρ → ρ → Prop}
    (hleads : ∀ m ∈ moments, ∀ r r', (S.grammar.rule r).guard = none →
      (S.grammar.rule r').guard = none → m.Leads r r' → leads r r')
    (hacyclic : ∀ r, ¬ Relation.TransGen leads r r) :
    ∀ {c : OpenCall ρ} {calls : List (OpenCall ρ)}, Orderly S moments (c :: calls) →
      ∃ guards chain, Stacked S leads (c :: calls) c guards chain := by
  intro c calls
  induction calls generalizing c with
  | nil =>
    intro _
    exact Stacked.fresh (Nat.zero_le _)
  | cons d calls ih =>
    intro h
    obtain ⟨houter, -, hguard, hbehind, honce, hlink⟩ := h
    obtain ⟨-, hdlength, hdguard, -⟩ := id houter
    obtain ⟨guards, chain, hstacked⟩ := ih houter
    have hle : c.position ≤ d.position := hbehind d List.mem_cons_self
    rcases hle.lt_or_eq with hlt | heq
    · refine Stacked.fresh (hstacked.length_lt.le.trans ?_)
      exact Nat.mul_le_mul_right _ (by omega)
    · cases hseat : c.seat with
      | none =>
        refine ⟨guards, c.rule :: chain, hstacked.plain heq.symm hseat (fun r hr => ?_) hacyclic⟩
        obtain ⟨hdseat, hr⟩ := hstacked.chain_leads r hr
        obtain ⟨m, hm, hmleads⟩ := hlink d rfl heq.symm
        have hplain : (S.grammar.rule c.rule).guard = none := by
          rw [hseat] at hguard
          simpa using hguard.symm
        have hdplain : (S.grammar.rule d.rule).guard = none := by
          rw [hdseat] at hdguard
          simpa using hdguard.symm
        have hstep := hleads m hm d.rule c.rule hdplain hplain hmleads
        rcases hr with rfl | hr
        · exact .single hstep
        · exact .tail hr hstep
      | some seat =>
        have hsome : c.seat.isSome = true := by
          rw [hseat]
          rfl
        refine ⟨c.rule :: guards, [], hstacked.guarded heq.symm hsome fun hmem => ?_⟩
        obtain ⟨e, he, hrule, hp, hopen⟩ := hstacked.guards_open _ hmem
        rcases honce hsome e he (hp.trans heq.symm) with hne | hnone
        · exact hne hrule
        · rw [hnone] at hopen
          cases hopen

/-- Open calls are fewer than the bound on how deep they may be nested. -/
theorem Orderly.length_lt {S : Setting ρ} {moments : List (Moment ρ)} (leads : ρ → ρ → Prop)
    (hleads : ∀ m ∈ moments, ∀ r r', (S.grammar.rule r).guard = none →
      (S.grammar.rule r').guard = none → m.Leads r r' → leads r r')
    (hacyclic : ∀ r, ¬ Relation.TransGen leads r r) {calls : List (OpenCall ρ)}
    (h : Orderly S moments calls) : calls.length < S.grammar.nestingBound S.length := by
  refine lt_of_lt_of_le ?_ (S.grammar.callBound_le_nestingBound S.length)
  cases calls with
  | nil => exact Nat.mul_pos (Nat.succ_pos _) (Nat.mul_pos (Nat.succ_pos _) (Nat.succ_pos _))
  | cons c calls =>
    obtain ⟨guards, chain, hstacked⟩ := h.stacked hleads hacyclic
    exact hstacked.length_lt.trans_le (Nat.mul_le_mul_right _ (by omega))

namespace Grammar

variable {g : Grammar ρ}

/-- An evaluation ends if the plain rules that call one another in its run before they have
read anything do not come back to a rule. -/
theorem apply_ends_of_run (hg : g.OfCombinators) (hk : g.NamesKnown) {home : RegistryId}
    {session : Session} (hh : session.Hosts g home) {s : Cursor} (hs : s.Dark) {parser : Parser ρ}
    (hp : parser.isCombinator = true) (leads : ρ → ρ → Prop)
    (hleads : ∀ m ∈ (g.run (g.nestingBound s.remaining) parser s session).2.moments, ∀ r r',
      (g.rule r).guard = none → (g.rule r').guard = none → m.Leads r r' → leads r r')
    (hacyclic : ∀ r, ¬ Relation.TransGen leads r r) :
    (g.apply parser s session).1 ≠ .error .exhausted := by
  intro hexhausted
  obtain ⟨result, run, hrun, hkept, hdeep, -⟩ :=
    run_yields hg hk hh hs (g.nestingBound s.remaining) hp
  have hrun' : g.run (g.nestingBound s.remaining) parser s session = (result, run) := hrun
  have hresult : result = (g.apply parser s session).1 := by
    have heq := (g.run_eq_eval (g.nestingBound s.remaining) parser s session).1
    rw [hrun'] at heq
    exact heq
  rw [hrun'] at hleads
  obtain ⟨m, hm, hle⟩ := hdeep (hresult.trans hexhausted)
  obtain ⟨horderly, -⟩ := hkept.sound.moments m hm
  exact absurd (horderly.length_lt leads hleads hacyclic) (Nat.not_lt.2 hle)

/-- Every evaluation ends: with a match, without one or with a fault. -/
theorem apply_ends (hg : g.OfCombinators) (hk : g.NamesKnown) (hc : g.NoBlindCycle)
    {home : RegistryId} {session : Session} (hh : session.Hosts g home) {s : Cursor}
    (hs : s.Unset) (parser : Parser ρ) (hp : parser.isCombinator = true) :
    (g.apply parser s session).1 ≠ .error .exhausted := by
  refine apply_ends_of_run hg hk hh hs.dark hp g.LeadsPlainly ?_ hc
  intro m hm r r' hr hr' hleads
  exact ⟨hr, hr', g.nestingBound s.remaining, parser, s, home, session, hp, hs, hh, m, hm, hleads⟩

/-- What a rule calls before it has read anything can be read off its body. -/
theorem LeadsPlainly.mem_heads (hg : g.OfCombinators) (hk : g.NamesKnown) {r r' : ρ}
    (h : g.LeadsPlainly r r') : r' ∈ (g.rule r).body.heads := by
  obtain ⟨-, -, depth, parser, s, home, session, hp, hs, hh, m, hm, hleads⟩ := h
  obtain ⟨result, run, hrun, hkept, -⟩ := run_yields hg hk hh hs.dark depth hp
  rw [Grammar.run, hrun] at hm
  obtain ⟨-, hsound⟩ := hkept.sound.moments m hm
  obtain ⟨s', seat, outer, hhappening, hcalls⟩ := hleads
  rw [hhappening] at hsound
  refine hsound.2 ⟨r, s'.remaining, seat⟩ ?_ rfl List.mem_cons_self
  rw [hcalls]
  rfl

/-- There is no blind cycle if the bodies of plain rules do not show one. -/
theorem noBlindCycle_of_heads (hg : g.OfCombinators) (hk : g.NamesKnown)
    (h : ∀ r, ¬ Relation.TransGen (fun r r' => (g.rule r).guard = none ∧
      (g.rule r').guard = none ∧ r' ∈ (g.rule r).body.heads) r r) : g.NoBlindCycle := by
  intro r hr
  refine h r (Relation.TransGen.mono ?_ r r hr)
  intro r₁ r₂ hleads
  exact ⟨hleads.1, hleads.2.1, hleads.mem_heads hg hk⟩

end Grammar

namespace Calculator

/-- Factors are plain, but no factor calls another one before it has read a sign. -/
theorem noBlindCycle : grammar.NoBlindCycle := by
  refine Grammar.noBlindCycle_of_heads ofCombinators namesKnown fun r hr => ?_
  obtain ⟨r', ⟨hplain, -, hmem⟩, -⟩ := Relation.TransGen.head'_iff.1 hr
  cases r with
  | factor => cases hmem
  | expr => cases hplain
  | term => cases hplain

/-- The calculator's evaluation of a sum ends. -/
theorem apply_sum_ends :
    grammar.OfCombinators ∧ grammar.NamesKnown ∧ grammar.NoBlindCycle ∧
      Session.empty.Hosts grammar 0 ∧ sum.Unset ∧ (Parser.ref Name.expr).isCombinator = true ∧
      (grammar.apply (.ref .expr) sum .empty).1 ≠ .error .exhausted := by
  have hs : sum.Unset := (Cursor.blank_start _ _).unset
  exact ⟨ofCombinators, namesKnown, noBlindCycle, hosted, hs, rfl,
    Grammar.apply_ends ofCombinators namesKnown noBlindCycle hosted hs (.ref .expr) rfl⟩

end Calculator

end SeedGrowth
