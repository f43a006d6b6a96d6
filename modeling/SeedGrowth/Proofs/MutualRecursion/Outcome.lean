import SeedGrowth.Proofs.LeftRecursion.Outcome
import SeedGrowth.Proofs.MutualRecursion.Reading

/-!
# Loops in the place of mutual recursion

A guarded rule that begins with another one, which begins with it again, comes out as the
loop that begins with the base of the inner rule and the tail of the outer one, or else with
the base of the outer one, and goes on by both tails. Where both ways to begin match, the one
could take over from the other. It does not matter whether the inner rule is guarded.
-/
namespace SeedGrowth

open LeftRule (reading apply_reading)

variable {ρ : Type}

theorem matched_of_readOff {result : Except Stop (Option Match)} {m : Found}
    (h : readOff result = .ok (some m)) : matched result = true := by
  cases result with
  | error stop => cases h
  | ok result =>
    cases result with
    | none => cases h
    | some m => rfl

namespace Relay

variable {outer inner : Relay ρ} {g : Grammar ρ} {r r' : ρ} {home : RegistryId}
  {session : Session} {s : Cursor}

theorem areCombinators_body {l : Relay ρ} {head : Parser ρ}
    (h : (l.body head).isCombinator = true) :
    l.tail.isCombinator = true ∧ l.base.isCombinator = true := by
  obtain ⟨hbranch, hrest⟩ := Bool.and_eq_true_iff.1 h
  have hrow : Parser.areCombinators [head, l.tail] = true := hbranch
  obtain ⟨-, htail⟩ := Bool.and_eq_true_iff.1 hrow
  exact ⟨(Bool.and_eq_true_iff.1 htail).1, (Bool.and_eq_true_iff.1 hrest).1⟩

theorem areCombinators_loop
    (houter : outer.tail.isCombinator = true ∧ outer.base.isCombinator = true)
    (hinner : inner.tail.isCombinator = true ∧ inner.base.isCombinator = true) :
    (loop outer inner).base.isCombinator = true ∧
      ∀ tail ∈ (loop outer inner).tails, tail.1.isCombinator = true := by
  constructor
  · simp [loop, body, Parser.isCombinator, Parser.areCombinators, houter, hinner]
  · intro tail ht
    rw [List.mem_singleton.1 ht]
    simp [Parser.isCombinator, Parser.areCombinators, houter, hinner]

/-- The base of the loop begins with a row, and stops where that does. -/
theorem loop_hindered (h : session.Hindered home s
      (g.apply (.sequence [inner.base, outer.tail]) s session).1) :
    session.Hindered home s ((loop outer inner).loop g s session).1 := by
  obtain ⟨fault, hfault, hhinders⟩ := h
  refine ⟨fault, ?_, hhinders⟩
  have hrow : g.apply (.sequence [inner.base, outer.tail]) s session =
      (.error (.fault fault), (g.apply (.sequence [inner.base, outer.tail]) s session).2) :=
    Prod.ext hfault rfl
  have hbase : ∃ after, g.apply (loop outer inner).base s session =
      (.error (.fault fault), after) :=
    ⟨_, Program.bind_error (Program.bind_error hrow _) _⟩
  obtain ⟨after, hbase⟩ := hbase
  rw [LeftRule.loop, Program.bind_error hbase]

variable [DecidableEq ρ]

/-- What calls neither rule asks for neither. -/
theorem avoids_of_neverCalls (h : g.LivesIn home session) {parser : Parser ρ}
    (hp : parser.isCombinator = true)
    (hcalls : g.NeverCalls home r parser ∧ g.NeverCalls home r' parser) :
    g.Avoids [r, r'] parser := by
  intro depth p a ha hkey
  have hfit : g.KeysFit g.namesake := Grammar.keysFit_namesake h.known
  obtain ⟨r'', hr'', hguarded, heq⟩ := hkey
  have hnever : g.NeverCalls home r'' parser := by
    rcases List.mem_cons.1 hr'' with rfl | hr''
    · exact hcalls.1
    · rw [List.mem_singleton.1 hr'']
      exact hcalls.2
  refine hnever.not_asked h hfit (Grammar.KeysFit.keyOf hfit hguarded) hp a.2 (?_ :
    (g.namesake r'', a.2) ∈ (g.read g.namesake depth parser p).asked)
  rw [heq]
  exact ha

/-- The tails and the bases of the two rules call neither of them. -/
def Aside (outer inner : Relay ρ) (g : Grammar ρ) (r r' : ρ) : Prop :=
  (g.Avoids [r, r'] outer.tail ∧ g.Avoids [r, r'] outer.base) ∧
    g.Avoids [r, r'] inner.tail ∧ g.Avoids [r, r'] inner.base

/-- The outer rule comes out as the loop does, or stops where its base does, unless something
is hindered. -/
theorem outer_apply_eq_loop (h : g.LivesIn home session) (hr : Mutual outer inner g r r')
    (haside : Aside outer inner g r r') (hchange : ∀ v, ∃ w, inner.change v = .ok w) (hs : s.Dark)
    (happart : ¬ (matched (g.apply (.sequence [inner.base, outer.tail]) s session).1 = true ∧
      matched (g.apply outer.base s session).1 = true)) :
    readOff (g.apply (.ref r) s session).1 =
        readOff ((loop outer inner).loop g s session).1 ∨
      (∃ stop, readOff (g.apply outer.base s session).1 = .error stop ∧
        readOff (g.apply (.ref r) s session).1 = .error stop) ∨
      session.Hindered home s (g.apply (.ref r) s session).1 ∨
      session.Hindered home s ((loop outer inner).loop g s session).1 ∨
      session.Hindered home s (g.apply outer.base s session).1 := by
  have houter := areCombinators_body (hr.outer_body ▸ h.combinators r)
  have hinner := areCombinators_body (hr.inner_body ▸ h.combinators r')
  have hcombinator : (Parser.ref r).isCombinator = true := rfl
  have hrow : (Parser.sequence [inner.base, outer.tail]).isCombinator = true := by
    simp [Parser.isCombinator, Parser.areCombinators, hinner, houter]
  rcases apply_reading h hs hcombinator with hhindered | hrule
  · exact .inr (.inr (.inl hhindered))
  rcases apply_reading h hs houter.2 with hhindered | hbase
  · exact .inr (.inr (.inr (.inr hhindered)))
  rcases apply_reading h hs hrow with hhindered | hrow
  · exact .inr (.inr (.inr (.inl (loop_hindered hhindered))))
  obtain ⟨hloopBase, hloopTails⟩ := areCombinators_loop houter hinner
  obtain ⟨result, after, hloop, -, hresult, -⟩ := LeftRule.loop_comesOut hloopBase False.elim
    (fun tail ht => ⟨hloopTails tail ht, False.elim⟩) h hs
  rw [hloop]
  rcases hresult with hhindered | hread
  · exact .inr (.inr (.inr (.inl hhindered)))
  have hsame := readBase_same fun m m' hm hm' =>
    happart ⟨matched_of_readOff (hrow.trans hm'), matched_of_readOff (hbase.trans hm)⟩
  rcases reading_eq_readLoop hr h.known haside.1 haside.2 hchange hsame with
    heq | ⟨stop, hstop, heq⟩
  · left
    calc
      readOff (g.apply (.ref r) s session).1 = reading g (.ref r) s.point := hrule
      _ = (loop outer inner).readLoop g s.point := heq
      _ = readOff result := hread.symm
  · exact .inr (.inl ⟨stop, hbase.trans hstop, hrule.trans heq⟩)

/-- The outer rule comes out in the same way if the inner one is not guarded, unless something
is hindered. -/
theorem outer_apply_unguarded (h : g.LivesIn home session) (hr : Mutual outer inner g r r')
    (haside : Aside outer inner g r r') (hs : s.Dark) :
    readOff ((g.unguarded r').apply (.ref r) s session).1 =
        readOff (g.apply (.ref r) s session).1 ∨
      session.Hindered home s ((g.unguarded r').apply (.ref r) s session).1 ∨
      session.Hindered home s (g.apply (.ref r) s session).1 := by
  by_cases hguarded : (g.rule r').guard.isSome = true
  · have hcombinator : (Parser.ref r).isCombinator = true := rfl
    rcases apply_reading h hs hcombinator with hhindered | hrule
    · exact .inr (.inr hhindered)
    rcases apply_reading (h.unguarded r') hs hcombinator with hhindered | hrule'
    · exact .inr (.inl hhindered)
    · left
      rw [hrule', reading_unguarded hr h.known hguarded haside.1 haside.2, hrule]
  · rw [Grammar.unguarded_of_plain (Option.not_isSome_iff_eq_none.1 hguarded)]
    exact .inl rfl

/-- Two rules that begin with one another come out as the loop does: with no match, with the
same rest and value, or with the same fault; or else the base of the outer rule stops, and the
rule does as well, unless something is hindered by what stands around the parsers. It does
not matter whether the inner rule is guarded. -/
theorem mutual_apply_eq_loop (h : g.LivesIn home session) (hr : Mutual outer inner g r r')
    (hcalls : ∀ parser ∈ [outer.tail, outer.base, inner.tail, inner.base],
      g.NeverCalls home r parser ∧ g.NeverCalls home r' parser)
    (hchange : ∀ v, ∃ w, inner.change v = .ok w) (hs : s.Unset)
    (happart : ¬ (matched (g.apply (.sequence [inner.base, outer.tail]) s session).1 = true ∧
      matched (g.apply outer.base s session).1 = true)) :
    (readOff (g.apply (.ref r) s session).1 =
        readOff ((loop outer inner).loop g s session).1 ∨
      (∃ stop, readOff (g.apply outer.base s session).1 = .error stop ∧
        readOff (g.apply (.ref r) s session).1 = .error stop) ∨
      session.Hindered home s (g.apply (.ref r) s session).1 ∨
      session.Hindered home s ((loop outer inner).loop g s session).1 ∨
      session.Hindered home s (g.apply outer.base s session).1) ∧
    (readOff ((g.unguarded r').apply (.ref r) s session).1 =
        readOff (g.apply (.ref r) s session).1 ∨
      session.Hindered home s ((g.unguarded r').apply (.ref r) s session).1 ∨
      session.Hindered home s (g.apply (.ref r) s session).1) := by
  obtain ⟨houterTail, houterBase⟩ := areCombinators_body (hr.outer_body ▸ h.combinators r)
  obtain ⟨hinnerTail, hinnerBase⟩ := areCombinators_body (hr.inner_body ▸ h.combinators r')
  have haside : Aside outer inner g r r' :=
    ⟨⟨avoids_of_neverCalls h houterTail (hcalls _ (by simp)),
      avoids_of_neverCalls h houterBase (hcalls _ (by simp))⟩,
      avoids_of_neverCalls h hinnerTail (hcalls _ (by simp)),
      avoids_of_neverCalls h hinnerBase (hcalls _ (by simp))⟩
  exact ⟨outer_apply_eq_loop h hr haside hchange hs.dark happart,
    outer_apply_unguarded h hr haside hs.dark⟩

end Relay

/-- A letter behind the other rule, or else the base. -/
def outward (base : Parser ρ) (change : Value → Value) : Relay ρ where
  tail := .char 'A'
  base := base
  change v := .ok (change v)

/-- Another letter behind the other rule, or one of its own. -/
def inward : Relay ρ := ⟨.char 'C', .char 'D', .ok⟩

/-- The grammar of two rules that begin with one another. -/
def alternating (name name' : Value) (outer : Relay Bool) : Grammar Bool :=
  .pair ⟨outer.body (.ref true), some ⟨name, some 0⟩⟩
    ⟨inward.body (.ref false), some ⟨name', some 0⟩⟩

section

variable (name name' : Value) {base : Parser Bool} (change : Value → Value)

theorem alternating_ofCombinators (hb : base.isCombinator = true) :
    (alternating name name' (outward base change)).OfCombinators := by
  intro r
  cases r
  · simp [alternating, Grammar.pair, outward, Relay.body, Parser.isCombinator,
      Parser.areCombinators, Parser.char, hb]
  · rfl

theorem alternating_hosts (outer : Relay Bool) (registry : Registry) :
    (Session.alone registry).Hosts (alternating name name' outer) 0 := by
  intro r guard hr
  cases r <;> cases hr <;> exact ⟨rfl, Nat.one_pos⟩

end

/-- A cursor before four letters that follow one another. -/
def fourfold : Cursor := clearAt ['D', 'A', 'C', 'A']

/-- Two rules that begin with one another by the letters behind them. -/
def letters : Grammar Bool := alternating (.text "foo") (.text "bar") (outward (.char 'B') id)

theorem letters_livesIn : letters.LivesIn 0 .quiet where
  combinators := alternating_ofCombinators _ _ id rfl
  known {r guard} hr := by
    cases r <;> cases hr <;> rfl
  hashable {r guard} hr := by
    cases r <;> cases hr <;> rfl
  hosts := alternating_hosts _ _ _ _
  room := Grammar.hasRoom_of_le (by decide)

/-- What two rules that begin with one another read of four letters is grouped to the left,
also if the inner one is not guarded. -/
theorem apply_fourfold_eq_loop :
    letters.LivesIn 0 .quiet ∧
      Relay.Mutual (outward (.char 'B') id) inward letters false true ∧
      (∀ parser ∈ ([.char 'A', .char 'B', .char 'C', .char 'D'] : List (Parser Bool)),
        letters.NeverCalls 0 false parser ∧ letters.NeverCalls 0 true parser) ∧
      fourfold.Unset ∧ matched (letters.apply (.char 'B') fourfold .quiet).1 = false ∧
      readOff (letters.apply (.ref false) fourfold .quiet).1 = .ok (some ⟨⟨[], ⟨4, 1, 5⟩⟩,
        .tuple [.tuple [.tuple [.text "D", .text "A"], .text "C"], .text "A"]⟩) ∧
      readOff ((letters.unguarded true).apply (.ref false) fourfold .quiet).1 =
        readOff (letters.apply (.ref false) fourfold .quiet).1 := by
  have hr : Relay.Mutual (outward (.char 'B') id) inward letters false true := by
    refine ⟨rfl, rfl, rfl, ?_⟩
    rintro ⟨guard, guard', hguard, hguard', halike⟩
    cases hguard
    cases hguard'
    cases halike
  have hcalls : ∀ parser ∈ ([.char 'A', .char 'B', .char 'C', .char 'D'] : List (Parser Bool)),
      letters.NeverCalls 0 false parser ∧ letters.NeverCalls 0 true parser := by
    have hchar : ∀ c r, letters.NeverCalls 0 r (.char c) := fun c _ depth session s _ _ r' _ =>
      Grammar.char_not_called letters c depth session s r'
    intro parser hparser
    simp only [List.mem_cons, List.not_mem_nil, or_false] at hparser
    rcases hparser with rfl | rfl | rfl | rfl <;> exact ⟨hchar _ _, hchar _ _⟩
  have hs : fourfold.Unset := (Cursor.blank_start _ _).unset
  have hclear : ∀ result : Except Stop (Option Match), ¬ Session.quiet.Hindered 0 fourfold result :=
    Session.not_hindered rfl (by decide) rfl
  have hbase : readOff (letters.apply (.char 'B') fourfold .quiet).1 = .ok none := rfl
  have hnot : matched (letters.apply (.char 'B') fourfold .quiet).1 = false := by decide +kernel
  obtain ⟨hresult, hplain⟩ := Relay.mutual_apply_eq_loop letters_livesIn hr hcalls
    (fun v => ⟨v, rfl⟩) hs fun hboth => by
      have hmatched : matched (letters.apply (.char 'B') fourfold .quiet).1 = true := hboth.2
      rw [hnot] at hmatched
      cases hmatched
  refine ⟨letters_livesIn, hr, hcalls, hs, hnot, ?_, ?_⟩
  · rcases hresult with heq | ⟨stop, hstop, -⟩ | hhindered | hhindered | hhindered
    · rw [heq]
      rfl
    · have hstop' : readOff (letters.apply (.char 'B') fourfold .quiet).1 = .error stop := hstop
      rw [hbase] at hstop'
      cases hstop'
    all_goals exact absurd hhindered (hclear _)
  · rcases hplain with heq | hhindered | hhindered
    · exact heq
    all_goals exact absurd hhindered (hclear _)

/-- No run of the parser calls one of the rules. -/
def Grammar.Silent (g : Grammar ρ) (r r' : ρ) (parser : Parser ρ) : Prop :=
  ∀ depth session s position, ¬ (g.run depth parser s session).2.HasCalled r position ∧
    ¬ (g.run depth parser s session).2.HasCalled r' position

/-- The loop of two rules matches and the outer one does not, although the other parsers call
neither, not both ways to begin match, and what is made of values is not stopped by faults. -/
structure Relay.Departs (outer inner : Relay ρ) (g : Grammar ρ) (r r' : ρ) (home : RegistryId)
    (session : Session) (s : Cursor) : Prop where
  combinators : g.OfCombinators
  hosts : session.Hosts g home
  outer_body : (g.rule r).body = outer.body (.ref r')
  inner_body : (g.rule r').body = inner.body (.ref r)
  guarded : (g.rule r).guard.isSome = true ∧ (g.rule r').guard.isSome = true
  tails_silent : g.Silent r r' outer.tail ∧ g.Silent r r' inner.tail
  bases_silent : g.Silent r r' outer.base ∧ g.Silent r r' inner.base
  changes : ∀ v, (∃ w, outer.change v = .ok w) ∧ ∃ w, inner.change v = .ok w
  unset : s.Unset
  not_both : ¬ (matched (g.apply (.sequence [inner.base, outer.tail]) s session).1 = true ∧
    matched (g.apply outer.base s session).1 = true)
  loop_matched : matched ((loop outer inner).loop g s session).1 = true
  not_matched : matched (g.apply (.ref r) s session).1 = false

theorem char_silent (g : Grammar ρ) (r r' : ρ) (c : Char) : g.Silent r r' (.char c) :=
  fun depth session s position => ⟨g.char_not_called c depth session s r position,
    g.char_not_called c depth session s r' position⟩

theorem alternating_departs {name name' : Value} {base : Parser Bool} {change : Value → Value}
    {registry : Registry} {s : Cursor} (hb : base.isCombinator = true)
    (hsilent : (alternating name name' (outward base change)).Silent false true base)
    (hs : s.Unset)
    (hboth : ¬ (matched ((alternating name name' (outward base change)).apply
        (.sequence [.char 'D', .char 'A']) s (.alone registry)).1 = true ∧
      matched ((alternating name name' (outward base change)).apply base s
        (.alone registry)).1 = true))
    (hloop : matched ((Relay.loop (outward base change) inward).loop
      (alternating name name' (outward base change)) s (.alone registry)).1 = true)
    (hnot : matched ((alternating name name' (outward base change)).apply (.ref false) s
      (.alone registry)).1 = false) :
    Relay.Departs (outward base change) inward (alternating name name' (outward base change))
      false true 0 (.alone registry) s where
  combinators := alternating_ofCombinators name name' change hb
  hosts := alternating_hosts name name' _ registry
  outer_body := rfl
  inner_body := rfl
  guarded := ⟨rfl, rfl⟩
  tails_silent := ⟨char_silent _ _ _ 'A', char_silent _ _ _ 'C'⟩
  bases_silent := ⟨hsilent, char_silent _ _ _ 'D'⟩
  changes v := ⟨⟨change v, rfl⟩, v, rfl⟩
  unset := hs
  not_both := hboth
  loop_matched := hloop
  not_matched := hnot

/-- A letter that nothing can be made of. -/
def spoilt : Parser Bool := .mapped (.char 'D') fun _ => .error (.raised "spoilt")

theorem spoilt_silent (change : Value → Value) :
    (alternating (.text "foo") (.text "bar") (outward spoilt change)).Silent false true spoilt := by
  let kind (parser : Parser Bool) : Prop := parser = spoilt ∨ parser = .char 'D'
  have hstep : ∀ v v', (alternating (.text "foo") (.text "bar")
      (outward spoilt change)).Leads v v' → kind v.parser → kind v'.parser := by
    intro v v' hl hkind
    rcases hkind with hv | hv <;> cases hl <;> cases hv
    exact .inr rfl
  have hnot : ∀ r, ¬ kind (.ref r) := by
    rintro r (h | h) <;> cases h
  have hg : (alternating (.text "foo") (.text "bar") (outward spoilt change)).OfCombinators :=
    alternating_ofCombinators _ _ change rfl
  intro depth session s position
  exact ⟨Grammar.not_called_of_leads hg hstep (hnot _) rfl (.inl rfl) depth session s position,
    Grammar.not_called_of_leads hg hstep (hnot _) rfl (.inl rfl) depth session s position⟩

/-- The base of the outer rule is guarded by its name. -/
def likeBase : Relay (Fin 2 ⊕ Unit) := ⟨.char 'A', .ref (.inr ()), .ok⟩

/-- Two rules and one more that shares the name of the outer one. -/
def shared : Grammar (Fin 2 ⊕ Unit) :=
  (Grammar.single (.char 'B') (some ⟨.text "foo", some 0⟩)).extend 2 fun
    | 0 => ⟨likeBase.body (.ref (.inl 1)), some ⟨.text "foo", some 0⟩⟩
    | 1 => ⟨inward.body (.ref (.inl 0)), some ⟨.text "bar", some 0⟩⟩

theorem shared_ofCombinators : shared.OfCombinators := by
  intro r
  match r with
  | .inl 0 => rfl
  | .inl 1 => rfl
  | .inr () => rfl

/-- The base calls itself alone. -/
theorem likeBase_silent : shared.Silent (.inl 0) (.inl 1) likeBase.base := by
  let kind (parser : Parser (Fin 2 ⊕ Unit)) : Prop := parser = .ref (.inr ()) ∨ parser = .char 'B'
  have hstep : ∀ v v', shared.Leads v v' → kind v.parser → kind v'.parser := by
    intro v v' hl hkind
    rcases hkind with hv | hv <;> cases hl <;> cases hv <;> exact .inr rfl
  have hnot : ∀ i, ¬ kind (.ref (.inl i)) := by
    rintro i (h | h) <;> cases h
  intro depth session s position
  exact ⟨Grammar.not_called_of_leads shared_ofCombinators hstep (hnot _) rfl (.inl rfl) depth
      session s position,
    Grammar.not_called_of_leads shared_ofCombinators hstep (hnot _) rfl (.inl rfl) depth
      session s position⟩

theorem likeBase_departs :
    Relay.Departs likeBase inward shared (.inl 0) (.inl 1) 0 .quiet (clearAt ['B']) where
  combinators := shared_ofCombinators
  hosts {r guard} hr := by
    match r with
    | .inl 0 => cases hr; exact ⟨rfl, Nat.one_pos⟩
    | .inl 1 => cases hr; exact ⟨rfl, Nat.one_pos⟩
    | .inr () => cases hr; exact ⟨rfl, Nat.one_pos⟩
  outer_body := rfl
  inner_body := rfl
  guarded := ⟨rfl, rfl⟩
  tails_silent := ⟨char_silent _ _ _ 'A', char_silent _ _ _ 'C'⟩
  bases_silent := ⟨likeBase_silent, char_silent _ _ _ 'D'⟩
  changes v := ⟨⟨v, rfl⟩, v, rfl⟩
  unset := (Cursor.blank_start _ _).unset
  not_both := by decide +kernel
  loop_matched := by decide +kernel
  not_matched := by decide +kernel

/-- The outer rule does stop where its base stops and is tried only after both tails have been.
What stands around the parsers does hinder it and not the loop: a cursor has fewer flags than
the registry or none at all, or a number is too long for a trace. So does its name, which has
no room in the registry, is not one, or is the name of the inner rule or of its base as well. -/
theorem mutual_recursion_departs :
    Relay.Departs (outward spoilt id) inward
        (alternating (.text "foo") (.text "bar") (outward spoilt id)) false true 0 .quiet
        (clearAt ['D', 'A', 'C']) ∧
      Relay.Departs (outward (.char 'B') id) inward letters false true 0 .crowded
        (clearAt ['B']) ∧
      Relay.Departs (outward (.char 'B') id) inward letters false true 0 .quiet
        (.start ['B'] .absent) ∧
      Relay.Departs (outward (.char 'B') fun _ => .int (10 ^ 4300)) inward
        (alternating (.text "foo") (.text "bar")
          (outward (.char 'B') fun _ => .int (10 ^ 4300))) false true 0 .traced
        (clearAt ['D', 'A']) ∧
      Relay.Departs (outward (.char 'B') id) inward letters false true 0 .full (clearAt ['B']) ∧
      Relay.Departs (outward (.char 'B') id) inward
        (alternating (.list []) (.text "bar") (outward (.char 'B') id)) false true 0 .quiet
        (clearAt ['B']) ∧
      Relay.Departs (outward (.char 'B') id) inward
        (alternating (.text "foo") (.text "foo") (outward (.char 'B') id)) false true 0 .quiet
        (clearAt ['D', 'A']) ∧
      Relay.Departs likeBase inward shared (.inl 0) (.inl 1) 0 .quiet (clearAt ['B']) := by
  have hs : ∀ text, (clearAt text).Unset := fun text => (Cursor.blank_start _ _).unset
  have habsent : (Cursor.start ['B'] .absent).Unset := fun _ => rfl
  have hchar := fun (g : Grammar Bool) => char_silent g false true 'B'
  refine ⟨alternating_departs rfl (spoilt_silent id) (hs _) ?_ ?_ ?_,
    alternating_departs rfl (hchar _) (hs _) ?_ ?_ ?_,
    alternating_departs rfl (hchar _) habsent ?_ ?_ ?_,
    alternating_departs rfl (hchar _) (hs _) ?_ ?_ ?_,
    alternating_departs rfl (hchar _) (hs _) ?_ ?_ ?_,
    alternating_departs rfl (hchar _) (hs _) ?_ ?_ ?_,
    alternating_departs rfl (hchar _) (hs _) ?_ ?_ ?_, likeBase_departs⟩
  all_goals decide +kernel

end SeedGrowth
