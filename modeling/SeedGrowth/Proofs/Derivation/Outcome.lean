import SeedGrowth.Proofs.Context.Outcome
import SeedGrowth.Proofs.Derivation.Reading

/-!
# Every match is a derivation

Whatever a parser matches is derived from it, with the value that it returns. The match may
have come about in many rounds, each of which takes up the best result of the one before at
a position where several rules can be growing; in the end it is put together as if the rules
had been read without any order, and no text is lost, doubled or moved.
-/
namespace SeedGrowth

variable {ρ : Type}

/-- A match is the value of a derivation, which accounts for the text between the cursor and
the rest: all of it stands at the leaves of the value, if no parser changes values. -/
theorem Grammar.eval_derives {g : Grammar ρ} (hg : g.OfCombinators) (ha : g.NamesApart)
    (hk : g.NamesKnown) {home : RegistryId} {session : Session} (hh : session.Hosts g home)
    {s : Cursor} (hs : s.Dark) (depth : Nat) {parser : Parser ρ} (hp : parser.isCombinator = true)
    {m : Match} (hm : (parser.eval (g.call depth) s session).1 = .ok (some m)) :
    ∃ text, s.point.Over text m.rest.point ∧ g.Derives parser text m.rest.fragment m.value ∧
      (g.KeepsValues → parser.keepsValues = true → m.value.leaves = text) := by
  classical
  obtain ⟨result, run, hrun, hresult⟩ :=
    run_mirrors hg hk hh hs depth hp (.calls id) (keysFit_id ha hk)
  have hrun' : g.run depth parser s session = (result, run) := hrun
  have heq : result = .ok (some m) := by
    rw [← hm, ← (g.run_eq_eval depth parser s session).1, hrun']
  subst heq
  rcases hresult with ⟨fault, hfault, -⟩ | ⟨-, houtcome⟩
  · cases hfault
  · cases read_gives depth parser s.point (some m.found) houtcome.symm with
    | some hover hderives =>
      exact ⟨_, hover, hderives, fun hkeeps hparser => hderives.leaves_eq hkeeps hparser⟩

/-- Signs after a letter. The first rule begins with the second, which begins with itself or
with the first. -/
def signs : Grammar Bool :=
  .pair ⟨.alt [.sequence [.ref true, .char '+'], .char 'x'], some ⟨.text "plus", some 0⟩⟩
    ⟨.alt [.sequence [.ref true, .char '-'], .ref false], some ⟨.text "minus", some 0⟩⟩

/-- A text that the first rule of the signs takes up after several rounds of both. -/
def signed : Cursor := .start ['x', '-', '+', '-', '+'] (.bare (.none .standard .null))

/-- Indirect left recursion takes up a whole text, all of which stands at the leaves. -/
theorem signs_derive :
    signs.OfCombinators ∧ signs.NamesApart ∧ signs.NamesKnown ∧ Session.quiet.Hosts signs 0 ∧
      signed.Dark ∧ (Parser.ref false : Parser Bool).isCombinator = true ∧
      ∃ m, ((Parser.ref false).eval (signs.call 40) signed .quiet).1 = .ok (some m) ∧
        signs.Derives (.ref false) ['x', '-', '+', '-', '+'] [] m.value ∧
        m.value.leaves = ['x', '-', '+', '-', '+'] := by
  have hg : signs.OfCombinators := by
    intro r
    cases r <;> rfl
  have ha : signs.NamesApart := by
    intro r r' guard guard' hr hr' halike
    cases r <;> cases r' <;> cases hr <;> cases hr' <;> first | rfl | cases halike
  have hk : signs.NamesKnown := by
    intro r guard hr
    cases r <;> cases hr <;> rfl
  have hh : Session.quiet.Hosts signs 0 := by
    intro r guard hr
    cases r <;> cases hr <;> exact ⟨rfl, Nat.one_pos⟩
  have hs : signed.Dark := (Cursor.blank_start _ _).unset.dark
  have hkeeps : signs.KeepsValues := by
    intro r
    cases r <;> rfl
  have hwhole : ((Parser.ref false).eval (signs.call 40) signed .quiet).1.toOption.join.map
      (fun m => m.rest.fragment) = some [] := by decide +kernel
  refine ⟨hg, ha, hk, hh, hs, rfl, ?_⟩
  rcases hm : ((Parser.ref false).eval (signs.call 40) signed .quiet).1 with stop | _ | m
  · rw [hm] at hwhole
    cases hwhole
  · rw [hm] at hwhole
    cases hwhole
  · rw [hm] at hwhole
    have hrest : m.rest.fragment = [] := Option.some_inj.1 hwhole
    obtain ⟨text, hover, hderives, hleaves⟩ := Grammar.eval_derives hg ha hk hh hs 40 rfl hm
    have htext : text = ['x', '-', '+', '-', '+'] := by
      have hfragment := hover.fragment_eq
      rw [show m.rest.point.fragment = [] from hrest, List.append_nil] at hfragment
      exact hfragment.symm
    subst htext
    exact ⟨m, rfl, hrest ▸ hderives, hleaves hkeeps rfl⟩

end SeedGrowth
