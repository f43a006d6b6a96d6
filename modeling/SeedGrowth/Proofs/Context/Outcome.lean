import SeedGrowth.Proofs.Context.Alike
import SeedGrowth.Proofs.LeftRecursion.Outcome

/-!
# What a rule matches does not depend on its context

Applied where the same text is left, a parser comes out alike, wherever that text begins,
whatever the flags there are from other positions, whatever the cursor takes along, and
whatever names the registry has already. Only flags that say something about the text ahead
make a difference.
-/
namespace SeedGrowth

variable {ρ : Type}

/-- The match is behind the text, counted from the cursor. -/
structure Match.Behind (m : Match) (s : Cursor) (text : List Char) : Prop where
  fragment_eq : s.fragment = text ++ m.rest.fragment
  offset_eq : m.rest.place.offset = s.place.offset + text.length

/-- Both results are failures, or matches behind the same text with equal values. -/
inductive SameMatch (s s' : Cursor) : Option Match → Option Match → Prop where
  | none : SameMatch s s' none none
  | some {m m' text} : m.Behind s text → m'.Behind s' text → m.value = m'.value →
      SameMatch s s' (some m) (some m')

/-- A function that the parser or a rule changes values by raises the fault. -/
def Grammar.Raises (g : Grammar ρ) (parser : Parser ρ) (fault : Fault) : Prop :=
  ∃ change v, change v = .error fault ∧
    (parser.Maps change ∨ ∃ r, (g.rule r).body.Maps change)

/-- Nothing that stands around the parsers is in the way of an application. -/
structure Grammar.FreeAt (g : Grammar ρ) (home : RegistryId) (session : Session) (s : Cursor) :
    Prop where
  lives : g.LivesIn home session
  quiet : (session.registry home).verbose = false
  wide : ∃ flags, s.payload.flags? = some flags ∧
    (session.registry home).capacity.size ≤ flags.capacity

/-- Evaluations that are read off alike end alike. -/
theorem endAlike_of_readOff {raised : Fault → Prop} {s s' : Cursor}
    {result result' : Except Stop (Option Match)}
    (h : EndAlike raised (FoundAbreast s.point s'.point) (readOff result) (readOff result')) :
    EndAlike raised (SameMatch s s') result result' := by
  rcases result with stop | m <;> rcases result' with stop' | m'
  · cases h with
    | stopped h => exact .stopped h
    | exhausted => exact .exhausted
  · cases h
  · cases h
  · cases h with
    | answered h =>
      refine .answered ?_
      cases m with
      | none =>
        cases m' with
        | none => exact .none
        | some m' => cases h
      | some m =>
        cases m' with
        | none => cases h
        | some m' =>
          cases h with
          | some hrest hvalue =>
            obtain ⟨text, hover, hover'⟩ := hrest
            exact .some ⟨hover.fragment_eq, congrArg Place.offset hover.place_eq⟩
              ⟨hover'.fragment_eq, congrArg Place.offset hover'.place_eq⟩ hvalue

/-- Evaluations that end alike come to a match together. -/
theorem EndAlike.matched_eq {raised : Fault → Prop} {s s' : Cursor}
    {result result' : Except Stop (Option Match)}
    (h : EndAlike raised (SameMatch s s') result result') : matched result' = matched result := by
  cases h with
  | answered h => cases h <;> rfl
  | stopped => rfl
  | exhausted => rfl

namespace Grammar

variable {g : Grammar ρ} {home home' : RegistryId} {session session' : Session} {s s' : Cursor}
  {parser : Parser ρ}

/-- Where nothing is in its way, an application comes out as the evaluation by scopes. -/
theorem FreeAt.readOff_apply [DecidableEq ρ] (h : g.FreeAt home session s) (hs : s.Dark)
    (hp : parser.isCombinator = true) :
    readOff (g.apply parser s session).1 =
      (g.read g.namesake (g.nestingBound s.remaining) parser s.point).outcome := by
  obtain ⟨flags, hflags, hwide⟩ := h.wide
  rcases h.lives.apply_reads (keysFit_namesake h.lives.known) hs hp with hhindered | ⟨houtcome, -⟩
  · exact absurd hhindered (Session.not_hindered hflags hwide h.quiet _)
  · exact houtcome

/-- Applied to two cursors with the same text ahead, a parser comes out alike: it fails for
both, or matches as much text with the same value for both, or a function that changes values
raises one fault for both, or its calls do not end for either. The cursors, their flags, the
sessions and the registries may be different in everything else, as long as no flag of theirs
says anything about the text ahead. -/
theorem apply_endAlike (hp : parser.isCombinator = true) (h : g.FreeAt home session s)
    (h' : g.FreeAt home' session' s') (hs : s.Dark) (hs' : s'.Dark)
    (htext : s'.fragment = s.fragment) :
    EndAlike (g.Raises parser) (SameMatch s s') (g.apply parser s session).1
      (g.apply parser s' session').1 := by
  classical
  have hremaining : s'.remaining = s.remaining := congrArg List.length htext
  refine endAlike_of_readOff ?_
  rw [h.readOff_apply hs hp, h'.readOff_apply hs' hp, hremaining]
  have hrules : ∀ r, (g.rule r).body.RaisesOnly (g.Raises parser) :=
    fun r change v fault hmaps hfault => ⟨change, v, hfault, .inr ⟨r, hmaps⟩⟩
  have hparser : parser.RaisesOnly (g.Raises parser) :=
    fun change v fault hmaps hfault => ⟨change, v, hfault, .inl hmaps⟩
  have hpoint : s'.point.remaining = s.point.remaining := hremaining
  rw [read, read, hpoint]
  refine (Parser.read_alike htext ?_ parser hparser _ _ (.refl s.point s'.point)).outcome
  exact readCall_alike htext hrules _ _ _ (.empty s.point s'.point s.point.remaining)

end Grammar

/-- An element inside another text, with a flag from where more text was left. -/
def nestedLater : Cursor :=
  ⟨nested.fragment, ⟨5, 2, 3⟩, .labelled (.text "note")
    (((Flags.none Capacity.standard.doubled Carried.null).insert 0).carrying
      (.anchor (.empty 9)))⟩

/-- A session with a registry that has given a flag away. -/
def Session.begun : Session := alone ⟨.standard, false, 0, [.int 7]⟩

/-- An element matches inside another text because it does at the beginning of its own. -/
theorem apply_nested_endAlike :
    (Parser.ref ()).isCombinator = true ∧
      (elements (.text "element") id).FreeAt 0 .quiet nested ∧
      (elements (.text "element") id).FreeAt 0 .begun nestedLater ∧
      nested.Dark ∧ nestedLater.Dark ∧ nestedLater.fragment = nested.fragment ∧
      matched ((elements (.text "element") id).apply (.ref ()) nestedLater .begun).1 = true := by
  have h : (elements (.text "element") id).FreeAt 0 .quiet nested :=
    ⟨elements_livesIn _ _ rfl rfl (by decide), rfl, _, rfl, by decide⟩
  have h' : (elements (.text "element") id).FreeAt 0 .begun nestedLater :=
    ⟨elements_livesIn _ _ rfl rfl (by decide), rfl, _, rfl, by decide⟩
  have hs : nested.Dark := (Cursor.blank_start _ _).unset.dark
  have hs' : nestedLater.Dark := by
    intro p hp i
    have hremaining : nestedLater.remaining = 7 := rfl
    have hne : (9 : Int) ≠ p := by omega
    have hanchor : nestedLater.anchorAt p = none :=
      (Cursor.anchorAt_of_carrying rfl p).trans (if_neg hne)
    rw [Cursor.lit_eq, hanchor]
    rfl
  have hp : (Parser.ref ()).isCombinator = true := rfl
  refine ⟨hp, h, h', hs, hs', rfl, ?_⟩
  have hmatched : matched ((elements (.text "element") id).apply (.ref ()) nested .quiet).1 =
      true := by decide +kernel
  rw [(Grammar.apply_endAlike hp h h' hs hs' rfl).matched_eq, hmatched]

/-- Two applications with the same text ahead are neither failures or the same match nor
stopped by one fault of a function that changes values, although neither cursor carries an
anchor that was set where it is. -/
structure Grammar.TellsApart (g : Grammar ρ) (parser : Parser ρ) (home : RegistryId)
    (session : Session) (s s' : Cursor) : Prop where
  combinators : g.OfCombinators
  combinator : parser.isCombinator = true
  hosts : session.Hosts g home
  room : g.HasRoom (session.registry home)
  quiet : (session.registry home).verbose = false
  wide : ∃ flags, s.payload.flags? = some flags ∧
    (session.registry home).capacity.size ≤ flags.capacity
  wide' : ∃ flags, s'.payload.flags? = some flags ∧
    (session.registry home).capacity.size ≤ flags.capacity
  unanchored : s.anchorAt s.remaining = none
  unanchored' : s'.anchorAt s'.remaining = none
  text : s'.fragment = s.fragment
  not_same : ¬ ∃ result result', (g.apply parser s session).1 = .ok result ∧
    (g.apply parser s' session).1 = .ok result' ∧ SameMatch s s' result result'
  not_raised : ¬ ∃ fault, g.Raises parser fault ∧
    (g.apply parser s session).1 = .error (.fault fault) ∧
    (g.apply parser s' session).1 = .error (.fault fault)

/-- A letter before a text, with the flag of a rule for the letter that was set where the
text begins. -/
def flaggedAhead : Cursor :=
  .start ['a', 'a'] (.bare (((Flags.none .standard Carried.null).insert 0).carrying
    (.anchor (.empty 1))))

/-- A plain rule that calls itself goes on for ever. -/
theorem call_single_self (depth : Nat) (s : Cursor) (session : Session) :
    (Grammar.single (.ref ()) none).call depth () s session = (.error .exhausted, session) := by
  induction depth with
  | zero => rfl
  | succ depth ih => exact ih

theorem apply_single_self (s : Cursor) (session : Session) :
    ((Grammar.single (.ref ()) none).apply (.ref ()) s session).1 = .error .exhausted := by
  rw [Grammar.apply, Parser.eval, call_single_self]

/-- Around the rule of a grammar and cursors with new flags there is nothing in the way, so
that it is up to the results whether the applications are told apart. -/
theorem single_tellsApart {body parser : Parser Unit} {guard : Option Guard}
    {text : List Char} {s : Cursor} {flags : Flags Carried} (hbody : body.isCombinator = true)
    (hp : parser.isCombinator = true) (hregistry : ∀ g ∈ guard, g.registry = some 0)
    (hflags : s.payload.flags? = some flags) (hwide : 64 ≤ flags.capacity)
    (hanchor : s.anchorAt s.remaining = none) (htext : s.fragment = text)
    (hsame : ¬ ∃ result result',
      ((Grammar.single body guard).apply parser s .quiet).1 = .ok result ∧
      ((Grammar.single body guard).apply parser (.start text (.bare (.none .standard .null)))
        .quiet).1 = .ok result' ∧
      SameMatch s (.start text (.bare (.none .standard .null))) result result')
    (hraised : ¬ ∃ fault, (Grammar.single body guard).Raises parser fault ∧
      ((Grammar.single body guard).apply parser s .quiet).1 = .error (.fault fault) ∧
      ((Grammar.single body guard).apply parser (.start text (.bare (.none .standard .null)))
        .quiet).1 = .error (.fault fault)) :
    (Grammar.single body guard).TellsApart parser 0 .quiet s
      (.start text (.bare (.none .standard .null))) where
  combinators _ := hbody
  combinator := hp
  hosts hr := by
    cases hr
    rw [Session.Uses, hregistry _ rfl]
    exact ⟨rfl, Nat.one_pos⟩
  room := Grammar.hasRoom_of_le (show 0 + 1 ≤ 64 by decide)
  quiet := rfl
  wide := ⟨flags, hflags, hwide⟩
  wide' := ⟨_, rfl, by decide⟩
  unanchored := hanchor
  unanchored' := rfl
  text := htext.symm
  not_same := hsame
  not_raised := hraised

/-- Where flags say something about the text ahead, the context makes a difference: a rule is
taken to be unfinished there. Beyond that, a plain rule that calls itself does not end, and a
name that cannot be looked up is a fault of the guard. -/
theorem context_tellsApart :
    (Grammar.single (.char 'a') (some ⟨.text "letter", some 0⟩)).TellsApart
        (.sequence [.char 'a', .ref ()]) 0 .quiet flaggedAhead
        (.start ['a', 'a'] (.bare (.none .standard .null))) ∧
      (Grammar.single (.ref ()) none).TellsApart (.ref ()) 0 .quiet
        (.start ['a'] (.bare (.none .standard .null)))
        (.start ['a'] (.bare (.none .standard .null))) ∧
      (Grammar.single (.char 'a') (some ⟨.list [], some 0⟩)).TellsApart (.ref ()) 0 .quiet
        (.start ['a'] (.bare (.none .standard .null)))
        (.start ['a'] (.bare (.none .standard .null))) := by
  have hmatched : matched ((Grammar.single (.char 'a') (some ⟨.text "letter", some 0⟩)).apply
      (.sequence [.char 'a', .ref ()]) (.start ['a', 'a'] (.bare (.none .standard .null)))
      .quiet).1 = true := by decide +kernel
  have hunmatched : matched ((Grammar.single (.char 'a') (some ⟨.text "letter", some 0⟩)).apply
      (.sequence [.char 'a', .ref ()]) flaggedAhead .quiet).1 = false := by decide +kernel
  refine ⟨single_tellsApart rfl rfl ?_ rfl ?_ ?_ rfl ?_ ?_,
    single_tellsApart rfl rfl ?_ rfl ?_ rfl rfl ?_ ?_,
    single_tellsApart rfl rfl ?_ rfl ?_ rfl rfl ?_ ?_⟩
  · simp
  · decide
  · exact (Cursor.anchorAt_of_carrying rfl _).trans (if_neg (by decide))
  · rintro ⟨result, result', hresult, hresult', hsame⟩
    rw [hresult] at hunmatched
    rw [hresult'] at hmatched
    cases hsame with
    | none => cases hmatched
    | some => cases hunmatched
  · rintro ⟨fault, -, -, hfault⟩
    rw [hfault] at hmatched
    cases hmatched
  · simp
  · decide
  · rintro ⟨result, result', hresult, -, -⟩
    rw [apply_single_self] at hresult
    cases hresult
  · rintro ⟨fault, -, hfault, -⟩
    rw [apply_single_self] at hfault
    cases hfault
  · simp
  · decide
  · rintro ⟨result, result', hresult, -, -⟩
    cases hresult
  · rintro ⟨fault, hraises, -, -⟩
    obtain ⟨change, v, -, hmaps | ⟨r, hmaps⟩⟩ := hraises
    · exact hmaps
    · exact hmaps

end SeedGrowth
