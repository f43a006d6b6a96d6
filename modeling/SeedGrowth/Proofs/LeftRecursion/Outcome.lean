import SeedGrowth.Proofs.LeftRecursion.Reading
import SeedGrowth.Proofs.Run.Nesting

/-!
# Left recursion comes to a loop

A guarded rule that begins with itself comes out as the loop that it stands for, at every
cursor without flags that are set, if its base calls neither it nor a rule of the same name
where it begins. The tails may call it, because they begin further on.
-/
namespace SeedGrowth

variable {ρ : Type}

/-- Neither the rule nor one of the same name is called where the run of a parser begins. -/
def Grammar.BeginsWithout (g : Grammar ρ) (r : ρ) (parser : Parser ρ) (session : Session)
    (s : Cursor) : Prop :=
  ∀ r', g.Namesakes r r' →
    ¬ (g.run (g.nestingBound s.remaining) parser s session).2.HasCalled r' s.remaining

namespace LeftRule

variable {l : LeftRule ρ} {g : Grammar ρ} {r : ρ}

theorem areCombinators_branches {tails : List (Tail ρ)} {base : Parser ρ}
    (h : Parser.areCombinators ((LeftRule.mk base tails).branches r ++ [base]) = true) :
    base.isCombinator = true ∧ ∀ tail ∈ tails, tail.1.isCombinator = true := by
  induction tails with
  | nil =>
    refine ⟨?_, fun tail ht => by cases ht⟩
    exact (Bool.and_eq_true_iff.1 h).1
  | cons tail tails ih =>
    obtain ⟨hhead, hrest⟩ := Bool.and_eq_true_iff.1 h
    obtain ⟨hbase, htails⟩ := ih hrest
    refine ⟨hbase, fun tail' ht => ?_⟩
    rcases List.mem_cons.1 ht with rfl | ht
    · have hpair : Parser.areCombinators [.ref r, tail'.1] = true := hhead
      simpa [Parser.areCombinators, Parser.isCombinator] using hpair
    · exact htails tail' ht

/-- The base and the tails of a rule that is built by combinators are. -/
theorem Forms.areCombinators (h : l.Forms g r) (hg : g.OfCombinators) :
    l.base.isCombinator = true ∧ ∀ tail ∈ l.tails, tail.1.isCombinator = true := by
  have hbody := hg r
  rw [h.body_eq] at hbody
  exact areCombinators_branches hbody

variable [DecidableEq ρ]

/-- A left-recursive rule comes out as its loop does: with no match, with the same rest and
value, or with the same fault; unless one of the two is hindered by what stands around the
parsers. -/
theorem apply_eq_loop {home : RegistryId} {session : Session} (h : g.LivesIn home session)
    (hr : l.Forms g r) (hbase : g.AlwaysEnds home l.base)
    (htails : ∀ tail ∈ l.tails, g.AlwaysEnds home tail.1) {s : Cursor} (hs : s.Unset)
    (hwithout : g.BeginsWithout r l.base session s) :
    (l.loop g s session).1 ≠ .error .exhausted ∧
      (readOff (g.apply (.ref r) s session).1 = readOff (l.loop g s session).1 ∨
        session.Hindered home s (g.apply (.ref r) s session).1 ∨
        session.Hindered home s (l.loop g s session).1) := by
  obtain ⟨hbaseCombinator, htailsCombinator⟩ := hr.areCombinators h.combinators
  obtain ⟨result, after, hloop, hends, hresult, -⟩ := loop_readsAs hbaseCombinator hbase
    (fun tail ht => ⟨htailsCombinator tail ht, htails tail ht⟩) h hs.dark
  rw [hloop]
  refine ⟨hends, ?_⟩
  rcases hresult with hhindered | hreading
  · exact .inr (.inr hhindered)
  have hkey : g.KeysFit g.namesake := Grammar.keysFit_namesake h.known
  rcases h.apply_reads hkey hs.dark hbaseCombinator with ⟨fault, hfault, hhinders⟩ | ⟨-, hasked⟩
  · -- the loop begins with its base, and stops where that does
    have hstop : (l.loop g s session).1 = .error (.fault fault) := by
      rw [loop, Program.bind_error (Prod.ext hfault rfl)]
    rw [hloop] at hstop
    exact .inr (.inr ⟨fault, hstop, hhinders⟩)
  · have hreadEnds : l.readLoop g s.point ≠ .error .exhausted := by
      rw [← hreading]
      intro he
      cases result with
      | ok a => cases he
      | error stop =>
        cases he
        exact hends rfl
    have hbaseEnds : (account g l.base s.point).Ends := by
      intro he
      rw [readLoop, reading, he] at hreadEnds
      exact hreadEnds rfl
    have hdepth : g.callBound s.point.remaining ≤ g.callBound s.remaining + 1 := Nat.le_succ _
    have hnot : (g.namesake r, s.point.remaining) ∉
        (g.read g.namesake (g.callBound s.remaining + 1) l.base s.point).asked := by
      rw [Grammar.read_eq_of_ends hbaseEnds hdepth]
      intro hmem
      obtain ⟨r', hr', hcalled⟩ := hasked (g.namesake r) s.remaining hmem
      exact hwithout r' ((hkey hr.guarded r').1 hr'.symm) hcalled
    have houtcome : (g.read g.namesake (g.callBound s.remaining + 2) (.ref r) s.point).outcome =
        l.readLoop g s.point := readCall_eq_readLoop hr hdepth hnot
    have hparserEnds : (g.read g.namesake (g.callBound s.remaining + 2) (.ref r) s.point).Ends := by
      intro he
      rw [houtcome] at he
      exact hreadEnds he
    rcases h.apply_of_ends hkey hs.dark rfl hparserEnds with heq | hhindered
    · left
      rw [heq, houtcome, ← hreading]
      rfl
    · exact .inr (.inl hhindered)

end LeftRule

/-- Everything ends if all rules are guarded. -/
theorem Grammar.alwaysEnds_of_guarded {g : Grammar ρ} (hg : g.OfCombinators) (hk : g.NamesKnown)
    (hall : ∀ r, (g.rule r).guard.isSome = true) (home : RegistryId) {parser : Parser ρ}
    (hp : parser.isCombinator = true) : g.AlwaysEnds home parser := by
  intro session s hh hs
  refine apply_ends_of_run hg hk hh hs hp (fun _ _ => False) ?_ ?_
  · intro m _ r r' hplain
    have hsome := hall r
    rw [hplain] at hsome
    cases hsome
  · intro r hr
    obtain ⟨r', -, h⟩ := Relation.TransGen.tail'_iff.1 hr
    exact h

/-- An element, or what is found in it at an index, which is such an element as well. -/
def element (change : Value → Value) : LeftRule Unit where
  base := .char 'a'
  tails := [(.delimited (.char '[') (.ref ()) (.char ']'), fun v => .ok (change v))]

/-- The grammar of elements. -/
def elements (name : Value) (change : Value → Value) : Grammar Unit where
  rule _ := ⟨(element change).body (), some ⟨name, some 0⟩⟩
  names := [()]
  mem_names _ := List.mem_singleton_self _

section

variable (name : Value) (change : Value → Value)

theorem elements_ofCombinators : (elements name change).OfCombinators := fun _ => rfl

theorem elements_forms : (element change).Forms (elements name change) () :=
  ⟨rfl, rfl, List.cons_ne_nil _ _⟩

theorem elements_hosts (session : Session) (h : 0 < session.registries.size) :
    session.Hosts (elements name change) 0 := by
  intro r guard hr
  cases hr
  exact ⟨rfl, h⟩

/-- The base of an element does not call the rule. -/
theorem elements_not_called (session : Session) (s : Cursor) :
    ¬ ((elements name change).run ((elements name change).nestingBound s.remaining)
      (element change).base s session).2.HasCalled () s.remaining := by
  intro hcalled
  obtain ⟨m, hm, c, hhappening, -⟩ := hcalled
  rcases List.mem_singleton.1 hm with rfl
  cases hhappening

theorem elements_namesKnown (h : name.alike name = true) : (elements name change).NamesKnown := by
  intro r guard hr
  cases hr
  exact h

theorem elements_alwaysEnds (h : name.alike name = true) {parser : Parser Unit}
    (hp : parser.isCombinator = true) : (elements name change).AlwaysEnds 0 parser :=
  Grammar.alwaysEnds_of_guarded (elements_ofCombinators name change)
    (elements_namesKnown name change h) (fun _ => rfl) 0 hp

theorem elements_tailsEnd (h : name.alike name = true) :
    LeftRule.TailsEnd (elements name change) 0 (element change).tails := by
  intro tail ht
  rcases List.mem_singleton.1 ht with rfl
  exact ⟨rfl, elements_alwaysEnds name change h rfl⟩

theorem elements_livesIn (h : name.alike name = true) (hh : name.hashable = true)
    {registry : Registry} (hroom : registry.size < registry.capacity.size) :
    (elements name change).LivesIn 0 (.alone registry) where
  combinators := elements_ofCombinators name change
  known := elements_namesKnown name change h
  hashable hr := by cases hr; exact hh
  hosts := elements_hosts name change (.alone registry) Nat.one_pos
  room := Grammar.hasRoom_of_le hroom

end

/-- A session that is not traced and has given no flags away. -/
def Session.quiet : Session := alone (.empty .standard false)

/-- A cursor before a text, without flags that are set. -/
def clearAt (text : List Char) : Cursor := .start text (.bare (.none .standard .null))

/-- A cursor at the beginning of an element. -/
def nested : Cursor :=
  .start ['a', '[', 'a', ']', '[', 'a', ']'] (.bare (.none .standard .null))

/-- The loop of an element, and what it says about the rule. -/
theorem apply_nested_eq_loop :
    (elements (.text "element") id).LivesIn 0 .quiet ∧
      (element id).Forms (elements (.text "element") id) () ∧
      (elements (.text "element") id).AlwaysEnds 0 (element id).base ∧
      (∀ tail ∈ (element id).tails, (elements (.text "element") id).AlwaysEnds 0 tail.1) ∧
      nested.Unset ∧
      (elements (.text "element") id).BeginsWithout () (element id).base .quiet nested ∧
      readOff ((elements (.text "element") id).apply (.ref ()) nested .quiet).1 = .ok (some
        ⟨⟨[], ⟨7, 1, 8⟩⟩, .tuple [.tuple [.text "a", .text "a"], .text "a"]⟩) := by
  have h : (elements (.text "element") id).LivesIn 0 .quiet :=
    elements_livesIn _ _ rfl rfl (by decide)
  have hr := elements_forms (.text "element") id
  have hbase : (elements (.text "element") id).AlwaysEnds 0 (element id).base :=
    elements_alwaysEnds _ _ rfl rfl
  have htailsEnd := elements_tailsEnd (.text "element") id rfl
  have htails : ∀ tail ∈ (element id).tails,
      (elements (.text "element") id).AlwaysEnds 0 tail.1 := fun tail ht => (htailsEnd tail ht).2
  have hs : nested.Unset := (Cursor.blank_start _ _).unset
  have hwithout : (elements (.text "element") id).BeginsWithout () (element id).base
      .quiet nested :=
    fun _ _ => elements_not_called (.text "element") id .quiet nested
  refine ⟨h, hr, hbase, htails, hs, hwithout, ?_⟩
  have hclear : ∀ result : Except Stop (Option Match), ¬ Session.quiet.Hindered 0 nested result :=
    Session.not_hindered rfl (by decide) rfl
  obtain ⟨-, heq | hhindered | hhindered⟩ := LeftRule.apply_eq_loop h hr hbase htails hs hwithout
  · obtain ⟨result, after, hloop, -, hresult, -⟩ :=
      LeftRule.loop_readsAs rfl hbase htailsEnd h hs.dark
    rw [heq, hloop]
    exact hresult.resolve_left (hclear result)
  · exact absurd hhindered (hclear _)
  · exact absurd hhindered (hclear _)

/-- There is a match at the end of an application. -/
def matched : Except Stop (Option Match) → Bool
  | .ok result => result.isSome
  | .error _ => false

/-- The loop of a left-recursive rule matches and the rule does not, although the base and
the tails end, what is made of their values is not stopped by faults, and the base does not
call the rule where it begins. -/
structure LeftRule.Departs [DecidableEq ρ] (l : LeftRule ρ) (g : Grammar ρ) (r : ρ)
    (home : RegistryId) (session : Session) (s : Cursor) : Prop where
  combinators : g.OfCombinators
  hosts : session.Hosts g home
  forms : l.Forms g r
  baseEnds : g.AlwaysEnds home l.base
  tailsEnd : TailsEnd g home l.tails
  changes : ∀ tail ∈ l.tails, ∀ v, ∃ w, tail.2 v = .ok w
  unset : s.Unset
  not_called : ¬ (g.run (g.nestingBound s.remaining) l.base s session).2.HasCalled r s.remaining
  loop_matched : matched (l.loop g s session).1 = true
  not_matched : matched (g.apply (.ref r) s session).1 = false

theorem element_departs {name : Value} (h : name.alike name = true) {change : Value → Value}
    {registry : Registry} {s : Cursor} (hs : s.Unset)
    (hloop : matched ((element change).loop (elements name change) s (.alone registry)).1 = true)
    (hnot : matched ((elements name change).apply (.ref ()) s (.alone registry)).1 = false) :
    (element change).Departs (elements name change) () 0 (.alone registry) s where
  combinators := elements_ofCombinators name change
  hosts := elements_hosts name change (.alone registry) Nat.one_pos
  forms := elements_forms name change
  baseEnds := elements_alwaysEnds name change h rfl
  tailsEnd := elements_tailsEnd name change h
  changes tail ht v := by
    rcases List.mem_singleton.1 ht with rfl
    exact ⟨change v, rfl⟩
  unset := hs
  not_called := elements_not_called name change (.alone registry) s
  loop_matched := hloop
  not_matched := hnot

/-- A rule the base of which is guarded by the same name. -/
def twin : LeftRule Bool := ⟨.ref true, [(.char 'b', .ok)]⟩

/-- The rule and its base. -/
def twins : Grammar Bool where
  rule r := ⟨if r then .char 'a' else twin.body false, some ⟨.text "twin", some 0⟩⟩
  names := [false, true]
  mem_names r := by cases r <;> simp

/-- Whether a rule is handed a cursor at a moment. -/
def Moment.isCall (m : Moment Bool) (r : Bool) : Bool :=
  match m.happening with
  | .handed (.ref r') _ => r' == r
  | _ => false

theorem twin_departs :
    twin.Departs twins false 0 .quiet (.start ['a'] (.bare (.none .standard .null))) := by
  have hg : twins.OfCombinators := by
    intro r
    cases r <;> rfl
  have hk : twins.NamesKnown := by
    intro r guard hr
    cases hr
    rfl
  have hends : ∀ {parser : Parser Bool}, parser.isCombinator = true → twins.AlwaysEnds 0 parser :=
    Grammar.alwaysEnds_of_guarded hg hk (fun _ => rfl) 0
  have hforms : twin.Forms twins false := ⟨rfl, rfl, List.cons_ne_nil _ _⟩
  have hs : (Cursor.start ['a'] (.bare (.none .standard .null))).Unset :=
    (Cursor.blank_start _ _).unset
  refine ⟨hg, ?_, hforms, hends rfl, ?_, ?_, hs, ?_, by decide +kernel, by decide +kernel⟩
  · intro r guard hr
    cases hr
    exact ⟨rfl, Nat.one_pos⟩
  · intro tail ht
    rcases List.mem_singleton.1 ht with rfl
    exact ⟨rfl, hends rfl⟩
  · intro tail ht v
    rcases List.mem_singleton.1 ht with rfl
    exact ⟨v, rfl⟩
  · intro hcalled
    obtain ⟨m, hm, c, hhappening, -⟩ := hcalled
    have hnone : (twins.run (twins.nestingBound 1) (.ref true)
        (.start ['a'] (.bare (.none .standard .null))) .quiet).2.moments.all
          (fun m => !m.isCall false) = true := by decide +kernel
    have hnot := List.all_eq_true.1 hnone m hm
    rw [Moment.isCall, hhappening] at hnot
    cases hnot

/-- A session in which all flags have been given away. -/
def Session.full : Session :=
  alone ⟨.standard, false, 0, (List.range 64).map fun n => .int n⟩

/-- What stands around the parsers does hinder the rule and not the loop: a cursor has fewer
flags than the registry or none at all, or a number is too long for a trace. So does its
name, which has no room in the registry, is not one, or is the name of its base as well. -/
theorem left_recursion_departs :
    (element id).Departs (elements (.text "element") id) () 0 .crowded
        (.start ['a'] (.bare (.none .standard .null))) ∧
      (element id).Departs (elements (.text "element") id) () 0 .quiet (.start ['a'] .absent) ∧
      (element fun _ => .int (10 ^ 4300)).Departs
        (elements (.text "element") fun _ => .int (10 ^ 4300)) () 0 .traced
        (.start ['a', '[', 'a', ']'] (.bare (.none .standard .null))) ∧
      (element id).Departs (elements (.text "element") id) () 0 .full
        (.start ['a'] (.bare (.none .standard .null))) ∧
      (element id).Departs (elements (.list []) id) () 0 .quiet
        (.start ['a'] (.bare (.none .standard .null))) ∧
      twin.Departs twins false 0 .quiet (.start ['a'] (.bare (.none .standard .null))) := by
  have hs : ∀ text, (Cursor.start text (.bare (.none .standard .null))).Unset :=
    fun text => (Cursor.blank_start _ _).unset
  have habsent : (Cursor.start ['a'] .absent).Unset := fun _ => rfl
  refine ⟨element_departs rfl (hs _) ?_ ?_, element_departs rfl habsent ?_ ?_,
    element_departs rfl (hs _) ?_ ?_, element_departs rfl (hs _) ?_ ?_,
    element_departs rfl (hs _) ?_ ?_, twin_departs⟩
  all_goals decide +kernel

end SeedGrowth
