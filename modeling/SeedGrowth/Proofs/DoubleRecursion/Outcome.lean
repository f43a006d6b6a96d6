import SeedGrowth.Proofs.DoubleRecursion.Reading
import SeedGrowth.Proofs.LeftRecursion.Outcome
import SeedGrowth.Proofs.Seeds.Reading

/-!
# Double recursion groups to the right

A guarded rule that stands on both sides of a sign comes out as the program that groups to
the right, at every cursor without flags that are set, if its operand calls neither it nor a
rule of the same name where it begins. A call of it adopts two seeds at most, its operand and
all that follows.
-/
namespace SeedGrowth

open LeftRule (reading FoundBehind apply_comesOut apply_reading)

variable {ρ : Type}

namespace DoubleRule

variable {d : DoubleRule ρ} {g : Grammar ρ} {r : ρ} {home : RegistryId}
  {first session : Session} {start s : Cursor}

theorem Forms.areCombinators (h : d.Forms g r) (hg : g.OfCombinators) :
    d.operand.isCombinator = true ∧ d.sign.isCombinator = true := by
  have hbody := hg r
  rw [h.body_eq] at hbody
  obtain ⟨hbranch, hrest⟩ := Bool.and_eq_true_iff.1 hbody
  have hsign : Parser.areCombinators [.ref r, d.sign, .ref r] = true := hbranch
  obtain ⟨-, hsign⟩ := Bool.and_eq_true_iff.1 hsign
  exact ⟨(Bool.and_eq_true_iff.1 hrest).1, (Bool.and_eq_true_iff.1 hsign).1⟩

variable [DecidableEq ρ]

/-- Going on is read by scopes if what follows the sign is. -/
theorem goOn_comesOut (hsign : d.sign.isCombinator = true) {m : Match} (hm : start.Behind m.rest)
    {right : Cursor → Eval (Option Match)} {right' : Point → Except Stop (Option Found)}
    (hright : ∀ {s : Cursor} {session : Session}, Onward g home first session → start.Behind s →
      s.remaining ≤ m.rest.remaining →
      ComesOut False home first start session (right s) (right' s.point) (Option.map Match.found)
        fun result after => Onward g home first after ∧ FoundBehind start s.remaining result)
    (ho : Onward g home first session) :
    ComesOut False home first start session (d.goOn g right m) (d.readOn g right' m.found)
      (Option.map Match.found) fun result after =>
        Onward g home first after ∧ FoundBehind start m.rest.remaining result := by
  rw [goOn, readOn]
  refine .bind (apply_comesOut ho hm hsign False.elim) ?_
  intro result after hafter
  obtain ⟨ho', hfound⟩ := hafter
  cases result with
  | none =>
    refine .pure rfl ⟨ho', ?_⟩
    rintro m' ⟨⟩
  | some sign =>
    obtain ⟨hbehind, hle⟩ := hfound sign rfl
    refine .bind (hright ho' hbehind hle) ?_
    intro result after' hafter'
    obtain ⟨ho'', hfound'⟩ := hafter'
    cases result with
    | none =>
      refine .pure rfl ⟨ho'', ?_⟩
      rintro m' ⟨⟩
    | some t =>
      obtain ⟨hbehind', hle'⟩ := hfound' t rfl
      refine .bind (.lift (d.change (.tuple [m.value, sign.value, t.value]))) ?_
      intro value after'' hsame
      rw [hsame]
      refine .pure rfl ⟨ho'', ?_⟩
      rintro m' ⟨⟩
      exact ⟨hbehind', hle'.trans hle⟩

/-- Grouping to the right is read by scopes; rounds do not run out, because what follows a
sign begins further on. -/
theorem rightward_comesOut (hoperand : d.operand.isCombinator = true)
    (hsign : d.sign.isCombinator = true) :
    ∀ (rounds : Nat) {s : Cursor} {session : Session}, Onward g home first session →
      start.Behind s → s.remaining < rounds →
      ComesOut False home first start session (d.rightward g rounds s)
        (d.readRightward g rounds s.point) (Option.map Match.found) fun result after =>
          Onward g home first after ∧ FoundBehind start s.remaining result := by
  intro rounds
  induction rounds with
  | zero =>
    intro s session _ _ hlt
    omega
  | succ rounds ih =>
    intro s session ho hs hlt
    rw [rightward, readRightward, readStep]
    refine .bind (apply_comesOut ho hs hoperand False.elim) ?_
    intro result after hafter
    obtain ⟨ho', hfound⟩ := hafter
    cases result with
    | none =>
      refine .pure rfl ⟨ho', ?_⟩
      rintro m' ⟨⟩
    | some m =>
      obtain ⟨hm, hle⟩ := hfound m rfl
      have hiff : m.found.rest.remaining < s.point.remaining ↔ m.rest.remaining < s.remaining :=
        Iff.rfl
      dsimp only [Option.map_some]
      by_cases hshorter : m.rest.remaining < s.remaining
      · rw [if_pos hshorter, if_pos (hiff.2 hshorter)]
        refine .bind (goOn_comesOut hsign hm (fun ho hs hle' => ih ho hs (by omega)) ho') ?_
        intro result after' hafter'
        obtain ⟨ho'', hfound'⟩ := hafter'
        cases result with
        | none => exact .pure rfl ⟨ho'', hfound⟩
        | some whole =>
          obtain ⟨hwhole, hle'⟩ := hfound' whole rfl
          refine .pure rfl ⟨ho'', ?_⟩
          rintro m' ⟨⟩
          exact ⟨hwhole, hle'.trans hle⟩
      · rw [if_neg hshorter, if_neg fun h => hshorter (hiff.1 h)]
        refine .pure rfl ⟨ho', ?_⟩
        rintro m' ⟨⟩

/-- Of three seeds the last one would be the first result again. -/
theorem not_three_seeds (hr : d.Forms g r) (hoperand : ∀ depth (p : Point),
      (g.namesake r, p.remaining) ∉ (g.read g.namesake depth d.operand p).asked)
    {p : Point} {depth : Nat} (hdepth : g.callBound p.remaining ≤ depth + 1) {m₀ m₁ m₂ : Found}
    (h₀ : (g.readBody g.namesake (depth + 1) r p none).outcome = .ok (some m₀))
    (h₁ : (g.readBody g.namesake (depth + 1) r p (some m₀)).outcome = .ok (some m₁))
    (h₂ : (g.readBody g.namesake (depth + 1) r p (some m₁)).outcome = .ok (some m₂))
    (hlt₀ : m₀.rest.remaining < p.remaining) (hlt₁ : m₁.rest.remaining < m₀.rest.remaining) :
    ¬ m₂.rest.remaining < m₁.rest.remaining := by
  rw [readBody_none hr hdepth (hoperand _ p)] at h₀
  rw [readBody_some hr hdepth hlt₀ (hoperand _ p), h₀] at h₁
  rw [readBody_some hr hdepth (hlt₁.trans hlt₀) (hoperand _ p), h₀] at h₂
  obtain ⟨result, hnext, h₁⟩ := bind_eq_ok.1 h₁
  cases result with
  | none =>
    cases h₁
    omega
  | some whole =>
    cases h₁
    obtain ⟨-, hnone⟩ := readOn_twice hr hoperand hnext
    rw [hnone] at h₂
    cases h₂
    omega

/-- A call of the rule that begins where no flag is set adopts two seeds at most. -/
theorem seeds_length_le_two (h : g.LivesIn home session) (hr : d.Forms g r)
    (hoperand : ∀ depth (p : Point),
      (g.namesake r, p.remaining) ∉ (g.read g.namesake depth d.operand p).asked)
    (hs : s.Dark) {guard : Guard} (hguard : (g.rule r).guard = some guard) {call : Call}
    {s' : Cursor} {σ σ' : Session}
    (henters : call.Enters guard.name guard.registry s session s' σ) {depth : Nat}
    (hdepth : depth + 1 = g.nestingBound s.remaining) {seeds : List Match}
    (hadopts : call.Adopts ((g.rule r).body.eval (g.call depth) s') σ seeds σ') :
    seeds.length ≤ 2 := by
  by_contra hlength
  obtain ⟨m₂, m₁, m₀, hdrop⟩ : ∃ m₂ m₁ m₀, seeds.drop (seeds.length - 3) = [m₂, m₁, m₀] :=
    List.length_eq_three.1 (by rw [List.length_drop]; omega)
  have hsuffix : [m₂, m₁, m₀] <:+ seeds := hdrop ▸ List.drop_suffix _ _
  have hsuffix₁ : [m₁, m₀] <:+ seeds := (List.suffix_cons _ _).trans hsuffix
  have hreads : ∀ {m earlier}, m :: earlier <:+ seeds → call.Ascends (m :: earlier) ∧
      (g.readBody g.namesake depth r s.point (earlier.head?.map Match.found)).outcome =
        .ok (some m.found) := by
    intro m earlier hm
    obtain ⟨σ₁, hadopts'⟩ := hadopts.of_suffix hm
    obtain ⟨hascends, hread⟩ :=
      henters.reads h (Grammar.keysFit_namesake h.known) hguard hs hadopts'
    exact ⟨hascends, hread m earlier rfl⟩
  obtain ⟨hascends₂, h₂⟩ := hreads hsuffix
  obtain ⟨hascends₁, h₁⟩ := hreads hsuffix₁
  obtain ⟨hascends₀, h₀⟩ := hreads ((List.suffix_cons _ _).trans hsuffix₁)
  have hlt₀ : m₀.rest.remaining < s.remaining := by
    have hpositive := hascends₀.positive m₀ List.mem_cons_self
    rw [henters.facts.1, Match.consumed] at hpositive
    omega
  obtain ⟨hpos, hbound⟩ := g.callBound_lt_nestingBound s.remaining
  obtain ⟨depth, rfl⟩ : ∃ depth', depth = depth' + 1 :=
    Nat.exists_eq_add_one_of_ne_zero (by omega)
  have hdeep : g.callBound s.point.remaining ≤ depth + 1 := by
    change g.callBound s.remaining ≤ depth + 1
    omega
  exact not_three_seeds hr hoperand hdeep h₀ h₁ h₂ hlt₀ hascends₁.remaining_lt
    hascends₂.remaining_lt

/-- A doubly recursive rule comes out as what is grouped to the right: with no match, with the
same rest and value, or with the same fault; unless one of the two is hindered by what stands
around the parsers. A call of it that begins there adopts two seeds at most. -/
theorem apply_eq_rightward (h : g.LivesIn home session) (hr : d.Forms g r)
    (hoperand : g.NeverBegins home r d.operand) (hs : s.Unset) :
    (readOff (g.apply (.ref r) s session).1 =
        readOff (d.rightward g (s.remaining + 1) s session).1 ∨
      session.Hindered home s (g.apply (.ref r) s session).1 ∨
      session.Hindered home s (d.rightward g (s.remaining + 1) s session).1) ∧
      ∀ guard, (g.rule r).guard = some guard → ∀ call s' σ,
        Call.Enters call guard.name guard.registry s session s' σ →
        ∀ depth, depth + 1 = g.nestingBound s.remaining → ∀ seeds σ',
          call.Adopts ((g.rule r).body.eval (g.call depth) s') σ seeds σ' → seeds.length ≤ 2 := by
  obtain ⟨hoperandCombinator, hsignCombinator⟩ := hr.areCombinators h.combinators
  have hkey : g.KeysFit g.namesake := Grammar.keysFit_namesake h.known
  have hasked : ∀ depth (p : Point),
      (g.namesake r, p.remaining) ∉ (g.read g.namesake depth d.operand p).asked :=
    fun depth p => hoperand.not_asked h hkey (hkey.keyOf hr.guarded) hoperandCombinator
  constructor
  · obtain ⟨result, after, hrightward, -, hresult, -⟩ := rightward_comesOut hoperandCombinator
      hsignCombinator (s.remaining + 1) ⟨h, rfl, rfl⟩ ⟨hs.dark, rfl⟩ (Nat.lt_succ_self _)
    rw [hrightward]
    rcases hresult with hhindered | hreading
    · exact .inr (.inr hhindered)
    have hcombinator : (Parser.ref r).isCombinator = true := rfl
    rcases apply_reading h hs.dark hcombinator with hhindered | hread
    · exact .inr (.inl hhindered)
    left
    have hlt : s.point.remaining < s.remaining + 1 := Nat.lt_succ_self _
    calc
      readOff (g.apply (.ref r) s session).1 = reading g (.ref r) s.point := hread
      _ = d.readRightward g (s.remaining + 1) s.point := reading_eq_readRightward hr hasked _ hlt
      _ = readOff result := hreading.symm
  · intro guard hguard call s' σ henters depth hdepth seeds σ' hadopts
    exact seeds_length_le_two h hr hasked hs.dark hguard henters hdepth hadopts

end DoubleRule

/-- Letters with a sign between them. -/
def chain (change : Value → Value) : DoubleRule Unit where
  operand := .char 'a'
  sign := .char '+'
  change v := .ok (change v)

/-- The grammar of letters with a sign between them. -/
def chains (name : Value) (change : Value → Value) : Grammar Unit :=
  .single ((chain change).body ()) (some ⟨name, some 0⟩)

section

variable (name : Value) (change : Value → Value)

theorem chains_forms : (chain change).Forms (chains name change) () := ⟨rfl, rfl⟩

theorem chains_hosts (session : Session) (h : 0 < session.registries.size) :
    session.Hosts (chains name change) 0 := by
  intro r guard hr
  cases hr
  exact ⟨rfl, h⟩

theorem chains_livesIn (h : name.alike name = true) (hh : name.hashable = true)
    {registry : Registry} (hroom : registry.size < registry.capacity.size) :
    (chains name change).LivesIn 0 (.alone registry) where
  combinators _ := rfl
  known hr := by cases hr; exact h
  hashable hr := by cases hr; exact hh
  hosts := chains_hosts name change (.alone registry) Nat.one_pos
  room := Grammar.hasRoom_of_le hroom

end

/-- Three letters with signs between them. -/
def threefold : Cursor := clearAt ['a', '+', 'a', '+', 'a']

/-- What is read of three letters is grouped to the right, with two seeds at most. -/
theorem apply_threefold_eq_rightward :
    (chains (.text "chain") id).LivesIn 0 .quiet ∧
      (chain id).Forms (chains (.text "chain") id) () ∧
      (chains (.text "chain") id).NeverBegins 0 () (chain id).operand ∧ threefold.Unset ∧
      readOff ((chains (.text "chain") id).apply (.ref ()) threefold .quiet).1 =
        .ok (some ⟨⟨[], ⟨5, 1, 6⟩⟩,
          .tuple [.text "a", .text "+", .tuple [.text "a", .text "+", .text "a"]]⟩) ∧
      ∃ call s' σ, Call.Enters call (.text "chain") (some 0) threefold .quiet s' σ ∧
        ∀ depth, depth + 1 = (chains (.text "chain") id).nestingBound 5 → ∀ seeds σ',
          call.Adopts (((chains (.text "chain") id).rule ()).body.eval
            ((chains (.text "chain") id).call depth) s') σ seeds σ' → seeds.length ≤ 2 := by
  have h : (chains (.text "chain") id).LivesIn 0 .quiet := chains_livesIn _ _ rfl rfl (by decide)
  have hr := chains_forms (.text "chain") id
  have hoperand : (chains (.text "chain") id).NeverBegins 0 () (chain id).operand :=
    fun depth session s _ _ r' _ => Grammar.char_not_called _ 'a' depth session s r' _
  have hs : threefold.Unset := (Cursor.blank_start _ _).unset
  have hclear : ∀ result : Except Stop (Option Match),
      ¬ Session.quiet.Hindered 0 threefold result := Session.not_hindered rfl (by decide) rfl
  obtain ⟨hresult, hseeds⟩ := DoubleRule.apply_eq_rightward h hr hoperand hs
  refine ⟨h, hr, hoperand, hs, ?_, ?_⟩
  · rcases hresult with heq | hhindered | hhindered
    · rw [heq]
      rfl
    · exact absurd hhindered (hclear _)
    · exact absurd hhindered (hclear _)
  · obtain ⟨call, s', σ, henters⟩ : ∃ call s' σ,
        Call.Enters call (.text "chain") (some 0) threefold .quiet s' σ :=
      ⟨_, _, _, _, _, _, rfl, rfl, rfl, rfl⟩
    exact ⟨call, s', σ, henters, hseeds ⟨.text "chain", some 0⟩ rfl call s' σ henters⟩

/-- What is grouped to the right matches and the rule does not, although neither the operand
nor the sign calls the rule where it begins, and what is made of values is not stopped by
faults. -/
structure DoubleRule.Departs (d : DoubleRule ρ) (g : Grammar ρ) (r : ρ) (home : RegistryId)
    (session : Session) (s : Cursor) : Prop where
  combinators : g.OfCombinators
  hosts : session.Hosts g home
  forms : d.Forms g r
  changes : ∀ v, ∃ w, d.change v = .ok w
  unset : s.Unset
  operand_silent : ∀ depth session s,
    ¬ (g.run depth d.operand s session).2.HasCalled r s.remaining
  sign_silent : ∀ depth session s, ¬ (g.run depth d.sign s session).2.HasCalled r s.remaining
  rightward_matched : matched (d.rightward g (s.remaining + 1) s session).1 = true
  not_matched : matched (g.apply (.ref r) s session).1 = false

theorem chain_departs {name : Value} {change : Value → Value} {registry : Registry} {s : Cursor}
    (hs : s.Unset)
    (hmatched : matched ((chain change).rightward (chains name change) (s.remaining + 1) s
      (.alone registry)).1 = true)
    (hnot : matched ((chains name change).apply (.ref ()) s (.alone registry)).1 = false) :
    (chain change).Departs (chains name change) () 0 (.alone registry) s where
  combinators _ := rfl
  hosts := chains_hosts name change (.alone registry) Nat.one_pos
  forms := chains_forms name change
  changes v := ⟨change v, rfl⟩
  unset := hs
  operand_silent depth session s := Grammar.char_not_called _ 'a' depth session s () _
  sign_silent depth session s := Grammar.char_not_called _ '+' depth session s () _
  rightward_matched := hmatched
  not_matched := hnot

/-- A rule the operand of which is guarded by the same name. -/
def likeness : DoubleRule Bool := ⟨.ref true, .char '+', .ok⟩

/-- The rule and its operand. -/
def likenesses : Grammar Bool :=
  .pair ⟨likeness.body false, some ⟨.text "letter", some 0⟩⟩
    ⟨.char 'a', some ⟨.text "letter", some 0⟩⟩

/-- The operand calls itself alone. -/
theorem likenesses_silent (depth : Nat) (session : Session) (s : Cursor) :
    ¬ (likenesses.run depth (.ref true) s session).2.HasCalled false s.remaining := by
  have hg : likenesses.OfCombinators := by
    intro r
    cases r <;> rfl
  let kind (parser : Parser Bool) : Prop := parser = .ref true ∨ parser = .char 'a'
  have hnot : ¬ kind (.ref false) := by
    rintro (h | h) <;> cases h
  refine Grammar.not_called_of_leads hg ?_ hnot rfl (.inl rfl) depth session s _
  -- a call leads to the letter, which leads to nothing
  intro v v' hl hkind
  rcases hkind with hv | hv <;> cases hl <;> cases hv <;> exact .inr rfl

theorem likeness_departs :
    likeness.Departs likenesses false 0 .quiet (clearAt ['a']) := by
  refine ⟨?_, ?_, ⟨rfl, rfl⟩, fun v => ⟨v, rfl⟩, (Cursor.blank_start _ _).unset,
    likenesses_silent, fun depth session s => Grammar.char_not_called _ '+' depth session s false _,
    by decide +kernel, by decide +kernel⟩
  · intro r
    cases r <;> rfl
  · intro r guard hr
    cases r <;> cases hr <;> exact ⟨rfl, Nat.one_pos⟩

/-- What stands around the parsers does hinder the rule and not what is grouped to the right:
a cursor has fewer flags than the registry or none at all, or a number is too long for a
trace. So does its name, which has no room in the registry, is not one, or is the name of its
operand as well. -/
theorem double_recursion_departs :
    (chain id).Departs (chains (.text "chain") id) () 0 .crowded (clearAt ['a']) ∧
      (chain id).Departs (chains (.text "chain") id) () 0 .quiet (.start ['a'] .absent) ∧
      (chain fun _ => .int (10 ^ 4300)).Departs
        (chains (.text "chain") fun _ => .int (10 ^ 4300)) () 0 .traced
        (clearAt ['a', '+', 'a']) ∧
      (chain id).Departs (chains (.text "chain") id) () 0 .full (clearAt ['a']) ∧
      (chain id).Departs (chains (.list []) id) () 0 .quiet (clearAt ['a']) ∧
      likeness.Departs likenesses false 0 .quiet (clearAt ['a']) := by
  have hs : ∀ text, (clearAt text).Unset := fun text => (Cursor.blank_start _ _).unset
  have habsent : (Cursor.start ['a'] .absent).Unset := fun _ => rfl
  refine ⟨chain_departs (hs _) ?_ ?_, chain_departs habsent ?_ ?_, chain_departs (hs _) ?_ ?_,
    chain_departs (hs _) ?_ ?_, chain_departs (hs _) ?_ ?_, likeness_departs⟩
  all_goals decide +kernel

end SeedGrowth
