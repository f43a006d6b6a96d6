import SeedGrowth.Proofs.Unguarded.Basic

/-!
# What two rules read that begin with one another

The outer rule begins with the inner one, and the inner one with the outer one again, which
comes out as its best result so far. So it does not matter whether the inner rule is guarded:
its body does not ask for it. In each round there are both tails to go on by, one after the
other, and where the second one does not follow, the base of the outer rule, which gives
nothing new.
-/
namespace SeedGrowth

open LeftRule (reading readTail readLoop reading_ahead)

variable {ρ κ : Type}

/-- What a rule goes on with behind another one, what it comes to otherwise, and what is made
of the value so far and that of its tail. -/
structure Relay (ρ : Type) where
  tail : Parser ρ
  base : Parser ρ
  change : Value → Except Fault Value

/-- One of the pair of rules is guarded, and this is its key. -/
def Grammar.KeyAmong (g : Grammar ρ) (rules : List ρ) (k : ρ) : Prop :=
  ∃ r ∈ rules, (g.rule r).guard.isSome = true ∧ g.namesake r = k

section

variable [DecidableEq ρ]

/-- The parser asks for none of these rules that is guarded. -/
def Grammar.Avoids (g : Grammar ρ) (rules : List ρ) (parser : Parser ρ) : Prop :=
  ∀ depth p, ∀ a ∈ (g.read g.namesake depth parser p).asked, ¬ g.KeyAmong rules a.1

variable {g : Grammar ρ} {parser : Parser ρ} {depth : Nat} {p q : Point} {rules : List ρ}

/-- Rules that a parser does not ask for may be in scope wherever it is read. -/
theorem Grammar.Avoids.read_eq (h : g.Avoids rules parser) {scope : Scope ρ}
    (hscope : ∀ k, scope.best k ≠ none → g.KeyAmong rules k) :
    parser.read (g.readCall g.namesake depth scope) q = g.read g.namesake depth parser q := by
  refine Grammar.read_inScope (fun a => ¬ g.KeyAmong rules a.1) ?_ (h depth q)
  intro k hk
  by_contra hne
  exact hk (hscope k hne)

theorem Grammar.Avoids.outcome_eq (h : g.Avoids rules parser) {scope : Scope ρ}
    (hscope : ∀ k, scope.best k ≠ none → g.KeyAmong rules k)
    (hdepth : g.callBound q.remaining ≤ depth) :
    (parser.read (g.readCall g.namesake depth scope) q).outcome = reading g parser q := by
  rw [h.read_eq hscope, LeftRule.reading_eq hdepth]

/-- Where no rule is unfinished, a parser further on is read as from there. -/
theorem outcome_behind (h : q.remaining ≤ p.remaining) (parser : Parser ρ) :
    (parser.read (g.readCall g.namesake (g.nestingBound p.remaining) (.empty p.remaining))
      q).outcome = reading g parser q := by
  rw [Grammar.read_inScope (fun _ => True) (fun _ _ => rfl) fun _ _ => trivial]
  exact LeftRule.reading_eq ((g.callBound_le h).trans (g.callBound_le_nestingBound _))

/-- What follows in a row is read from where it begins. -/
theorem reading_sequence (first second : Parser ρ) (p : Point) :
    reading g (.sequence [first, second]) p = reading g first p >>= fun
      | none => .ok none
      | some m => reading g second m.rest >>= fun
          | none => .ok none
          | some m' => .ok (some ⟨m'.rest, .tuple [m.value, m'.value]⟩) := by
  change ((Parser.sequence [first, second]).read _ p).outcome = _
  rw [Parser.outcome_sequence, Parser.outcome_readAll_cons, outcome_behind le_rfl]
  cases hm : reading g first p with
  | error stop => rfl
  | ok result =>
    cases result with
    | none => rfl
    | some m =>
      rw [ok_bind, ok_bind]
      dsimp only
      rw [Parser.outcome_readAll_cons, outcome_behind (reading_ahead hm).le]
      cases reading g second m.rest with
      | error stop => rfl
      | ok result => cases result <;> rfl

end

namespace Relay

/-- The parser with the tail behind it, or else the base. -/
def body (l : Relay ρ) (head : Parser ρ) : Parser ρ :=
  .alt [.mapped (.sequence [head, l.tail]) l.change, l.base]

/-- Two rules of the grammar begin with one another, of which the outer one is guarded, and
do not share a name. -/
structure Mutual (outer inner : Relay ρ) (g : Grammar ρ) (r r' : ρ) : Prop where
  outer_body : (g.rule r).body = outer.body (.ref r')
  inner_body : (g.rule r').body = inner.body (.ref r)
  guarded : (g.rule r).guard.isSome = true
  apart : ¬ g.Namesakes r r'

/-- The rules have different keys. -/
theorem Mutual.key_ne {outer inner : Relay ρ} {g : Grammar ρ} {r r' : ρ}
    (h : Mutual outer inner g r r') (hk : g.NamesKnown) :
    g.namesake r' ≠ g.namesake r := fun heq =>
  h.apart ((Grammar.keysFit_namesake hk h.guarded r').1 heq.symm)

/-- What is made of the value so far and those of both tails. -/
def combine (outer inner : Relay ρ) : Value → Except Fault Value
  | .tuple [v, .tuple [w, w']] => do outer.change (.tuple [← inner.change (.tuple [v, w]), w'])
  | v => .ok v

/-- The base of the inner rule and the tail of the outer one, or else the base of that, and
from then on both tails. -/
def loop (outer inner : Relay ρ) : LeftRule ρ where
  base := outer.body inner.base
  tails := [(.sequence [inner.tail, outer.tail], combine outer inner)]

section

variable {l : Relay ρ} {head : Parser ρ} {call : ρ → Point → Account κ (Option Found)} {p : Point}

/-- The body does not ask for more than its head, its tail and its base. -/
theorem asksOnly_body {allowed : κ × Nat → Prop} (hhead : (head.read call p).AsksOnly allowed)
    (htail : ∀ q, (l.tail.read call q).AsksOnly allowed)
    (hbase : (l.base.read call p).AsksOnly allowed) :
    ((l.body head).read call p).AsksOnly allowed := by
  have hrow : (Parser.readAll call [head, l.tail] p).AsksOnly allowed := by
    refine .bind hhead fun result => ?_
    cases result with
    | none => exact .pure _
    | some m =>
      refine .bind (.bind (htail m.rest) fun result => ?_) fun _ => .pure _
      cases result with
      | none => exact .pure _
      | some t => exact .bind (.pure _) fun _ => .pure _
  refine .bind (.bind (.bind hrow fun _ => .pure _) fun result => ?_) fun result => ?_
  · cases result with
    | none => exact .pure _
    | some m => exact .bind nofun fun _ => .pure _
  · cases result with
    | none =>
      refine .bind hbase fun result => ?_
      cases result <;> exact .pure _
    | some m => exact .pure _

/-- The body asks for what its head asks for. -/
theorem mem_asked_body {a : κ × Nat} (h : a ∈ (head.read call p).asked) :
    a ∈ ((l.body head).read call p).asked := by
  have hrow : a ∈ (Parser.readAll call [head, l.tail] p).asked := Account.mem_asked_bind h _
  have hbranch : a ∈ ((Parser.mapped (.sequence [head, l.tail]) l.change).read call p).asked :=
    Account.mem_asked_bind (Account.mem_asked_bind hrow _) _
  exact Account.mem_asked_bind hbranch _

end

variable [DecidableEq ρ]

/-- Goes on by the tail from what the other rule has come to, or else begins with the base. -/
def readFrom (l : Relay ρ) (g : Grammar ρ) (p : Point) : Option Found → Except Stop (Option Found)
  | none => reading g l.base p
  | some m => do
    match ← reading g l.tail m.rest with
    | none => reading g l.base p
    | some t => return some ⟨t.rest, ← (l.change (.tuple [m.value, t.value])).mapError .fault⟩

/-- What the outer rule begins with. -/
def readBase (outer inner : Relay ρ) (g : Grammar ρ) (p : Point) : Except Stop (Option Found) := do
  outer.readFrom g p (← reading g inner.base p)

/-- Goes on by both tails, where the base of the outer rule is read if the second one does
not follow. -/
def readOn (outer inner : Relay ρ) (g : Grammar ρ) (p : Point) (m : Found) :
    Except Stop (Option Found) := do
  match ← reading g inner.tail m.rest with
  | none => return none
  | some t =>
    let value ← (inner.change (.tuple [m.value, t.value])).mapError .fault
    match ← reading g outer.tail t.rest with
    | none =>
      let _ ← reading g outer.base p
      return none
    | some t' => return some ⟨t'.rest, ← (outer.change (.tuple [value, t'.value])).mapError .fault⟩

variable {l outer inner : Relay ρ} {g : Grammar ρ} {r r' : ρ} {p : Point} {depth : Nat}
  {best : Option Found} {m : Found}

/-- A body comes out by what its parts do. -/
theorem outcome_body {head : Parser ρ} {call : ρ → Point → Account κ (Option Found)}
    {result : Except Stop (Option Found)} (hhead : (head.read call p).outcome = result)
    (htail : ∀ m, result = .ok (some m) →
      (l.tail.read call m.rest).outcome = reading g l.tail m.rest)
    (hbase : (l.base.read call p).outcome = reading g l.base p) :
    ((l.body head).read call p).outcome = result >>= l.readFrom g p := by
  change (Parser.readFirst call [_, _] p).outcome = _
  rw [Parser.outcome_readFirst_cons, Parser.outcome_readFirst_single, hbase,
    Parser.outcome_mapped, Parser.outcome_sequence, Parser.outcome_readAll_cons, hhead]
  cases result with
  | error stop => rfl
  | ok result =>
    cases result with
    | none => rfl
    | some m =>
      rw [ok_bind, ok_bind, readFrom]
      dsimp only
      rw [Parser.outcome_readAll_cons, htail m rfl]
      cases reading g l.tail m.rest with
      | error stop => rfl
      | ok result =>
        cases result with
        | none => rfl
        | some t =>
          change ((Except.mapError Stop.fault (l.change (.tuple [m.value, t.value])) >>= _ :
            Except Stop _) >>= _ : Except Stop _) = _
          rw [ok_bind]
          dsimp only
          cases l.change (.tuple [m.value, t.value]) <;> rfl

theorem readFrom_remaining_le (hbest : ∀ m, best = some m → m.rest.remaining ≤ p.remaining)
    (h : l.readFrom g p best = .ok (some m)) : m.rest.remaining ≤ p.remaining := by
  cases best with
  | none => exact (reading_ahead h).le
  | some m' =>
    obtain ⟨result, ht, h⟩ := bind_eq_ok.1 h
    cases result with
    | none => exact (reading_ahead h).le
    | some t =>
      obtain ⟨value, -, h⟩ := bind_eq_ok.1 h
      cases h
      exact (reading_ahead ht).le.trans (hbest m' rfl)

/-- A scope at the point with the best result of the outer rule, and none of other rules than
these two. -/
structure Within (g : Grammar ρ) (r r' : ρ) (p : Point) (best : Option Found)
    (scope : Scope ρ) : Prop where
  position_eq : scope.position = p.remaining
  best_eq : scope.best (g.namesake r) = some best
  among : ∀ k, scope.best k ≠ none → g.KeyAmong [r, r'] k

theorem Mutual.within_outer (h : Mutual outer inner g r r') :
    Within g r r' p best ((Scope.empty p.remaining).add (g.namesake r) best) where
  position_eq := rfl
  best_eq := if_pos rfl
  among k hk := by
    by_contra hne
    refine hk (Scope.best_add_of_ne fun heq => hne ?_)
    exact ⟨r, List.mem_cons_self, h.guarded, heq.symm⟩

theorem Within.add {scope : Scope ρ} (h : Within g r r' p best scope)
    (hne : g.namesake r' ≠ g.namesake r) (hr : (g.rule r').guard.isSome = true)
    (best' : Option Found) : Within g r r' p best (scope.add (g.namesake r') best') where
  position_eq := h.position_eq
  best_eq := (Scope.best_add_of_ne hne.symm).trans h.best_eq
  among k hk := by
    by_cases heq : k = g.namesake r'
    · exact ⟨r', List.mem_cons_of_mem _ List.mem_cons_self, hr, heq.symm⟩
    · rw [Scope.best_add_of_ne heq] at hk
      exact h.among k hk

section

variable (h : Mutual outer inner g r r') (hk : g.NamesKnown)
  (hinner : g.Avoids [r, r'] inner.tail ∧ g.Avoids [r, r'] inner.base)
  (hdepth : g.callBound p.remaining ≤ depth + 1)
  (hbest : ∀ m, best = some m → m.rest.remaining ≤ p.remaining)

include h hinner

/-- Within the outer rule, the body of the inner one does not ask for it. -/
theorem asksOnly_inner (hk : g.NamesKnown) (hr : (g.rule r').guard.isSome = true)
    {scope : Scope ρ} (hs : Within g r r' p best scope) :
    ((g.rule r').body.read (g.readCall g.namesake (depth + 1) scope) p).AsksOnly
      fun a => a.1 ≠ g.namesake r' := by
  have hkey : g.KeyAmong [r, r'] (g.namesake r') :=
    ⟨r', List.mem_cons_of_mem _ List.mem_cons_self, hr, rfl⟩
  have havoids : ∀ {parser : Parser ρ}, g.Avoids [r, r'] parser → ∀ q,
      (parser.read (g.readCall g.namesake (depth + 1) scope) q).AsksOnly
        fun a => a.1 ≠ g.namesake r' := by
    intro parser havoids q a ha heq
    rw [havoids.read_eq hs.among] at ha
    exact havoids _ q a ha (heq ▸ hkey)
  rw [h.inner_body]
  refine asksOnly_body ?_ (havoids hinner.1) (havoids hinner.2 p)
  rw [Parser.read, Grammar.readCall_inScope hs.position_eq hs.best_eq h.guarded]
  intro a ha heq
  rw [List.mem_singleton.1 ha] at heq
  exact h.key_ne hk heq.symm

include hdepth hbest

/-- Within the outer rule, the body of the inner one goes on from the best result of that, or
begins with its base. -/
theorem outcome_inner {scope : Scope ρ} (hs : Within g r r' p best scope) :
    ((g.rule r').body.read (g.readCall g.namesake (depth + 1) scope) p).outcome =
      inner.readFrom g p best := by
  have hhead : ((Parser.ref r).read (g.readCall g.namesake (depth + 1) scope) p).outcome =
      .ok best := by
    rw [Parser.read, Grammar.readCall_inScope hs.position_eq hs.best_eq h.guarded]
  rw [h.inner_body, outcome_body hhead ?_ ?_]
  · rfl
  · rintro m ⟨⟩
    exact hinner.1.outcome_eq hs.among ((g.callBound_le (hbest m rfl)).trans hdepth)
  · exact hinner.2.outcome_eq hs.among hdepth

/-- So does the inner rule, whether it is guarded or not. -/
theorem readCall_inner (hk : g.NamesKnown) :
    (g.readCall g.namesake (depth + 2) ((Scope.empty p.remaining).add (g.namesake r) best)
      r' p).outcome = inner.readFrom g p best := by
  have hs : Within g r r' p best _ := h.within_outer
  have hmoved := Scope.movedTo_self hs.position_eq
  by_cases hr : (g.rule r').guard.isSome = true
  · have hne := h.key_ne hk
    rw [Grammar.readCall_outcome hr (by rw [hmoved]; exact Scope.best_add_of_ne hne), hmoved,
      Scope.evaluate_eq_of_not_asked]
    · exact outcome_inner h hinner hdepth hbest (hs.add hne hr none)
    · intro hasked
      exact asksOnly_inner h hinner hk hr (hs.add hne hr none) _ hasked rfl
  · rw [Grammar.readCall_plain (Option.not_isSome_iff_eq_none.1 hr), hmoved]
    exact outcome_inner h hinner hdepth hbest hs

/-- The body of the outer rule goes on from what the inner one has come to. -/
theorem readBody_outer (hk : g.NamesKnown)
    (houter : g.Avoids [r, r'] outer.tail ∧ g.Avoids [r, r'] outer.base) :
    (g.readBody g.namesake (depth + 2) r p best).outcome =
      inner.readFrom g p best >>= outer.readFrom g p := by
  have hs : Within g r r' p best _ := h.within_outer
  rw [Grammar.readBody, h.outer_body]
  refine outcome_body (readCall_inner h hinner hdepth hbest hk) (fun m hm => ?_) ?_
  · refine houter.1.outcome_eq hs.among ((g.callBound_le ?_).trans (hdepth.trans (Nat.le_succ _)))
    exact readFrom_remaining_le hbest hm
  · exact houter.2.outcome_eq hs.among (hdepth.trans (Nat.le_succ _))

end

/-- The body of the outer rule asks for it. -/
theorem mem_asked_outer (h : Mutual outer inner g r r') (hk : g.NamesKnown) :
    (g.namesake r, p.remaining) ∈ (g.readBody g.namesake (depth + 2) r p best).asked := by
  have hbody : ∀ {scope : Scope ρ}, Within g r r' p best scope → (g.namesake r, p.remaining) ∈
      ((g.rule r').body.read (g.readCall g.namesake (depth + 1) scope) p).asked := by
    intro scope hs
    rw [h.inner_body]
    refine mem_asked_body ?_
    rw [Parser.read, Grammar.readCall_inScope hs.position_eq hs.best_eq h.guarded]
    exact List.mem_singleton_self _
  have hs : Within g r r' p best _ := h.within_outer
  rw [Grammar.readBody, h.outer_body]
  refine mem_asked_body ?_
  rw [Parser.read, Grammar.readCall]
  unfold Grammar.readRule
  refine List.mem_append_right _ ?_
  rw [Scope.movedTo_self hs.position_eq]
  cases hr : (g.rule r').guard with
  | none => exact hbody hs
  | some guard =>
    have hne := h.key_ne hk
    have hguarded : (g.rule r').guard.isSome = true := by
      rw [hr]
      rfl
    dsimp only
    rw [Scope.best_add_of_ne hne]
    exact Scope.mem_asked_evaluate _ (hbody (hs.add hne hguarded none))

/-- In a round of the outer rule there is a next result of both tails, or else the base of the
outer rule is read or that of the inner one with the tail of the outer one behind it, which
gives nothing new. -/
theorem round_outer {first : Found} (hfirst : readBase outer inner g p = .ok (some first))
    (hsame : ∀ m, reading g outer.base p = .ok (some m) → m = first)
    (hle : m.rest.remaining ≤ first.rest.remaining) :
    ∃ last, m.NotBefore last ∧
      (inner.readFrom g p (some m) >>= outer.readFrom g p) = (readOn outer inner g p m >>= fun
        | none => .ok last
        | some m' => .ok (some m')) := by
  rw [readFrom, readOn]
  cases reading g inner.tail m.rest with
  | error stop => exact ⟨none, .none m, rfl⟩
  | ok result =>
    cases result with
    | none => exact ⟨some first, .some hle, hfirst⟩
    | some t =>
      rw [ok_bind, ok_bind]
      dsimp only
      cases inner.change (.tuple [m.value, t.value]) with
      | error fault => exact ⟨none, .none m, rfl⟩
      | ok value =>
        change ∃ last, _ ∧ outer.readFrom g p (some ⟨t.rest, value⟩) = _
        rw [readFrom]
        change ∃ last, _ ∧ _ = ((reading g outer.tail t.rest >>= _ : Except Stop _) >>= _)
        cases reading g outer.tail t.rest with
        | error stop => exact ⟨none, .none m, rfl⟩
        | ok result =>
          cases result with
          | none =>
            cases hbase : reading g outer.base p with
            | error stop => exact ⟨none, .none m, rfl⟩
            | ok result =>
              refine ⟨result, ?_, rfl⟩
              rintro m' rfl
              rw [hsame m' hbase]
              exact hle
          | some t' =>
            refine ⟨none, .none m, ?_⟩
            change _ = ((Except.mapError Stop.fault _ >>= _ : Except Stop _) >>= _)
            rw [ok_bind]
            dsimp only
            cases outer.change (.tuple [value, t'.value]) <;> rfl

/-- The outer rule is read as the loop that begins with its first result and goes on by both
tails, if only one of the ways to begin matches. -/
theorem reading_outer (h : Mutual outer inner g r r') (hk : g.NamesKnown)
    (houter : g.Avoids [r, r'] outer.tail ∧ g.Avoids [r, r'] outer.base)
    (hinner : g.Avoids [r, r'] inner.tail ∧ g.Avoids [r, r'] inner.base)
    (hsame : ∀ first m, readBase outer inner g p = .ok (some first) →
      reading g outer.base p = .ok (some m) → m = first) :
    reading g (.ref r) p = Scope.climbFrom p.remaining (readBase outer inner g p)
      (readOn outer inner g p) := by
  have hdepth : g.callBound p.remaining ≤ g.callBound p.remaining + 1 := Nat.le_succ _
  rw [← LeftRule.reading_eq (hdepth.trans (Nat.le_add_right _ 2)),
    Grammar.read_ref_outcome h.guarded]
  refine Scope.evaluate_outcome ?_ (mem_asked_outer h hk) fun first m hfirst hm hle => ?_
  · exact readBody_outer h hinner hdepth nofun hk houter
  · rw [readBody_outer h hinner hdepth (by rintro m' ⟨⟩; exact hm.le) hk houter]
    exact round_outer hfirst (hsame first · hfirst) hle

/-- Two rules that begin with one another do so if the inner one is not guarded. -/
theorem Mutual.unguarded (h : Mutual outer inner g r r') (hk : g.NamesKnown) :
    Mutual outer inner (g.unguarded r') r r' where
  outer_body := Grammar.body_unguarded.trans h.outer_body
  inner_body := Grammar.body_unguarded.trans h.inner_body
  guarded := by
    rw [Grammar.rule_unguarded_of_ne fun heq => h.key_ne hk (congrArg g.namesake heq.symm)]
    exact h.guarded
  apart hnamesakes := (Grammar.namesakes_unguarded.1 hnamesakes).2.1 rfl

section

variable (h : Mutual outer inner g r r') (hk : g.NamesKnown)
  (hr : (g.rule r').guard.isSome = true)

include hk hr

/-- What asks for neither rule is read as before. -/
theorem read_unguarded {parser : Parser ρ} (ha : g.Avoids [r, r'] parser) (depth : Nat)
    (p : Point) : (g.unguarded r').read (g.unguarded r').namesake depth parser p =
      g.read g.namesake depth parser p :=
  Grammar.read_unguarded hk fun position hasked => ha depth p (g.namesake r', position) hasked
    ⟨r', List.mem_cons_of_mem _ List.mem_cons_self, hr, rfl⟩

theorem readFrom_unguarded (hl : g.Avoids [r, r'] l.tail ∧ g.Avoids [r, r'] l.base) :
    l.readFrom (g.unguarded r') p best = l.readFrom g p best := by
  have hreading : ∀ {parser : Parser ρ}, g.Avoids [r, r'] parser → ∀ q,
      reading (g.unguarded r') parser q = reading g parser q :=
    fun ha q => congrArg Account.outcome (read_unguarded hk hr ha _ q)
  cases best with
  | none => exact hreading hl.2 p
  | some m => rw [readFrom, readFrom, hreading hl.1, hreading hl.2]

include h

theorem avoids_unguarded {parser : Parser ρ} (ha : g.Avoids [r, r'] parser) :
    (g.unguarded r').Avoids [r, r'] parser := by
  intro depth p a hmem hkey
  rw [read_unguarded hk hr ha] at hmem
  refine ha depth p a hmem ?_
  obtain ⟨r'', hr'', hguarded, heq⟩ := hkey
  have hne : ¬ g.Shares r' r := by
    rintro (heq | hnamesakes)
    · exact h.key_ne hk (congrArg g.namesake heq.symm)
    · exact h.apart hnamesakes.symm
  rcases List.mem_cons.1 hr'' with rfl | hr''
  · rw [Grammar.namesake_unguarded hne] at heq
    exact ⟨r'', List.mem_cons_self, h.guarded, heq⟩
  · rw [List.mem_singleton.1 hr'', Grammar.rule_unguarded_self] at hguarded
    cases hguarded

/-- The outer rule is read in the same way if the inner one is not guarded. -/
theorem reading_unguarded (houter : g.Avoids [r, r'] outer.tail ∧ g.Avoids [r, r'] outer.base)
    (hinner : g.Avoids [r, r'] inner.tail ∧ g.Avoids [r, r'] inner.base) :
    reading (g.unguarded r') (.ref r) p = reading g (.ref r) p := by
  have h' := h.unguarded hk
  have hk' : (g.unguarded r').NamesKnown :=
    fun hguard => hk (Grammar.guard_unguarded_eq_some.1 hguard).2
  have hdepth : g.callBound p.remaining ≤ g.callBound p.remaining + 1 := Nat.le_succ _
  have hdepth' : (g.unguarded r').callBound p.remaining ≤ g.callBound p.remaining + 1 := hdepth
  have hbody : ∀ best : Option Found, (∀ m, best = some m → m.rest.remaining ≤ p.remaining) →
      ((g.unguarded r').readBody (g.unguarded r').namesake (g.callBound p.remaining + 2) r p
        best).outcome =
        (g.readBody g.namesake (g.callBound p.remaining + 2) r p best).outcome := by
    intro best hbest
    rw [readBody_outer h hinner hdepth hbest hk houter,
      readBody_outer h' ⟨avoids_unguarded h hk hr hinner.1, avoids_unguarded h hk hr hinner.2⟩
        hdepth' hbest hk' ⟨avoids_unguarded h hk hr houter.1, avoids_unguarded h hk hr houter.2⟩,
      readFrom_unguarded hk hr hinner]
    exact congrArg _ (funext fun best' => readFrom_unguarded hk hr houter)
  rw [← LeftRule.reading_eq (hdepth.trans (Nat.le_add_right _ 2)),
    ← LeftRule.reading_eq (hdepth'.trans (Nat.le_add_right _ 2)),
    Grammar.read_ref_outcome h.guarded, Grammar.read_ref_outcome h'.guarded]
  refine Scope.evaluate_outcome_congr (mem_asked_outer h' hk') (mem_asked_outer h hk)
    (hbody none nofun) fun m hm => hbody (some m) ?_
  rintro m' ⟨⟩
  exact hm.le

end

/-- The base of the loop is what the outer rule begins with. -/
theorem reading_loop_base : reading g (loop outer inner).base p = readBase outer inner g p :=
  outcome_body rfl (fun _ hm => outcome_behind (reading_ahead hm).le _) rfl

/-- The tail of the loop is both tails, if the inner rule makes something of all values, and
unless the base of the outer rule stops. -/
theorem readOn_eq_readTail (hchange : ∀ v, ∃ w, inner.change v = .ok w) (m : Found) :
    readOn outer inner g p m = readTail g (loop outer inner).tails m ∨
      ∃ stop, reading g outer.base p = .error stop ∧ readOn outer inner g p m = .error stop := by
  change _ = readTail g [(.sequence [inner.tail, outer.tail], combine outer inner)] m ∨ _
  rw [readOn, readTail, reading_sequence]
  cases reading g inner.tail m.rest with
  | error stop => exact .inl rfl
  | ok result =>
    cases result with
    | none => exact .inl rfl
    | some t =>
      obtain ⟨value, hvalue⟩ := hchange (.tuple [m.value, t.value])
      rw [ok_bind, ok_bind]
      dsimp only
      rw [hvalue]
      cases reading g outer.tail t.rest with
      | error stop => exact .inl rfl
      | ok result =>
        cases result with
        | none =>
          cases reading g outer.base p with
          | error stop => exact .inr ⟨stop, rfl, rfl⟩
          | ok result => exact .inl rfl
        | some t' =>
          left
          change _ = (Except.mapError Stop.fault
            (inner.change (.tuple [m.value, t.value]) >>= _) >>= _ : Except Stop _)
          rw [hvalue]
          rfl

/-- The outer rule is read as the loop, or stops where its base does. -/
theorem reading_eq_readLoop (h : Mutual outer inner g r r') (hk : g.NamesKnown)
    (houter : g.Avoids [r, r'] outer.tail ∧ g.Avoids [r, r'] outer.base)
    (hinner : g.Avoids [r, r'] inner.tail ∧ g.Avoids [r, r'] inner.base)
    (hchange : ∀ v, ∃ w, inner.change v = .ok w)
    (hsame : ∀ first m, readBase outer inner g p = .ok (some first) →
      reading g outer.base p = .ok (some m) → m = first) :
    reading g (.ref r) p = (loop outer inner).readLoop g p ∨
      ∃ stop, reading g outer.base p = .error stop ∧ reading g (.ref r) p = .error stop := by
  rw [reading_outer h hk houter hinner hsame, LeftRule.readLoop_eq_climbFrom, reading_loop_base]
  cases hbase : reading g outer.base p with
  | error stop =>
    have hnext : ∀ m, readOn outer inner g p m = readTail g (loop outer inner).tails m ∨
        readOn outer inner g p m = .error stop := by
      intro m
      rcases readOn_eq_readTail hchange m with heq | ⟨stop', hstop, heq⟩
      · exact .inl heq
      · rw [hbase] at hstop
        cases hstop
        exact .inr heq
    refine (Scope.climbFrom_stopped hnext _ _).imp_right fun heq => ?_
    exact ⟨stop, rfl, heq⟩
  | ok result =>
    have hnext : readOn outer inner g p = readTail g (loop outer inner).tails := by
      funext m
      rcases readOn_eq_readTail hchange m with heq | ⟨stop, hstop, -⟩
      · exact heq
      · rw [hbase] at hstop
        cases hstop
    left
    rw [hnext]

/-- If the ways to begin do not both match, only the one that does is the first result. -/
theorem readBase_same (happart : ∀ m m', reading g outer.base p = .ok (some m) →
      reading g (.sequence [inner.base, outer.tail]) p ≠ .ok (some m'))
    (first m : Found) (hfirst : readBase outer inner g p = .ok (some first))
    (hm : reading g outer.base p = .ok (some m)) : m = first := by
  have hbase : reading g outer.base p = .ok (some first) → m = first := by
    intro h
    rw [hm] at h
    cases h
    rfl
  obtain ⟨result, hresult, hfirst⟩ := bind_eq_ok.1 hfirst
  cases result with
  | none => exact hbase hfirst
  | some n =>
    obtain ⟨result, ht, hfirst⟩ := bind_eq_ok.1 hfirst
    cases result with
    | none => exact hbase hfirst
    | some t =>
      refine absurd ?_ (happart m ⟨t.rest, .tuple [n.value, t.value]⟩ hm)
      rw [reading_sequence, hresult, ok_bind]
      dsimp only
      rw [ht]
      rfl

end Relay

end SeedGrowth
