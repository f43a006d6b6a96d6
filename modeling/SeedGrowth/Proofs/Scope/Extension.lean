import Mathlib.Order.Lattice
import SeedGrowth.Proofs.Program
import SeedGrowth.Proofs.Scope.Basic

/-!
# Accounts that extend others

An evaluation by scopes that ends stays as it is if calls may be nested deeper, and if
rules that it does not call come into scope. Both are said by one relation between
accounts, with one lemma for each way to build them.
-/
namespace SeedGrowth

variable {ρ κ α β : Type}

/-- The point is the other one, or further on. -/
def Point.Ahead (s' s : Point) : Prop := s' = s ∨ s'.remaining < s.remaining

theorem Point.Ahead.refl (s : Point) : s.Ahead s := .inl rfl

theorem Point.Ahead.le {s' s : Point} (h : s'.Ahead s) : s'.remaining ≤ s.remaining := by
  rcases h with rfl | h
  · exact le_rfl
  · exact h.le

theorem Point.Ahead.trans {s'' s' s : Point} (h' : s''.Ahead s') (h : s'.Ahead s) :
    s''.Ahead s := by
  rcases h' with rfl | h'
  · exact h
  · exact .inr (h'.trans_le h.le)

/-- A match of the next characters ends at the point or further on. -/
theorem Point.next_ahead {s : Point} {count : Nat} (h : count ≤ s.remaining) :
    (s.next count).rest.Ahead s := by
  cases count with
  | zero =>
    left
    obtain ⟨fragment, place⟩ := s
    simp [next]
  | succ count =>
    right
    have hlength : (s.next (count + 1)).rest.remaining = s.remaining - (count + 1) := by
      simp [next, remaining]
    omega

/-- The match, if there is one, ends at the point or further on. -/
def FoundAhead (s : Point) (result : Option Found) : Prop :=
  ∀ m, result = some m → m.rest.Ahead s

theorem FoundAhead.none (s : Point) : FoundAhead s none := by
  intro m hm
  cases hm

theorem FoundAhead.some {s : Point} {m : Found} (h : m.rest.Ahead s) : FoundAhead s (some m) := by
  intro m' hm
  cases hm
  exact h

namespace Account

/-- The evaluation does not run out of depth or of rounds. -/
def Ends (x : Account κ α) : Prop := x.outcome ≠ .error .exhausted

theorem ends_of_ok {x : Account κ α} {a : α} (h : x.outcome = .ok a) : x.Ends := by
  intro he
  rw [h] at he
  cases he

theorem bind_ok {x : Account κ α} {a : α} (h : x.outcome = .ok a) (f : α → Account κ β) :
    x >>= f = ⟨(f a).outcome, x.asked ++ (f a).asked⟩ := by
  obtain ⟨outcome, asked⟩ := x
  subst h
  rfl

theorem bind_error {x : Account κ α} {stop : Stop} (h : x.outcome = .error stop)
    (f : α → Account κ β) : x >>= f = ⟨.error stop, x.asked⟩ := by
  obtain ⟨outcome, asked⟩ := x
  subst h
  rfl

theorem bind_pure (x : Account κ α) : x >>= pure = x := by
  obtain ⟨outcome, asked⟩ := x
  cases outcome with
  | ok a =>
    change (⟨.ok a, asked ++ []⟩ : Account κ α) = ⟨.ok a, asked⟩
    rw [List.append_nil]
  | error stop => rfl

/-- An evaluation that ends and calls rules only as is allowed comes out the same by the
other account, with an answer as stated. -/
def ExtendedBy (allowed : κ × Nat → Prop) (x y : Account κ α) (post : α → Prop) : Prop :=
  x.Ends → (∀ a ∈ x.asked, allowed a) → y = x ∧ ∀ a, x.outcome = .ok a → post a

namespace ExtendedBy

variable {allowed : κ × Nat → Prop}

theorem pure {a : α} {post : α → Prop} (h : post a) :
    ExtendedBy allowed (Pure.pure a : Account κ α) (Pure.pure a) post := by
  intro _ _
  refine ⟨rfl, fun a' ha => ?_⟩
  cases ha
  exact h

theorem exhausted {y : Account κ α} {post : α → Prop} :
    ExtendedBy allowed Account.exhausted y post := by
  intro h
  exact absurd rfl h

theorem lift (x : Except Fault α) :
    ExtendedBy allowed (Account.lift x) (Account.lift x) fun _ => True := by
  intro _ _
  exact ⟨rfl, fun _ _ => trivial⟩

theorem bind {x y : Account κ α} {f f' : α → Account κ β} {mid : α → Prop} {post : β → Prop}
    (hx : ExtendedBy allowed x y mid)
    (hf : ∀ a, mid a → ExtendedBy allowed (f a) (f' a) post) :
    ExtendedBy allowed (x >>= f) (y >>= f') post := by
  intro hends hallowed
  cases h : x.outcome with
  | ok a =>
    rw [bind_ok h] at hends hallowed ⊢
    obtain ⟨rfl, hmid⟩ := hx (ends_of_ok h) fun a ha => hallowed a (List.mem_append_left _ ha)
    obtain ⟨heq, hpost⟩ := hf a (hmid a h) hends fun a ha => hallowed a (List.mem_append_right _ ha)
    rw [bind_ok h, heq]
    exact ⟨rfl, hpost⟩
  | error stop =>
    rw [bind_error h] at hends hallowed ⊢
    have hxends : x.Ends := by
      intro he
      rw [h] at he
      cases he
      exact hends rfl
    obtain ⟨rfl, -⟩ := hx hxends hallowed
    rw [bind_error h]
    refine ⟨rfl, fun b hb => ?_⟩
    cases hb

/-- Calls of rules are allowed wherever they are made. -/
theorem ask {key : κ} {position : Nat} {y y' : Account κ α} {post : α → Prop}
    (h : allowed (key, position) → ExtendedBy allowed y y' post) :
    ExtendedBy allowed (Account.ask key position >>= fun _ => y)
      (Account.ask key position >>= fun _ => y') post := by
  intro hends hallowed
  have hask : allowed (key, position) := hallowed _ List.mem_cons_self
  obtain ⟨rfl, hpost⟩ := h hask hends fun a ha => hallowed a (List.mem_cons_of_mem _ ha)
  exact ⟨rfl, hpost⟩

theorem listen {x y : Account κ α} {post : α → Prop} (h : ExtendedBy allowed x y post) :
    ExtendedBy allowed x.listen y.listen fun (a, _) => post a := by
  intro hends hallowed
  have hxends : x.Ends := by
    intro hx
    rw [Ends, Account.listen, hx] at hends
    exact hends rfl
  obtain ⟨rfl, hpost⟩ := h hxends hallowed
  refine ⟨rfl, fun (a, asked) ha => hpost a ?_⟩
  unfold Account.listen at ha
  cases hy : y.outcome with
  | ok a' =>
    rw [hy] at ha
    cases ha
    rfl
  | error stop =>
    rw [hy] at ha
    cases ha

end ExtendedBy

end Account

open Account (ExtendedBy)

namespace Parser

variable {allowed : κ × Nat → Prop} {call call' : ρ → Point → Account κ (Option Found)}

theorem readRepeat_extended {parser parser' : Point → Account κ (Option Found)} {start : Point}
    (h : ∀ s, s.Ahead start → ExtendedBy allowed (parser s) (parser' s) (FoundAhead s)) :
    ∀ (rounds : Nat) (s : Point), s.Ahead start →
      ExtendedBy allowed (readRepeat parser rounds s) (readRepeat parser' rounds s)
        fun (rest, _) => rest.Ahead s := by
  intro rounds
  induction rounds with
  | zero => exact fun _ _ => .exhausted
  | succ rounds ih =>
    intro s hs
    rw [readRepeat, readRepeat]
    refine .bind (h s hs) ?_
    intro result hresult
    cases result with
    | none => exact .pure (.refl s)
    | some m =>
      have hm := hresult m rfl
      dsimp only
      split
      · exact .pure (.refl s)
      · refine .bind (ih m.rest (hm.trans hs)) ?_
        intro (rest, values) hrest
        exact .pure (hrest.trans hm)

mutual

/-- What a parser reads stays as it is if calls of rules do, at the point and further on. -/
theorem read_extended {start : Point} (h : ∀ r s, s.Ahead start →
    ExtendedBy allowed (call r s) (call' r s) (FoundAhead s)) :
    ∀ (parser : Parser ρ) (s : Point), s.Ahead start →
      ExtendedBy allowed (parser.read call s) (parser.read call' s) (FoundAhead s)
  | tag text, s, _ => by
    refine .pure ?_
    split
    · next hp => exact .some (Point.next_ahead (List.isPrefixOf_iff_prefix.1 hp).length_le)
    · exact .none s
  | scanner rule, s, _ => by
    refine .pure ?_
    cases hscan : rule.scan s.fragment with
    | none => exact .none s
    | some count => exact .some (Point.next_ahead (rule.scan_le hscan))
  | eof, s, _ => by
    refine .pure ?_
    split
    · exact .some (.refl s)
    · exact .none s
  | alt branches, s, hs => readFirst_extended h branches s hs
  | sequence items, s, hs => by
    refine .bind (readAll_extended h items s hs) ?_
    intro result hresult
    refine .pure ?_
    cases result with
    | none => exact .none s
    | some pair => exact .some (hresult pair rfl)
  | mapped parser change, s, hs => by
    refine .bind (read_extended h parser s hs) ?_
    intro result hresult
    cases result with
    | none => exact .pure (.none s)
    | some m => exact .bind (.lift _) fun _ _ => .pure (.some (hresult m rfl))
  | opt parser, s, hs => by
    refine .bind (read_extended h parser s hs) ?_
    intro result hresult
    cases result with
    | none => exact .pure (.some (.refl s))
    | some m => exact .pure hresult
  | many parser, s, hs => by
    have hparser : ∀ s', s'.Ahead start → ExtendedBy allowed (parser.read call s')
        (parser.read call' s') (FoundAhead s') := read_extended h parser
    refine .bind (readRepeat_extended hparser _ s hs) ?_
    intro (rest, values) hrest
    exact .pure (.some hrest)
  | ref rule, s, hs => h rule s hs
  | peek _, s, _ | absent _, s, _ | .edit _, s, _ | reveal, s, _ | probe _, s, _
  | watch _ _, s, _ => .pure (.none s)

theorem readFirst_extended {start : Point} (h : ∀ r s, s.Ahead start →
    ExtendedBy allowed (call r s) (call' r s) (FoundAhead s)) :
    ∀ (branches : List (Parser ρ)) (s : Point), s.Ahead start →
      ExtendedBy allowed (readFirst call branches s) (readFirst call' branches s) (FoundAhead s)
  | [], s, _ => .pure (.none s)
  | parser :: rest, s, hs => by
    refine .bind (read_extended h parser s hs) ?_
    intro result hresult
    cases result with
    | none => exact readFirst_extended h rest s hs
    | some m => exact .pure hresult

theorem readAll_extended {start : Point} (h : ∀ r s, s.Ahead start →
    ExtendedBy allowed (call r s) (call' r s) (FoundAhead s)) :
    ∀ (items : List (Parser ρ)) (s : Point), s.Ahead start →
      ExtendedBy allowed (readAll call items s) (readAll call' items s)
        fun result => ∀ pair, result = some pair → pair.1.Ahead s
  | [], s, _ => by
    refine .pure ?_
    intro pair hpair
    cases hpair
    exact .refl s
  | parser :: rest, s, hs => by
    refine .bind (read_extended h parser s hs) ?_
    intro result hresult
    cases result with
    | none =>
      refine .pure ?_
      intro pair hpair
      cases hpair
    | some m =>
      have hm := hresult m rfl
      refine .bind (readAll_extended h rest m.rest (hm.trans hs)) ?_
      intro answer hanswer
      refine .pure ?_
      cases answer with
      | none =>
        intro pair hpair
        cases hpair
      | some pair =>
        intro pair' hpair
        cases hpair
        exact (hanswer pair rfl).trans hm

end

end Parser

namespace Scope

variable {allowed : κ × Nat → Prop}

/-- A longer result ends further on than its beginning. -/
theorem of_longer? {position : Nat} {best result : Option Found} {m : Found}
    (h : longer? position best result = some m) :
    result = some m ∧ lengthOf position best < m.consumed position ∧
      m.rest.remaining < position := by
  obtain ⟨hm, hlt⟩ := Option.filter_eq_some_iff.1 h
  have hlt := of_decide_eq_true hlt
  refine ⟨hm, hlt, ?_⟩
  unfold Found.consumed at hlt
  omega

/-- The results that are handed out in the scope end further on than its position. -/
def Advancing (scope : Scope κ) : Prop :=
  ∀ key m, scope.best key = some (some m) → m.rest.remaining < scope.position

theorem advancing_empty (position : Nat) : (empty position : Scope κ).Advancing := by
  intro key m hm
  cases hm

theorem Advancing.movedTo {scope : Scope κ} (h : scope.Advancing) (position : Nat) :
    (scope.movedTo position).Advancing := by
  unfold Scope.movedTo
  split
  · exact h
  · exact advancing_empty position

@[simp] theorem position_movedTo (scope : Scope κ) (position : Nat) :
    (scope.movedTo position).position = position := by
  unfold movedTo
  split
  · next h => exact h
  · rfl

theorem movedTo_self {scope : Scope κ} {position : Nat} (h : scope.position = position) :
    scope.movedTo position = scope := if_pos h

@[simp] theorem movedTo_movedTo (scope : Scope κ) (position : Nat) :
    (scope.movedTo position).movedTo position = scope.movedTo position :=
  movedTo_self (scope.position_movedTo position)

theorem Advancing.add [DecidableEq κ] {scope : Scope κ} (h : scope.Advancing) (key : κ)
    {best : Option Found}
    (hb : ∀ m, best = some m → m.rest.remaining < scope.position) :
    (scope.add key best).Advancing := by
  intro key' m hm
  simp only [Scope.add] at hm ⊢
  split at hm
  · cases hm
    exact hb m rfl
  · exact h key' m hm

/-- The other scope hands out the same results to the calls that are allowed. -/
structure ExtendedBy (allowed : κ × Nat → Prop) (scope scope' : Scope κ) : Prop where
  position_eq : scope'.position = scope.position
  best_eq : ∀ key, allowed (key, scope.position) → scope'.best key = scope.best key

theorem ExtendedBy.refl (scope : Scope κ) : ExtendedBy allowed scope scope :=
  ⟨rfl, fun _ _ => rfl⟩

theorem ExtendedBy.movedTo {scope scope' : Scope κ} (h : ExtendedBy allowed scope scope')
    (position : Nat) : ExtendedBy allowed (scope.movedTo position) (scope'.movedTo position) := by
  unfold Scope.movedTo
  rw [h.position_eq]
  split
  · exact h
  · exact .refl _

theorem ExtendedBy.add [DecidableEq κ] {scope scope' : Scope κ}
    (h : ExtendedBy allowed scope scope') (key : κ) (best : Option Found) :
    ExtendedBy allowed (scope.add key best) (scope'.add key best) := by
  refine ⟨h.position_eq, fun key' hkey => ?_⟩
  simp only [Scope.add]
  split
  · rfl
  · exact h.best_eq key' hkey

theorem grow_extended {s : Point} {body body' : Option Found → Account κ (Option Found)}
    (h : ∀ best, (∀ m, best = some m → m.rest.remaining < s.remaining) →
      Account.ExtendedBy allowed (body best) (body' best) (FoundAhead s)) :
    ∀ (rounds : Nat) (best result : Option Found),
      (∀ m, best = some m → m.rest.remaining < s.remaining) →
      Account.ExtendedBy allowed (grow s.remaining body rounds best result)
        (grow s.remaining body' rounds best result) (FoundAhead s) := by
  intro rounds
  induction rounds with
  | zero =>
    intro best result hbest
    rw [grow, grow]
    cases longer? s.remaining best result with
    | none => exact .pure fun m hm => .inr (hbest m hm)
    | some m => exact .exhausted
  | succ rounds ih =>
    intro best result hbest
    rw [grow, grow]
    cases hlonger : longer? s.remaining best result with
    | none => exact .pure fun m hm => .inr (hbest m hm)
    | some m =>
      have hm : ∀ m', some m = some m' → m'.rest.remaining < s.remaining := by
        intro m' hm'
        cases hm'
        exact (of_longer? hlonger).2.2
      exact .bind (h (some m) hm) fun next _ => ih (some m) next hm

theorem evaluate_extended [DecidableEq κ] {s : Point} (key : κ)
    {body body' : Option Found → Account κ (Option Found)}
    (h : ∀ best, (∀ m, best = some m → m.rest.remaining < s.remaining) →
      Account.ExtendedBy allowed (body best) (body' best) (FoundAhead s)) :
    Account.ExtendedBy allowed (evaluate key s.remaining body) (evaluate key s.remaining body')
      (FoundAhead s) := by
  have hnone : ∀ m : Found, none = some m → m.rest.remaining < s.remaining := by
    intro m hm
    cases hm
  refine .bind (.listen (h none hnone)) ?_
  intro (result, asked) hresult
  dsimp only
  split
  · exact grow_extended h _ none result hnone
  · exact .pure hresult

end Scope

namespace Grammar

variable [DecidableEq κ] {allowed : κ × Nat → Prop} (key : ρ → κ) (g : Grammar ρ)

/-- What a call reads stays as it is if the calls in its body do. -/
theorem readRule_extended {call call' : Scope κ → ρ → Point → Account κ (Option Found)}
    {scope scope' : Scope κ} (hscope : scope.ExtendedBy allowed scope') (ha : scope.Advancing)
    {r : ρ} {s : Point}
    (hplain : (g.rule r).guard = none → ∀ r' s', s'.Ahead s →
      ExtendedBy allowed (call (scope.movedTo s.remaining) r' s')
        (call' (scope'.movedTo s.remaining) r' s') (FoundAhead s'))
    (hguarded : (g.rule r).guard.isSome → (scope.movedTo s.remaining).best (key r) = none →
      ∀ best, (∀ m, best = some m → m.rest.remaining < s.remaining) → ∀ r' s', s'.Ahead s →
        ExtendedBy allowed (call ((scope.movedTo s.remaining).add (key r) best) r' s')
          (call' ((scope'.movedTo s.remaining).add (key r) best) r' s') (FoundAhead s')) :
    ExtendedBy allowed (g.readRule key call scope r s) (g.readRule key call' scope' r s)
      (FoundAhead s) := by
  unfold readRule
  refine .ask fun hask => ?_
  cases hr : (g.rule r).guard with
  | none => exact Parser.read_extended (hplain hr) _ s (.refl s)
  | some guard =>
    have heq : (scope'.movedTo s.remaining).best (key r) =
        (scope.movedTo s.remaining).best (key r) :=
      (hscope.movedTo s.remaining).best_eq (key r) (by rwa [Scope.position_movedTo])
    dsimp only
    rw [heq]
    cases hbest : (scope.movedTo s.remaining).best (key r) with
    | none =>
      refine Scope.evaluate_extended (key r) fun best hb => ?_
      exact Parser.read_extended (hguarded (by rw [hr]; rfl) hbest best hb) _ s (.refl s)
    | some best =>
      refine .pure fun m hm => .inr ?_
      subst hm
      simpa using ha.movedTo s.remaining (key r) m hbest

/-- What a call reads stays as it is if calls may be nested deeper, and if other rules come
into scope. -/
theorem readCall_extended {depth depth' : Nat} (hle : depth ≤ depth') {scope scope' : Scope κ}
    (hscope : scope.ExtendedBy allowed scope') (ha : scope.Advancing) (r : ρ) (s : Point) :
    ExtendedBy allowed (g.readCall key depth scope r s) (g.readCall key depth' scope' r s)
      (FoundAhead s) := by
  induction depth generalizing depth' scope scope' r s with
  | zero => exact .exhausted
  | succ depth ih =>
    obtain ⟨depth', rfl⟩ : ∃ n, depth' = n + 1 := ⟨depth' - 1, by omega⟩
    have hle' : depth ≤ depth' := by omega
    rw [readCall, readCall]
    refine g.readRule_extended key hscope ha ?_ ?_
    · intro _ r' s' _
      exact ih hle' (hscope.movedTo _) (ha.movedTo _) r' s'
    · intro _ _ best hb r' s' _
      refine ih hle' ((hscope.movedTo _).add (key r) best) ((ha.movedTo _).add (key r) ?_) r' s'
      rwa [Scope.position_movedTo]

end Grammar

end SeedGrowth
