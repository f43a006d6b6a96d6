import SeedGrowth.Proofs.Scope.Growth
import SeedGrowth.Proofs.Scope.Points

/-!
# Evaluations from two beginnings

Evaluations by scopes over the same text from two places come out alike: they make the same
calls, and they both find nothing, both find the same value behind the same text, both stop
at one fault, or both run out of depth. A fault can only come from a function that some
parser changes values by. There is one lemma for each way to build evaluations.
-/
namespace SeedGrowth

variable {ρ κ α β α' β' : Type}

/-- Two evaluations end alike: with answers that are related, with one fault, which may be
raised, or both without depth. -/
inductive EndAlike (raised : Fault → Prop) (related : α → β → Prop) :
    Except Stop α → Except Stop β → Prop where
  | answered {a b} : related a b → EndAlike raised related (.ok a) (.ok b)
  | stopped {fault} : raised fault →
      EndAlike raised related (.error (.fault fault)) (.error (.fault fault))
  | exhausted : EndAlike raised related (.error .exhausted) (.error .exhausted)

/-- Two points are reached over one text from two beginnings. -/
def Point.Abreast (start start' s s' : Point) : Prop :=
  ∃ text, start.Over text s ∧ start'.Over text s'

/-- Both find nothing, or the same value at points that are abreast. -/
inductive FoundAbreast (start start' : Point) : Option Found → Option Found → Prop where
  | none : FoundAbreast start start' none none
  | some {m m'} : start.Abreast start' m.rest m'.rest → m.value = m'.value →
      FoundAbreast start start' (some m) (some m')

namespace Point

variable {start start' s s' : Point}

theorem Abreast.refl (start start' : Point) : start.Abreast start' start start' :=
  ⟨[], .refl start, .refl start'⟩

/-- Over the same text the same is left at points that are abreast. -/
theorem Abreast.fragment_eq (h : start.Abreast start' s s')
    (hstart : start'.fragment = start.fragment) : s'.fragment = s.fragment := by
  obtain ⟨text, hs, hs'⟩ := h
  rw [hs.fragment_eq, hs'.fragment_eq] at hstart
  exact List.append_cancel_left hstart

theorem Abreast.remaining_eq (h : start.Abreast start' s s')
    (hstart : start'.fragment = start.fragment) : s'.remaining = s.remaining := by
  rw [remaining, remaining, h.fragment_eq hstart]

/-- The next characters are the same. -/
theorem Abreast.next (h : start.Abreast start' s s')
    (hstart : start'.fragment = start.fragment) (count : Nat) :
    FoundAbreast start start' (some (s.next count)) (some (s'.next count)) := by
  have hfragment := h.fragment_eq hstart
  obtain ⟨text, hs, hs'⟩ := h
  refine .some ⟨text ++ s.fragment.take count, hs.trans (s.over_advance count), ?_⟩ ?_
  · rw [← hfragment]
    exact hs'.trans (s'.over_advance count)
  · simp [Point.next, hfragment]

end Point

namespace Account

/-- Two evaluations make the same calls and end alike. -/
structure Alike (raised : Fault → Prop) (related : α → β → Prop) (x : Account κ α)
    (y : Account κ β) : Prop where
  outcome : EndAlike raised related x.outcome y.outcome
  asked_eq : y.asked = x.asked

namespace Alike

variable {raised : Fault → Prop} {related : α → β → Prop} {related' : α' → β' → Prop}

theorem pure {a : α} {b : β} (h : related a b) :
    Alike raised related (Pure.pure a : Account κ α) (Pure.pure b) :=
  ⟨.answered h, rfl⟩

theorem exhausted : Alike raised related (Account.exhausted : Account κ α) Account.exhausted :=
  ⟨.exhausted, rfl⟩

theorem lift {x : Except Fault α} (h : ∀ fault, x = .error fault → raised fault) :
    Alike raised Eq (Account.lift x : Account κ α) (Account.lift x) := by
  cases x with
  | ok a => exact ⟨.answered rfl, rfl⟩
  | error fault => exact ⟨.stopped (h fault rfl), rfl⟩

theorem bind {x : Account κ α} {y : Account κ β} {f : α → Account κ α'} {f' : β → Account κ β'}
    (hx : Alike raised related x y)
    (hf : ∀ a b, related a b → Alike raised related' (f a) (f' b)) :
    Alike raised related' (x >>= f) (y >>= f') := by
  obtain ⟨outcome, asked⟩ := x
  obtain ⟨outcome', asked'⟩ := y
  obtain ⟨houtcome, hasked⟩ := hx
  cases hasked
  cases houtcome with
  | @answered a b h =>
    obtain ⟨hnext, hcalls⟩ := hf a b h
    exact ⟨hnext, congrArg _ hcalls⟩
  | stopped h => exact ⟨.stopped h, rfl⟩
  | exhausted => exact ⟨.exhausted, rfl⟩

theorem ask (key : κ) (position : Nat) :
    Alike raised (fun _ _ => True) (Account.ask key position) (Account.ask key position) :=
  ⟨.answered trivial, rfl⟩

theorem listen {x : Account κ α} {y : Account κ β} (h : Alike raised related x y) :
    Alike raised (fun (a, asked) (b, asked') => related a b ∧ asked' = asked)
      x.listen y.listen := by
  obtain ⟨outcome, asked⟩ := x
  obtain ⟨outcome', asked'⟩ := y
  obtain ⟨houtcome, hasked⟩ := h
  cases hasked
  cases houtcome with
  | answered h => exact ⟨.answered ⟨h, rfl⟩, rfl⟩
  | stopped h => exact ⟨.stopped h, rfl⟩
  | exhausted => exact ⟨.exhausted, rfl⟩

end Alike

end Account

namespace Parser

mutual

/-- The parser changes values by the function somewhere. -/
def Maps (change : Value → Except Fault Value) : Parser ρ → Prop
  | mapped parser f => f = change ∨ Maps change parser
  | alt parsers | sequence parsers => SomeMaps change parsers
  | opt parser | many parser | peek parser | absent parser | watch _ parser => Maps change parser
  | tag _ | scanner _ | eof | ref _ | .edit _ | reveal | probe _ => False

/-- One of the parsers changes values by the function. -/
def SomeMaps (change : Value → Except Fault Value) : List (Parser ρ) → Prop
  | [] => False
  | parser :: rest => Maps change parser ∨ SomeMaps change rest

end

/-- What the functions of a parser raise may be raised. -/
def RaisesOnly (raised : Fault → Prop) (parser : Parser ρ) : Prop :=
  ∀ change v fault, parser.Maps change → change v = .error fault → raised fault

variable {raised : Fault → Prop} {start start' : Point}
  {call call' : ρ → Point → Account κ (Option Found)}

theorem readRepeat_alike (hstart : start'.fragment = start.fragment)
    {parser parser' : Point → Account κ (Option Found)}
    (h : ∀ s s', start.Abreast start' s s' →
      (parser s).Alike raised (FoundAbreast start start') (parser' s')) :
    ∀ (rounds : Nat) (s s' : Point), start.Abreast start' s s' →
      (readRepeat parser rounds s).Alike raised
        (fun (rest, values) (rest', values') => start.Abreast start' rest rest' ∧ values = values')
        (readRepeat parser' rounds s') := by
  intro rounds
  induction rounds with
  | zero => exact fun _ _ _ => .exhausted
  | succ rounds ih =>
    intro s s' hs
    rw [readRepeat, readRepeat]
    refine .bind (h s s' hs) ?_
    rintro _ _ (_ | ⟨hrest, hvalue⟩)
    · exact .pure ⟨hs, rfl⟩
    · dsimp only
      rw [hrest.remaining_eq hstart, hs.remaining_eq hstart]
      split
      · exact .pure ⟨hs, rfl⟩
      · refine .bind (ih _ _ hrest) ?_
        rintro ⟨rest, values⟩ ⟨rest', values'⟩ ⟨hrest', rfl⟩
        exact .pure ⟨hrest', by rw [hvalue]⟩

mutual

/-- Parsers read alike if calls of rules do. -/
theorem read_alike (hstart : start'.fragment = start.fragment)
    (h : ∀ r s s', start.Abreast start' s s' →
      (call r s).Alike raised (FoundAbreast start start') (call' r s')) :
    ∀ (parser : Parser ρ), parser.RaisesOnly raised → ∀ s s', start.Abreast start' s s' →
      (parser.read call s).Alike raised (FoundAbreast start start') (parser.read call' s')
  | tag text, _, s, s', hs => by
    refine .pure ?_
    rw [hs.fragment_eq hstart]
    split
    · exact hs.next hstart _
    · exact .none
  | scanner rule, _, s, s', hs => by
    refine .pure ?_
    rw [hs.fragment_eq hstart]
    cases rule.scan s.fragment with
    | none => exact .none
    | some count => exact hs.next hstart count
  | eof, _, s, s', hs => by
    refine .pure ?_
    rw [hs.fragment_eq hstart]
    split
    · exact .some hs rfl
    · exact .none
  | alt branches, hr, s, s', hs => readFirst_alike hstart h branches hr s s' hs
  | sequence items, hr, s, s', hs => by
    refine .bind (readAll_alike hstart h items hr s s' hs) ?_
    rintro _ _ (⟨rfl, rfl⟩ | ⟨rest, rest', values, rfl, rfl, hrest⟩)
    · exact .pure .none
    · exact .pure (.some hrest rfl)
  | mapped parser change, hr, s, s', hs => by
    refine .bind (read_alike hstart h parser (fun f v fault hf => hr f v fault (.inr hf))
      s s' hs) ?_
    rintro _ _ (_ | ⟨hrest, hvalue⟩)
    · exact .pure .none
    · dsimp only
      rw [hvalue]
      refine .bind (.lift fun fault hfault => hr change _ fault (.inl rfl) hfault) ?_
      rintro v _ rfl
      exact .pure (.some hrest rfl)
  | opt parser, hr, s, s', hs => by
    refine .bind (read_alike hstart h parser hr s s' hs) ?_
    rintro _ _ (_ | ⟨hrest, hvalue⟩)
    · exact .pure (.some hs rfl)
    · exact .pure (.some hrest hvalue)
  | many parser, hr, s, s', hs => by
    have hparser := read_alike hstart h parser hr
    rw [read, read, hs.remaining_eq hstart]
    refine .bind (readRepeat_alike hstart hparser _ s s' hs) ?_
    rintro ⟨rest, values⟩ ⟨rest', values'⟩ ⟨hrest, rfl⟩
    exact .pure (.some hrest rfl)
  | ref rule, _, s, s', hs => h rule s s' hs
  | peek _, _, _, _, _ | absent _, _, _, _, _ | .edit _, _, _, _, _ | reveal, _, _, _, _
  | probe _, _, _, _, _ | watch _ _, _, _, _, _ => .pure .none

theorem readFirst_alike (hstart : start'.fragment = start.fragment)
    (h : ∀ r s s', start.Abreast start' s s' →
      (call r s).Alike raised (FoundAbreast start start') (call' r s')) :
    ∀ (branches : List (Parser ρ)),
      (∀ change v fault, SomeMaps change branches → change v = .error fault → raised fault) →
      ∀ s s', start.Abreast start' s s' →
      (readFirst call branches s).Alike raised (FoundAbreast start start')
        (readFirst call' branches s')
  | [], _, s, s', _ => .pure .none
  | parser :: rest, hr, s, s', hs => by
    refine .bind (read_alike hstart h parser (fun f v fault hf => hr f v fault (.inl hf))
      s s' hs) ?_
    rintro _ _ (_ | ⟨hrest, hvalue⟩)
    · exact readFirst_alike hstart h rest (fun f v fault hf => hr f v fault (.inr hf)) s s' hs
    · exact .pure (.some hrest hvalue)

theorem readAll_alike (hstart : start'.fragment = start.fragment)
    (h : ∀ r s s', start.Abreast start' s s' →
      (call r s).Alike raised (FoundAbreast start start') (call' r s')) :
    ∀ (items : List (Parser ρ)),
      (∀ change v fault, SomeMaps change items → change v = .error fault → raised fault) →
      ∀ s s', start.Abreast start' s s' →
      (readAll call items s).Alike raised
        (fun result result' => (result = none ∧ result' = none) ∨
          ∃ rest rest' values, result = some (rest, values) ∧ result' = some (rest', values) ∧
            start.Abreast start' rest rest')
        (readAll call' items s')
  | [], _, s, s', hs => .pure (.inr ⟨s, s', [], rfl, rfl, hs⟩)
  | parser :: rest, hr, s, s', hs => by
    refine .bind (read_alike hstart h parser (fun f v fault hf => hr f v fault (.inl hf))
      s s' hs) ?_
    rintro _ _ (_ | @⟨m, m', hrest, hvalue⟩)
    · exact .pure (.inl ⟨rfl, rfl⟩)
    · refine .bind (readAll_alike hstart h rest (fun f v fault hf => hr f v fault (.inr hf))
        m.rest m'.rest hrest) ?_
      rintro _ _ (⟨rfl, rfl⟩ | ⟨last, last', values, rfl, rfl, hlast⟩)
      · exact .pure (.inl ⟨rfl, rfl⟩)
      · exact .pure (.inr ⟨last, last', m.value :: values, rfl, by simp [hvalue], hlast⟩)

end

end Parser

namespace Scope

variable {raised : Fault → Prop} {start start' : Point}

/-- The scopes belong to one position, and their results are alike. -/
structure Abreast (start start' : Point) (scope scope' : Scope κ) : Prop where
  position_eq : scope'.position = scope.position
  best : ∀ key, scope.best key = none ∧ scope'.best key = none ∨
    ∃ best best', scope.best key = some best ∧ scope'.best key = some best' ∧
      FoundAbreast start start' best best'

theorem Abreast.empty (start start' : Point) (position : Nat) :
    Abreast start start' (Scope.empty position : Scope κ) (Scope.empty position) :=
  ⟨rfl, fun _ => .inl ⟨rfl, rfl⟩⟩

theorem Abreast.movedTo {scope scope' : Scope κ} (h : Abreast start start' scope scope')
    (position : Nat) : Abreast start start' (scope.movedTo position) (scope'.movedTo position) := by
  unfold Scope.movedTo
  rw [h.position_eq]
  split
  · exact h
  · exact .empty start start' position

theorem Abreast.add [DecidableEq κ] {scope scope' : Scope κ}
    (h : Abreast start start' scope scope') (key : κ) {best best' : Option Found}
    (hb : FoundAbreast start start' best best') :
    Abreast start start' (scope.add key best) (scope'.add key best') := by
  refine ⟨h.position_eq, fun key' => ?_⟩
  by_cases hkey : key' = key
  · exact .inr ⟨best, best', if_pos hkey, if_pos hkey, hb⟩
  · rw [best_add_of_ne hkey, best_add_of_ne hkey]
    exact h.best key'

/-- Results that are alike are longer than others that are, or not. -/
theorem longer?_alike (hstart : start'.fragment = start.fragment) (position : Nat)
    {best best' result result' : Option Found} (hb : FoundAbreast start start' best best')
    (hr : FoundAbreast start start' result result') :
    FoundAbreast start start' (longer? position best result) (longer? position best' result') := by
  have hlength : lengthOf position best' = lengthOf position best := by
    cases hb with
    | none => rfl
    | some hrest hvalue => simp [lengthOf, Found.consumed, hrest.remaining_eq hstart]
  cases hr with
  | none => exact .none
  | @some m m' hrest hvalue =>
    have hconsumed : m'.consumed position = m.consumed position := by
      rw [Found.consumed, Found.consumed, hrest.remaining_eq hstart]
    rw [longer?, longer?, Option.filter_some, Option.filter_some, hlength, hconsumed]
    split
    · exact .some hrest hvalue
    · exact .none

theorem grow_alike (hstart : start'.fragment = start.fragment) (position : Nat)
    {body body' : Option Found → Account κ (Option Found)}
    (h : ∀ best best', FoundAbreast start start' best best' →
      (body best).Alike raised (FoundAbreast start start') (body' best')) :
    ∀ (rounds : Nat) {best best' result result' : Option Found},
      FoundAbreast start start' best best' → FoundAbreast start start' result result' →
      (grow position body rounds best result).Alike raised (FoundAbreast start start')
        (grow position body' rounds best' result') := by
  intro rounds
  induction rounds with
  | zero =>
    intro best best' result result' hb hr
    have hlonger := longer?_alike hstart position hb hr
    rw [grow, grow]
    generalize longer? position best result = x at hlonger ⊢
    generalize longer? position best' result' = x' at hlonger ⊢
    cases hlonger with
    | none => exact .pure hb
    | some hrest hvalue => exact .exhausted
  | succ rounds ih =>
    intro best best' result result' hb hr
    have hlonger := longer?_alike hstart position hb hr
    rw [grow, grow]
    generalize longer? position best result = x at hlonger ⊢
    generalize longer? position best' result' = x' at hlonger ⊢
    cases hlonger with
    | none => exact .pure hb
    | some hrest hvalue =>
      have hm := FoundAbreast.some hrest hvalue
      exact .bind (h _ _ hm) fun _ _ hresult => ih hm hresult

/-- The rounds of a scope come out alike if those of its body do. -/
theorem evaluate_alike [DecidableEq κ] (hstart : start'.fragment = start.fragment) (key : κ)
    (position : Nat) {body body' : Option Found → Account κ (Option Found)}
    (h : ∀ best best', FoundAbreast start start' best best' →
      (body best).Alike raised (FoundAbreast start start') (body' best')) :
    (evaluate key position body).Alike raised (FoundAbreast start start')
      (evaluate key position body') := by
  refine .bind (.listen (h none none .none)) ?_
  rintro ⟨result, asked⟩ ⟨result', asked'⟩ ⟨hresult, rfl⟩
  dsimp only
  split
  · exact grow_alike hstart position h position .none hresult
  · exact .pure hresult

end Scope

namespace Grammar

variable [DecidableEq κ] {key : ρ → κ} {g : Grammar ρ} {raised : Fault → Prop}
  {start start' : Point}

/-- A rule reads alike if the calls of its body do. -/
theorem readRule_alike (hstart : start'.fragment = start.fragment)
    {calls calls' : Scope κ → ρ → Point → Account κ (Option Found)}
    (h : ∀ scope scope', scope.Abreast start start' scope' → ∀ r s s', start.Abreast start' s s' →
      (calls scope r s).Alike raised (FoundAbreast start start') (calls' scope' r s'))
    {r : ρ} (hr : (g.rule r).body.RaisesOnly raised) {scope scope' : Scope κ}
    (hscope : scope.Abreast start start' scope') {s s' : Point} (hs : start.Abreast start' s s') :
    (g.readRule key calls scope r s).Alike raised (FoundAbreast start start')
      (g.readRule key calls' scope' r s') := by
  have hremaining := hs.remaining_eq hstart
  have hbody : ∀ scope scope', scope.Abreast start start' scope' →
      ((g.rule r).body.read (calls scope) s).Alike raised (FoundAbreast start start')
        ((g.rule r).body.read (calls' scope') s') :=
    fun scope scope' hscope => Parser.read_alike hstart (h scope scope' hscope) _ hr s s' hs
  have hmoved := hscope.movedTo s.remaining
  unfold readRule
  rw [hremaining]
  refine .bind (.ask (key r) s.remaining) fun _ _ _ => ?_
  dsimp only
  cases (g.rule r).guard with
  | none => exact hbody _ _ hmoved
  | some guard =>
    dsimp only
    rcases hmoved.best (key r) with ⟨hnone, hnone'⟩ | ⟨best, best', hbest, hbest', hb⟩
    · rw [hnone, hnone']
      exact Scope.evaluate_alike hstart (key r) s.remaining
        fun best best' hb => hbody _ _ (hmoved.add (key r) hb)
    · rw [hbest, hbest']
      exact .pure hb

/-- Calls of rules read alike. -/
theorem readCall_alike (hstart : start'.fragment = start.fragment)
    (hr : ∀ r, (g.rule r).body.RaisesOnly raised) :
    ∀ (depth : Nat) (scope scope' : Scope κ), scope.Abreast start start' scope' →
      ∀ r s s', start.Abreast start' s s' →
      (g.readCall key depth scope r s).Alike raised (FoundAbreast start start')
        (g.readCall key depth scope' r s') := by
  intro depth
  induction depth with
  | zero => exact fun _ _ _ _ _ _ _ => .exhausted
  | succ depth ih =>
    intro scope scope' hscope r s s' hs
    exact readRule_alike hstart ih (hr r) hscope hs

end Grammar

end SeedGrowth
