import Mathlib.Logic.Relation
import SeedGrowth.Proofs.Grammar.Combinators
import SeedGrowth.Proofs.Run.Erasure
import SeedGrowth.Proofs.Visit.Basic

/-!
# Runs and their visits

Visits are all there is to a run: whenever a parser is handed a cursor, a visit begins that
is reached from the first one. So what is proved of visits holds of every evaluation that
the history of a run tells of.
-/
namespace SeedGrowth

variable {ρ α β : Type} {g : Grammar ρ}

/-- The visit is one of the parser at the cursor, or leads to such a visit. -/
def Visit.Reaches (g : Grammar ρ) (v : Visit ρ) (parser : Parser ρ) (s : Cursor) : Prop :=
  ∃ v', Relation.ReflTransGen g.Leads v v' ∧ v'.parser = parser ∧ v'.cursor = s

theorem Visit.Reaches.self (g : Grammar ρ) (v : Visit ρ) : v.Reaches g v.parser v.cursor :=
  ⟨v, .refl, rfl, rfl⟩

theorem Visit.Reaches.head {v v' : Visit ρ} (hl : g.Leads v v') {parser : Parser ρ} {s : Cursor}
    (h : v'.Reaches g parser s) : v.Reaches g parser s := by
  obtain ⟨v'', hr, heq⟩ := h
  exact ⟨v'', .head hl hr, heq⟩

/-- What parsers are handed in the program is as stated. -/
def Hands (handed : Parser ρ → Cursor → Prop) (run : Run ρ) (x : Followed ρ α) : Prop :=
  ∀ m ∈ (x run).2.moments, m ∈ run.moments ∨
    ∀ parser s, m.happening = .handed parser s → handed parser s

namespace Hands

variable {handed handed' : Parser ρ → Cursor → Prop} {run : Run ρ}

theorem pure (a : α) : Hands handed run (Pure.pure a : Followed ρ α) := fun _ hm => .inl hm

theorem throw (stop : Stop) : Hands handed run (MonadExcept.throw stop : Followed ρ α) :=
  fun _ hm => .inl hm

theorem plain (y : Eval α) : Hands handed run (Followed.plain y : Followed ρ α) :=
  fun _ hm => .inl hm

theorem imp {x : Followed ρ α} (h : Hands handed run x)
    (himp : ∀ parser s, handed parser s → handed' parser s) : Hands handed' run x :=
  fun m hm => (h m hm).imp id fun hhanded parser s hp => himp parser s (hhanded parser s hp)

theorem bind {x : Followed ρ α} {f : α → Followed ρ β} (hx : Hands handed run x)
    (hf : ∀ a run', x run = (.ok a, run') → Hands handed run' (f a)) :
    Hands handed run (x >>= f) := by
  intro m hm
  rw [Program.bind_apply] at hm
  cases hrun : x run with
  | mk result run' =>
    have hx' := hx
    unfold Hands at hx'
    rw [hrun] at hx' hm
    cases result with
    | ok a =>
      rcases hf a run' hrun m hm with hmem | hhanded
      · exact hx' m hmem
      · exact .inr hhanded
    | error stop => exact hx' m hm

theorem note {x : Followed ρ α} {happening : Happening ρ}
    (hn : ∀ parser s, happening = .handed parser s → handed parser s)
    (hx : Hands handed (run.noted happening) x) :
    Hands handed run (Followed.note happening >>= fun _ => x) := by
  intro m hm
  rcases hx m hm with hmem | hhanded
  · rcases List.mem_cons.1 hmem with rfl | hmem
    · exact .inr hn
    · exact .inl hmem
  · exact .inr hhanded

theorem inside {x : Followed ρ α} {c : OpenCall ρ}
    (hx : Hands handed { run with calls := c :: run.calls } x) :
    Hands handed run (Followed.inside c x) := hx

theorem deeper {x : Followed ρ α} {id : RegistryId}
    (hx : Hands handed { run with
      session := run.session.modifyRegistry id fun r => { r with level := r.level + 1 } } x) :
    Hands handed run (Followed.deeper id x) := hx

end Hands

/-- A visit begins when its parser is handed its cursor. -/
theorem Hands.begin {depth : Nat} {parser : Parser ρ} {s : Cursor} {run : Run ρ} {x : Followed ρ α}
    (hx : Hands (Visit.Reaches g ⟨depth, parser, s, run.session⟩)
      (run.noted (.handed parser s)) x) :
    Hands (Visit.Reaches g ⟨depth, parser, s, run.session⟩) run
      (Followed.note (.handed parser s) >>= fun _ => x) := by
  refine .note ?_ hx
  rintro _ _ ⟨⟩
  exact .self g _

/-- What is handed out in evaluations of the parser is reached from its visits. -/
def Grammar.Visited (g : Grammar ρ) (depth : Nat) (parser : Parser ρ) : Prop :=
  ∀ (s : Cursor) (run : Run ρ), Hands (Visit.Reaches g ⟨depth, parser, s, run.session⟩) run
    (parser.follow (g.followCall depth) s)

/-- What is handed out in calls of rules is reached from their visits. -/
def Grammar.CallsVisited (g : Grammar ρ) (depth : Nat) : Prop :=
  ∀ (r : ρ) (s : Cursor) (run : Run ρ), Hands (Visit.Reaches g ⟨depth, .ref r, s, run.session⟩) run
    (g.followCall depth r s)

namespace Parser

variable {depth : Nat}

/-- What is handed out by repetitions is reached from them. -/
theorem followRepeat_hands {parser : Parser ρ} (hp : g.Visited depth parser) :
    ∀ (rounds : Nat) (s : Cursor) (run : Run ρ),
      Hands (Visit.Reaches g ⟨depth, .many parser, s, run.session⟩) run
        (followRepeat (parser.follow (g.followCall depth)) rounds s) := by
  intro rounds
  induction rounds with
  | zero => exact fun _ _ => .throw _
  | succ rounds ih =>
    intro s run
    refine .bind ((hp s run).imp fun _ _ => .head .many) fun result run' hrun => ?_
    have heval := g.eval_of_follow hrun
    cases result with
    | none => exact .pure _
    | some m =>
      dsimp only
      split
      · exact .pure _
      · next hoffset =>
        exact .bind ((ih m.rest run').imp fun _ _ => .head (.further heval hoffset))
          fun _ _ _ => .pure _

mutual

/-- What is handed out by combinators is reached from them if that holds of calls. -/
theorem follow_hands (hc : g.CallsVisited depth) :
    ∀ parser : Parser ρ, parser.isCombinator = true → g.Visited depth parser
  | tag text, _, s, run => .begin (.plain _)
  | scanner rule, _, s, run => .begin (.plain _)
  | eof, _, s, run => .begin (.plain _)
  | alt branches, hp, s, run => .begin (followFirst_hands hc branches hp s _)
  | sequence items, hp, s, run =>
    .begin (.bind (followAll_hands hc items hp s _) fun _ _ _ => .pure _)
  | mapped parser change, hp, s, run => by
    refine .begin ?_
    refine .bind ((follow_hands hc parser hp s _).imp fun _ _ => .head .mapped) ?_
    intro result run' _
    cases result with
    | none => exact .pure _
    | some m => exact .bind (.plain _) fun _ _ _ => .pure _
  | opt parser, hp, s, run => by
    refine .begin ?_
    refine .bind ((follow_hands hc parser hp s _).imp fun _ _ => .head .opt) ?_
    intro result run' _
    cases result <;> exact .pure _
  | many parser, hp, s, run =>
    .begin (.bind (followRepeat_hands (follow_hands hc parser hp) _ s _) fun _ _ _ => .pure _)
  | ref rule, _, s, run => .begin (hc rule s _)
  | peek _, hp, _, _ | absent _, hp, _, _ | .edit _, hp, _, _ | reveal, hp, _, _
  | probe _, hp, _, _ | .watch _ _, hp, _, _ => absurd hp Bool.false_ne_true

theorem followFirst_hands (hc : g.CallsVisited depth) :
    ∀ branches : List (Parser ρ), areCombinators branches = true → ∀ (s : Cursor) (run : Run ρ),
      Hands (Visit.Reaches g ⟨depth, .alt branches, s, run.session⟩) run
        (followFirst (g.followCall depth) branches s)
  | [], _, _, _ => .pure _
  | parser :: rest, hp, s, run => by
    obtain ⟨hparser, hrest⟩ := Bool.and_eq_true_iff.1 hp
    refine .bind ((follow_hands hc parser hparser s run).imp fun _ _ => .head .branch) ?_
    intro result run' hrun
    have heval := g.eval_of_follow hrun
    cases result with
    | none =>
      exact (followFirst_hands hc rest hrest s run').imp fun _ _ => .head (.otherwise heval)
    | some m => exact .pure _

theorem followAll_hands (hc : g.CallsVisited depth) :
    ∀ items : List (Parser ρ), areCombinators items = true → ∀ (s : Cursor) (run : Run ρ),
      Hands (Visit.Reaches g ⟨depth, .sequence items, s, run.session⟩) run
        (followAll (g.followCall depth) items s)
  | [], _, _, _ => .pure _
  | parser :: rest, hp, s, run => by
    obtain ⟨hparser, hrest⟩ := Bool.and_eq_true_iff.1 hp
    refine .bind ((follow_hands hc parser hparser s run).imp fun _ _ => .head .item) ?_
    intro result run' hrun
    have heval := g.eval_of_follow hrun
    cases result with
    | none => exact .pure _
    | some m =>
      exact .bind ((followAll_hands hc rest hrest m.rest run').imp fun _ _ => .head (.after heval))
        fun _ _ _ => .pure _

end

end Parser

namespace Call

variable {handed : Parser ρ → Cursor → Prop} {call : Call} {σ : Session}
  {body : Followed ρ (Option Match)} {body' : Eval (Option Match)}

/-- What is handed out while a result is judged is handed out where the call goes on. -/
theorem followJudge_hands {round : Nat} {last : Option Match} {run : Run ρ}
    {further : Match → Followed ρ (Option Match)}
    (hfurther : ∀ frame m (run' : Run ρ), (run.session.frame call.frame).reentered = true →
      call.review round last run.session = (.ok frame, run'.session) →
      call.longer? frame last = some m → Hands handed run' (further m)) :
    Hands handed run (call.followJudge round last further) := by
  refine .note (by rintro _ _ ⟨⟩) (.bind (.plain _) fun frame run₁ hread => ?_)
  cases hread
  split
  · next hmarked =>
    refine .note (by rintro _ _ ⟨⟩) (.bind (.plain _) fun frame run₂ hreview => ?_)
    have hreview := (Follows.plain _).eq_of_eq hreview
    cases hl : call.longer? frame last with
    | none => exact .plain _
    | some m => exact hfurther frame m run₂ hmarked hreview hl
  · exact .pure _

/-- What is handed out in the rounds of a call is handed out by its body. -/
theorem followGrow_hands (hb : Follows body body')
    (hbody : ∀ (round : Nat) (run : Run ρ), call.Evaluates body' σ round run.session →
      Hands handed run body) :
    ∀ (rounds : Nat) {round : Nat} {last : Option Match} {σ₁ : Session} {run : Run ρ},
      call.Evaluates body' σ round σ₁ → body' σ₁ = (.ok last, run.session) →
      Hands handed run (call.followGrow body rounds (round + 1) last) := by
  intro rounds
  induction rounds with
  | zero => exact fun _ _ => followJudge_hands fun _ _ _ _ _ _ => .throw _
  | succ rounds ih =>
    intro round last σ₁ run hround hlast
    refine followJudge_hands fun frame m run₁ hmarked hreview hl => ?_
    refine .note (by rintro _ _ ⟨⟩) (.bind (.plain _) fun _ run₂ hadopt => ?_)
    have hadopt := (Follows.plain _).eq_of_eq hadopt
    have hround' := hround.again hlast hmarked hreview hl hadopt
    refine .bind (hbody _ run₂ hround') fun next run₃ hnext => ?_
    exact ih hround' (hb.eq_of_eq hnext)

/-- What is handed out in the evaluation of a call is handed out by its body. -/
theorem followEvaluate_hands (hb : Follows body body') {run : Run ρ}
    (hbody : ∀ (round : Nat) (run' : Run ρ),
      call.Evaluates body' run.session round run'.session → Hands handed run' body) :
    Hands handed run (call.followEvaluate body) := by
  refine .bind (hbody 0 run .first) fun result run₁ hresult => ?_
  exact followGrow_hands hb hbody _ .first (hb.eq_of_eq hresult)

end Call

namespace Grammar

/-- What is handed out in calls of guarded rules is reached from them if that holds of the
bodies. -/
theorem followGuarded_hands {depth : Nat} {r : ρ} {guard : Guard}
    (hr : (g.rule r).guard = some guard) (hbody : g.Visited depth (g.rule r).body) (s : Cursor)
    (run : Run ρ) :
    Hands (Visit.Reaches g ⟨depth + 1, .ref r, s, run.session⟩) run
      (followGuarded r guard.name guard.registry
        ((g.rule r).body.follow (g.followCall depth)) s) := by
  refine .bind (.plain _) fun arrival run₁ harrive => .note (by rintro _ _ ⟨⟩) ?_
  have harrive := (Follows.plain _).eq_of_eq harrive
  cases hactive : arrival.active with
  | true =>
    rw [if_pos rfl, Arrival.followAnswer]
    cases arrival.anchor.frame? arrival.flag with
    | none => exact .pure _
    | some id => exact .note (by rintro _ _ ⟨⟩) (.plain _)
  | false =>
    rw [if_neg Bool.false_ne_true]
    refine .bind (.plain _) fun (call, s') run₂ hbegin => ?_
    have hbegin := (Follows.plain _).eq_of_eq hbegin
    refine .bind (.inside (.deeper ?_)) fun _ _ _ => .plain _
    refine Call.followEvaluate_hands
      (Parser.follows_follow (g.follows_followCall depth) (g.rule r).body s') ?_
    intro round run₃ hround
    exact (hbody s' run₃).imp fun _ _ => .head (.guarded hr harrive hactive hbegin hround)

theorem callsVisited (hg : g.OfCombinators) (depth : Nat) : g.CallsVisited depth := by
  induction depth with
  | zero => exact fun _ _ _ => .throw _
  | succ depth ih =>
    intro r s run
    have hbody := Parser.follow_hands ih (g.rule r).body (hg r)
    rw [followCall]
    cases hr : (g.rule r).guard with
    | none => exact .inside ((hbody s _).imp fun _ _ => .head (.plain hr))
    | some guard => exact followGuarded_hands hr hbody s run

/-- Whenever a run hands a cursor to a parser, a visit begins that is reached from the first
one. -/
theorem run_visits (hg : g.OfCombinators) (depth : Nat) {parser : Parser ρ}
    (hp : parser.isCombinator = true) (s : Cursor) (session : Session) {m : Moment ρ}
    (hm : m ∈ (g.run depth parser s session).2.moments) {parser' : Parser ρ} {s' : Cursor}
    (hhanded : m.happening = .handed parser' s') :
    Visit.Reaches g ⟨depth, parser, s, session⟩ parser' s' := by
  have hvisited := Parser.follow_hands (callsVisited hg depth) parser hp s ⟨session, [], []⟩
  rcases hvisited m hm with hmem | hreached
  · cases hmem
  · exact hreached parser' s' hhanded

end Grammar

end SeedGrowth
