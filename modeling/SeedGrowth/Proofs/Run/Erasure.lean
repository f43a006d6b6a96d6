import SeedGrowth.Proofs.Program
import SeedGrowth.Proofs.Run.Basic

/-!
# Following changes nothing

Without its history a run is the evaluation that it follows: both end in the same way
and leave the same session. One lemma for each way to build programs, and the theorem
by induction over parsers and over the depth of calls.
-/
namespace SeedGrowth

variable {ρ α β : Type}

/-- A followed evaluation and an evaluation agree on results and sessions. -/
def Follows (x : Followed ρ α) (y : Eval α) : Prop :=
  ∀ run, (x run).1 = (y run.session).1 ∧ (x run).2.session = (y run.session).2

namespace Follows

theorem pure (a : α) : Follows (Pure.pure a : Followed ρ α) (Pure.pure a) := fun _ => ⟨rfl, rfl⟩

theorem throw (stop : Stop) :
    Follows (MonadExcept.throw stop : Followed ρ α) (MonadExcept.throw stop) :=
  fun _ => ⟨rfl, rfl⟩

theorem plain (y : Eval α) : Follows (Followed.plain y : Followed ρ α) y := fun _ => ⟨rfl, rfl⟩

theorem bind {x : Followed ρ α} {y : Eval α} {f : α → Followed ρ β} {f' : α → Eval β}
    (hx : Follows x y) (hf : ∀ a, Follows (f a) (f' a)) : Follows (x >>= f) (y >>= f') := by
  intro run
  have h := hx run
  rw [Program.bind_apply x, Program.bind_apply y]
  generalize x run = after at h
  generalize y run.session = after' at h
  obtain ⟨result, run'⟩ := after
  obtain ⟨result', session'⟩ := after'
  obtain ⟨rfl, rfl⟩ := h
  cases result with
  | ok a => exact hf a run'
  | error stop => exact ⟨rfl, rfl⟩

theorem note {x : Followed ρ α} {y : Eval α} (happening : Happening ρ) (hx : Follows x y) :
    Follows (Followed.note happening >>= fun _ => x) y :=
  fun run => hx (run.noted happening)

theorem inside {x : Followed ρ α} {y : Eval α} (call : OpenCall ρ) (hx : Follows x y) :
    Follows (Followed.inside call x) y :=
  fun run => hx { run with calls := call :: run.calls }

theorem deeper {x : Followed ρ α} {y : Eval α} (id : RegistryId) (hx : Follows x y) :
    Follows (Followed.deeper id x) (Eval.deeper id y) := by
  intro run
  obtain ⟨hr, hs⟩ := hx { run with
    session := run.session.modifyRegistry id fun r => { r with level := r.level + 1 } }
  exact ⟨hr, congrArg (Session.modifyRegistry · id fun r => { r with level := r.level - 1 }) hs⟩

theorem eq_of_eq {x : Followed ρ α} {y : Eval α} (h : Follows x y) {run run' : Run ρ}
    {result : Except Stop α} (hx : x run = (result, run')) :
    y run.session = (result, run'.session) := by
  obtain ⟨hresult, hsession⟩ := h run
  rw [hx] at hresult hsession
  exact Prod.ext hresult.symm hsession.symm

end Follows

theorem Arrival.follows_followAnswer (arrival : Arrival) :
    Follows (arrival.followAnswer : Followed ρ (Option Match)) arrival.answer := by
  unfold followAnswer
  split
  · next h =>
    simp only [answer, h]
    exact .pure none
  · exact .note _ (.plain _)

namespace Call

variable (call : Call) {body : Followed ρ (Option Match)} {body' : Eval (Option Match)}

theorem follows_followJudge (round : Nat) (result : Option Match)
    {further : Match → Followed ρ (Option Match)} {further' : Match → Eval (Option Match)}
    (hf : ∀ m, Follows (further m) (further' m)) :
    Follows (call.followJudge round result further) (call.judge round result further') := by
  refine .note _ (.bind (.plain _) fun frame => ?_)
  split
  · refine .note _ (.bind (.plain _) fun frame => ?_)
    cases call.longer? frame result with
    | none => exact .plain _
    | some m => exact hf m
  · exact .pure _

theorem follows_followGrow (hb : Follows body body') (rounds round : Nat)
    (result : Option Match) :
    Follows (call.followGrow body rounds round result) (call.grow body' rounds round result) := by
  induction rounds generalizing round result with
  | zero => exact call.follows_followJudge _ _ fun _ => .throw _
  | succ rounds ih =>
    refine call.follows_followJudge _ _ fun m => .note _ (.bind (.plain _) fun _ => ?_)
    exact .bind hb fun next => ih _ next

theorem follows_followEvaluate (hb : Follows body body') :
    Follows (call.followEvaluate body) (call.evaluate body') :=
  .bind hb fun _ => call.follows_followGrow hb _ _ _

end Call

theorem follows_followGuarded {body : Cursor → Followed ρ (Option Match)}
    {body' : Cursor → Eval (Option Match)} (hb : ∀ s, Follows (body s) (body' s)) (rule : ρ)
    (name : Value) (bound : Option RegistryId) (s : Cursor) :
    Follows (followGuarded rule name bound body s) (guarded name bound body' s) := by
  refine .bind (.plain _) fun arrival => .note _ ?_
  split
  · exact arrival.follows_followAnswer
  · refine .bind (.plain _) fun (call, s) => ?_
    exact .bind (.inside _ (.deeper _ (call.follows_followEvaluate (hb s)))) fun _ => .plain _

namespace Parser

variable {call : ρ → Cursor → Followed ρ (Option Match)} {call' : ρ → Cursor → Eval (Option Match)}

theorem follows_followRepeat {parser : Cursor → Followed ρ (Option Match)}
    {parser' : Cursor → Eval (Option Match)} (hp : ∀ s, Follows (parser s) (parser' s))
    (rounds : Nat) (s : Cursor) :
    Follows (followRepeat parser rounds s) (repeatWhile parser' rounds s) := by
  induction rounds generalizing s with
  | zero => exact .throw _
  | succ rounds ih =>
    refine .bind (hp s) fun result => ?_
    cases result with
    | none => exact .pure _
    | some m =>
      dsimp only
      split
      · exact .pure _
      · exact .bind (ih m.rest) fun _ => .pure _

mutual

theorem follows_follow (hc : ∀ r s, Follows (call r s) (call' r s)) :
    ∀ (parser : Parser ρ) (s : Cursor), Follows (parser.follow call s) (parser.eval call' s)
  | tag _, s | scanner _, s | eof, s | .edit _, s | reveal, s | probe _, s =>
    .note _ (.plain _)
  | alt branches, s => .note _ (follows_followFirst hc branches s)
  | sequence items, s => .note _ (.bind (follows_followAll hc items s) fun _ => .pure _)
  | mapped parser change, s => by
    refine .note _ (.bind (follows_follow hc parser s) fun result => ?_)
    cases result with
    | none => exact .pure _
    | some m => exact .bind (.plain _) fun _ => .pure _
  | opt parser, s => by
    refine .note _ (.bind (follows_follow hc parser s) fun result => ?_)
    cases result <;> exact .pure _
  | many parser, s =>
    .note _ (.bind (follows_followRepeat (follows_follow hc parser) _ s) fun _ => .pure _)
  | ref rule, s => .note _ (hc rule s)
  | peek parser, s => .note _ (.bind (follows_follow hc parser s) fun _ => .pure _)
  | absent parser, s => by
    refine .note _ (.bind (follows_follow hc parser s) fun result => ?_)
    cases result <;> exact .pure _
  | .watch label parser, s =>
    .note _ (.bind (.plain _) fun _ => .bind (follows_follow hc parser s) fun _ =>
      .bind (.plain _) fun _ => .pure _)

theorem follows_followFirst (hc : ∀ r s, Follows (call r s) (call' r s)) :
    ∀ (branches : List (Parser ρ)) (s : Cursor),
      Follows (followFirst call branches s) (evalFirst call' branches s)
  | [], _ => .pure _
  | parser :: rest, s => by
    refine .bind (follows_follow hc parser s) fun result => ?_
    cases result with
    | none => exact follows_followFirst hc rest s
    | some m => exact .pure _

theorem follows_followAll (hc : ∀ r s, Follows (call r s) (call' r s)) :
    ∀ (items : List (Parser ρ)) (s : Cursor),
      Follows (followAll call items s) (evalAll call' items s)
  | [], _ => .pure _
  | parser :: rest, s => by
    refine .bind (follows_follow hc parser s) fun result => ?_
    cases result with
    | none => exact .pure _
    | some m => exact .bind (follows_followAll hc rest m.rest) fun _ => .pure _

end

end Parser

namespace Grammar

variable (g : Grammar ρ)

theorem follows_followCall (depth : Nat) (r : ρ) (s : Cursor) :
    Follows (g.followCall depth r s) (g.call depth r s) := by
  induction depth generalizing r s with
  | zero => exact .throw _
  | succ depth ih =>
    rw [followCall, call]
    cases (g.rule r).guard with
    | none => exact .inside _ (Parser.follows_follow ih _ s)
    | some guard => exact follows_followGuarded (Parser.follows_follow ih _) _ _ _ s

/-- Wherever a history has come to, a parser is evaluated as without it. -/
theorem eval_of_follow {depth : Nat} {parser : Parser ρ} {s : Cursor} {run run' : Run ρ}
    {result : Except Stop (Option Match)}
    (h : parser.follow (g.followCall depth) s run = (result, run')) :
    parser.eval (g.call depth) s run.session = (result, run'.session) :=
  (Parser.follows_follow (g.follows_followCall depth) parser s).eq_of_eq h

/-- A run ends as the evaluation of its parser does, in the same session. -/
theorem run_eq_eval (depth : Nat) (parser : Parser ρ) (s : Cursor) (session : Session) :
    (g.run depth parser s session).1 = (parser.eval (g.call depth) s session).1 ∧
      (g.run depth parser s session).2.session = (parser.eval (g.call depth) s session).2 :=
  Parser.follows_follow (g.follows_followCall depth) parser s ⟨session, [], []⟩

end Grammar

end SeedGrowth
