import SeedGrowth.Grammar.Parsing
import SeedGrowth.Proofs.Session.Steps

/-!
# Laws of evaluations

A law relates the session before an evaluation to the session after it, on whatever way out.
A grammar respects a law if that goes for the steps of its guarded calls that touch registries
or the trace: looking up a flag, going one level deeper and back, and tracing. Whatever the
grammar evaluates obeys the law then, since nothing else touches them.
-/
namespace SeedGrowth

variable {α β ρ : Type} {law : Session → Session → Prop}

/-- The evaluation relates the session before it to the session after it. -/
def Eval.Obeys (law : Session → Session → Prop) (x : Eval α) : Prop :=
  ∀ σ, law σ (x σ).2

/-- The law is kept by what touches neither registries nor the trace and takes no mark off a
frame, and by one thing after another. -/
structure Session.IsLaw (law : Session → Session → Prop) : Prop where
  untouched : ∀ {σ σ' : Session}, σ'.registries = σ.registries → σ'.current = σ.current →
    σ'.trace = σ.trace → σ.KeepsMarks σ' → law σ σ'
  trans : ∀ {σ σ' σ'' : Session}, law σ σ' → law σ' σ'' → law σ σ''

/-- The law is kept by all that a call traces. -/
def Session.LetsTrace (law : Session → Session → Prop) (verbose : Bool) : Prop :=
  ∀ event, (Eval.trace verbose event).Obeys law

/-- The law is kept by the steps of the guarded calls of a grammar. It need not be kept by what
a call traces if it says nothing about what follows the session where the call began. -/
structure Grammar.Respects (g : Grammar ρ) (law : Session → Session → Prop) : Prop
    extends Session.IsLaw law where
  traces : ∀ {r : ρ} {guard : Guard}, (g.rule r).guard = some guard →
    ∀ {s : Cursor} {σ σ' : Session} {arrival : Arrival},
      arrive guard.name guard.registry s σ = (.ok arrival, σ') →
      Session.LetsTrace law arrival.verbose ∨ ∀ σ'', law σ' σ''
  arrives : ∀ {r : ρ} {guard : Guard}, (g.rule r).guard = some guard →
    ∀ {σ σ' : Session} {id : RegistryId}, Eval.registryOr guard.registry σ = (.ok id, σ') →
      law σ σ' ∧ law σ' (Eval.flagOf id guard.name σ').2
  deeper : ∀ {σ σ' : Session} (id : RegistryId),
    law (σ.modifyRegistry id fun r => { r with level := r.level + 1 }) σ' →
      law σ (σ'.modifyRegistry id fun r => { r with level := r.level - 1 })

namespace Eval.Obeys

theorem of_eq {x : Eval α} {result : Except Stop α} {σ σ' : Session} (hx : x.Obeys law)
    (hrun : x σ = (result, σ')) : law σ σ' := by
  have hlaw := hx σ
  rwa [hrun] at hlaw

theorem pure (h : Session.IsLaw law) (a : α) : Obeys law (Pure.pure a : Eval α) :=
  fun _ => h.untouched rfl rfl rfl (.refl _)

theorem throw (h : Session.IsLaw law) (stop : Stop) :
    Obeys law (MonadExcept.throw stop : Eval α) :=
  fun _ => h.untouched rfl rfl rfl (.refl _)

/-- What comes second matters only where the first evaluation ends with an answer. -/
theorem bind_of {x : Eval α} {f : α → Eval β} (h : Session.IsLaw law) {σ : Session}
    (hx : law σ (x σ).2) (hf : ∀ a σ', x σ = (.ok a, σ') → law σ' (f a σ').2) :
    law σ ((x >>= f) σ).2 := by
  rw [Program.bind_apply]
  cases hrun : x σ with
  | mk result σ' =>
    rw [hrun] at hx
    cases result with
    | ok a => exact h.trans hx (hf a σ' hrun)
    | error stop => exact hx

theorem bind {x : Eval α} {f : α → Eval β} (h : Session.IsLaw law) (hx : x.Obeys law)
    (hf : ∀ a, (f a).Obeys law) : (x >>= f).Obeys law :=
  fun σ => bind_of h (hx σ) fun a σ' _ => hf a σ'

theorem map {x : Eval α} (h : Session.IsLaw law) (hx : x.Obeys law) (f : α → β) :
    (f <$> x).Obeys law := by
  rw [map_eq_pure_bind]
  exact bind h hx fun _ => pure h _

theorem lift (h : Session.IsLaw law) (x : Except Fault α) : (Eval.lift x).Obeys law := by
  intro σ
  rw [lift_apply]
  exact h.untouched rfl rfl rfl (.refl _)

theorem read (h : Session.IsLaw law) (f : Session → α) : (Eval.read f).Obeys law :=
  fun _ => h.untouched rfl rfl rfl (.refl _)

theorem newFrame (h : Session.IsLaw law) (frame : Frame) : (Eval.newFrame frame).Obeys law :=
  fun σ => h.untouched rfl rfl rfl (.push σ frame)

/-- A change of a frame that does not take its mark off. -/
theorem modifyFrame (h : Session.IsLaw law) (id : FrameId) {change : Frame → Frame}
    (hmark : ∀ frame : Frame, frame.reentered = true → (change frame).reentered = true) :
    (Eval.modifyFrame id change).Obeys law :=
  fun σ => h.untouched rfl rfl rfl (.modify σ id hmark)

theorem log (h : Session.IsLaw law) (entry : Array Frame → LogEntry) :
    (Eval.log entry).Obeys law := by
  refine bind h (fun _ => h.untouched rfl rfl rfl (.refl _)) fun session => ?_
  dsimp only
  split
  · exact fun _ => h.untouched rfl rfl rfl (.of_frames rfl)
  · exact throw h _

end Eval.Obeys

open Eval

/-- Traces do not matter to a law about registries. -/
theorem Session.letsTrace_of_registries
    (h : ∀ {σ σ' : Session}, σ'.registries = σ.registries → σ'.current = σ.current → law σ σ')
    (verbose : Bool) : Session.LetsTrace law verbose := by
  intro event σ
  obtain ⟨result, σ', hrun, hsame, -⟩ := Eval.trace_spec verbose event σ
  rw [hrun]
  exact h hsame.registries hsame.current

/-- A call is as verbose as it was found to be. -/
theorem Arrival.verbose_of_begin {arrival : Arrival} {s s' : Cursor} {call : Call}
    {σ σ' : Session} (h : arrival.begin s σ = (.ok (call, s'), σ')) :
    call.verbose = arrival.verbose := by
  obtain ⟨frame, σ₁, -, h⟩ := Program.exists_of_bind h
  obtain ⟨flags, σ₂, -, h⟩ := Program.exists_of_bind h
  obtain ⟨_, σ₃, -, h⟩ := Program.exists_of_bind h
  cases h
  rfl

/-- What is not verbose traces nothing. -/
theorem Session.IsLaw.letsTrace_false (h : Session.IsLaw law) : Session.LetsTrace law false :=
  fun _ => .pure h ()

/-! ### Guarded calls -/

namespace Session.IsLaw

variable (h : Session.IsLaw law)

include h

theorem answer {arrival : Arrival} (ht : Session.LetsTrace law arrival.verbose) :
    arrival.answer.Obeys law := by
  unfold Arrival.answer
  split
  · exact .pure h _
  · refine .bind h (.modifyFrame h _ fun _ _ => rfl) fun _ => ?_
    refine .bind h (.read h _) fun frame => ?_
    exact .bind h (ht _) fun _ => .pure h _

theorem begin {arrival : Arrival} (ht : Session.LetsTrace law arrival.verbose) (s : Cursor) :
    (arrival.begin s).Obeys law := by
  refine .bind h (.newFrame h _) fun frame => ?_
  refine .bind h (.lift h _) fun flags => ?_
  exact .bind h (ht _) fun _ => .pure h _

theorem adopt (call : Call) (m : Match) : (call.adopt m).Obeys law :=
  .modifyFrame h _ fun _ hmark => hmark

variable {call : Call} (ht : Session.LetsTrace law call.verbose)

include ht

theorem review (round : Nat) (result : Option Match) : (call.review round result).Obeys law :=
  .bind h (ht _) fun _ => .read h _

theorem settle (frame : Frame) (result : Option Match) : (call.settle frame result).Obeys law :=
  .bind h (ht _) fun _ => .pure h _

theorem judge (round : Nat) (result : Option Match) {further : Match → Eval (Option Match)}
    (hfurther : ∀ m, (further m).Obeys law) : (call.judge round result further).Obeys law := by
  refine .bind h (.read h _) fun frame => ?_
  split
  · refine .bind h (h.review ht round result) fun frame => ?_
    cases call.longer? frame result with
    | none => exact h.settle ht frame result
    | some m => exact hfurther m
  · exact .pure h _

theorem grow {body : Eval (Option Match)} (hbody : body.Obeys law) (rounds : Nat) :
    ∀ (round : Nat) (result : Option Match), (call.grow body rounds round result).Obeys law := by
  induction rounds with
  | zero => exact fun round result => h.judge ht round result fun m => .throw h _
  | succ rounds ih =>
    refine fun round result => h.judge ht round result fun m => ?_
    refine .bind h (h.adopt call m) fun _ => ?_
    exact .bind h hbody fun result => ih (round + 1) result

theorem evaluate {body : Eval (Option Match)} (hbody : body.Obeys law) :
    (call.evaluate body).Obeys law :=
  .bind h hbody fun _ => grow h ht hbody _ _ _

theorem finish (result : Option Match) : (call.finish result).Obeys law := by
  refine .bind h (ht _) fun _ => ?_
  split
  · exact .pure h _
  · exact .map h (.lift h _) some

end Session.IsLaw

namespace Grammar.Respects

variable {g : Grammar ρ} (h : g.Respects law)

include h

theorem arrive {r : ρ} {guard : Guard} (hr : (g.rule r).guard = some guard) (s : Cursor) :
    (arrive guard.name guard.registry s).Obeys law := by
  intro σ
  rw [arrive_apply]
  cases hrun : Eval.registryOr guard.registry σ with
  | mk result σ' =>
    cases result with
    | ok id =>
      obtain ⟨hregistry, hflag⟩ := h.arrives hr hrun
      rw [Program.bind_ok hrun]
      refine h.trans hregistry (Obeys.bind_of h.toIsLaw hflag fun flag σ'' _ => ?_)
      refine Obeys.bind h.toIsLaw (.lift h.toIsLaw _) (fun f => ?_) σ''
      refine .bind h.toIsLaw (.read h.toIsLaw _) fun registry => ?_
      exact .bind h.toIsLaw (.lift h.toIsLaw _) fun active => .pure h.toIsLaw _
    | error stop =>
      -- A registry is always found.
      cases hbound : guard.registry <;> rw [hbound] at hrun <;> cases hrun

theorem guarded {r : ρ} {guard : Guard} (hr : (g.rule r).guard = some guard)
    {body : Cursor → Eval (Option Match)} (hbody : ∀ s, (body s).Obeys law) (s : Cursor) :
    (guarded guard.name guard.registry body s).Obeys law := by
  intro σ
  refine Obeys.bind_of h.toIsLaw (h.arrive hr s σ) fun arrival σ₁ harrive => ?_
  rcases h.traces hr harrive with ht | hany
  · split
    · exact h.toIsLaw.answer ht σ₁
    · refine Obeys.bind_of h.toIsLaw (h.toIsLaw.begin ht s σ₁) fun (call, s') σ₂ hbegin => ?_
      have ht' : Session.LetsTrace law call.verbose := Arrival.verbose_of_begin hbegin ▸ ht
      have hevaluate := h.toIsLaw.evaluate ht' (hbody s')
      refine Obeys.bind h.toIsLaw (fun σ => ?_) (h.toIsLaw.finish ht') σ₂
      exact h.deeper call.registry (hevaluate _)
  · exact hany _

end Grammar.Respects

/-! ### Parsers -/

namespace Parser

variable {call : ρ → Cursor → Eval (Option Match)}

theorem repeatWhile_obeys (h : Session.IsLaw law) {parser : Cursor → Eval (Option Match)}
    (hp : ∀ s, (parser s).Obeys law) (rounds : Nat) :
    ∀ s, (repeatWhile parser rounds s).Obeys law := by
  induction rounds with
  | zero => exact fun _ => .throw h _
  | succ rounds ih =>
    intro s
    refine .bind h (hp s) fun result => ?_
    cases result with
    | none => exact .pure h _
    | some m =>
      dsimp only
      split
      · exact .pure h _
      · exact .bind h (ih m.rest) fun _ => .pure h _

mutual

/-- What a parser evaluates to obeys a law if the calls of rules do. -/
theorem eval_obeys (h : Session.IsLaw law) (hc : ∀ r s, (call r s).Obeys law) :
    ∀ (parser : Parser ρ) (s : Cursor), (parser.eval call s).Obeys law
  | tag _, _ | scanner _, _ | eof, _ => .pure h _
  | alt branches, s => evalFirst_obeys h hc branches s
  | sequence items, s => .bind h (evalAll_obeys h hc items s) fun _ => .pure h _
  | mapped parser change, s => by
    refine .bind h (eval_obeys h hc parser s) fun result => ?_
    cases result with
    | none => exact .pure h _
    | some m => exact .bind h (.lift h _) fun _ => .pure h _
  | opt parser, s => by
    refine .bind h (eval_obeys h hc parser s) fun result => ?_
    cases result <;> exact .pure h _
  | many parser, s =>
    .bind h (repeatWhile_obeys h (eval_obeys h hc parser) _ s) fun _ => .pure h _
  | ref r, s => hc r s
  | peek parser, s => .bind h (eval_obeys h hc parser s) fun _ => .pure h _
  | absent parser, s => by
    refine .bind h (eval_obeys h hc parser s) fun result => ?_
    cases result <;> exact .pure h _
  | .edit change, s => .bind h (.lift h _) fun _ => .pure h _
  | reveal, s => by
    refine .bind h (.lift h _) fun flags => ?_
    refine .bind h (fun _ => h.untouched rfl rfl rfl (.refl _)) fun session => ?_
    refine .bind h (.lift h _) fun carried => ?_
    exact .bind h (.log h _) fun _ => .pure h _
  | probe label, s => .bind h (.log h _) fun _ => .pure h _
  | watch label parser, s => by
    refine .bind h (.log h _) fun _ => ?_
    refine .bind h (eval_obeys h hc parser s) fun result => ?_
    exact .bind h (.log h _) fun _ => .pure h _

theorem evalFirst_obeys (h : Session.IsLaw law) (hc : ∀ r s, (call r s).Obeys law) :
    ∀ (branches : List (Parser ρ)) (s : Cursor), (evalFirst call branches s).Obeys law
  | [], _ => .pure h _
  | parser :: rest, s => by
    refine .bind h (eval_obeys h hc parser s) fun result => ?_
    cases result with
    | none => exact evalFirst_obeys h hc rest s
    | some m => exact .pure h _

theorem evalAll_obeys (h : Session.IsLaw law) (hc : ∀ r s, (call r s).Obeys law) :
    ∀ (items : List (Parser ρ)) (s : Cursor), (evalAll call items s).Obeys law
  | [], _ => .pure h _
  | parser :: rest, s => by
    refine .bind h (eval_obeys h hc parser s) fun result => ?_
    cases result with
    | none => exact .pure h _
    | some m => exact .bind h (evalAll_obeys h hc rest m.rest) fun _ => .pure h _

end

end Parser

namespace Grammar.Respects

variable {g : Grammar ρ}

/-- Calls of rules obey what the grammar respects, however they end. -/
theorem call_obeys (h : g.Respects law) (depth : Nat) :
    ∀ (r : ρ) (s : Cursor), (g.call depth r s).Obeys law := by
  induction depth with
  | zero => exact fun _ _ => .throw h.toIsLaw _
  | succ depth ih =>
    intro r s
    have hbody := Parser.eval_obeys h.toIsLaw ih (g.rule r).body
    unfold Grammar.call
    cases hr : (g.rule r).guard with
    | none => exact hbody s
    | some guard => exact h.guarded hr hbody s

theorem eval_obeys (h : g.Respects law) (depth : Nat) (parser : Parser ρ) (s : Cursor) :
    (parser.eval (g.call depth) s).Obeys law :=
  Parser.eval_obeys h.toIsLaw (h.call_obeys depth) parser s

theorem apply_obeys (h : g.Respects law) (parser : Parser ρ) (s : Cursor) :
    (g.apply parser s).Obeys law :=
  h.eval_obeys _ parser s

/-- Parsing obeys what the grammar respects, if finding the registry does, and making it current
for something that obeys. -/
theorem parse_obeys (h : g.Respects law) (parser : Parser ρ) {request : Request} {σ : Session}
    (hregistry : law σ (Eval.registryOr request.registry σ).2)
    (hwithin : ∀ id σ', Eval.registryOr request.registry σ = (.ok id, σ') →
      ∀ x : Eval (Cursor × Option Match), x.Obeys law → law σ' (Eval.within id x σ').2) :
    law σ (g.parse parser request σ).2 := by
  have hlaw := h.toIsLaw
  refine Obeys.bind_of hlaw hregistry fun id σ₁ hrun => ?_
  refine Obeys.bind_of hlaw (hwithin id σ₁ hrun _ ?_) fun ⟨start, result⟩ σ₂ _ => ?_
  · refine .bind hlaw (.read hlaw _) fun capacity => ?_
    refine .bind hlaw (.lift hlaw _) fun start => ?_
    exact .bind hlaw (h.apply_obeys parser start) fun _ => .pure hlaw _
  · cases result with
    | none => exact Obeys.throw hlaw _ σ₂
    | some m =>
      dsimp only
      split
      · exact Obeys.throw hlaw _ σ₂
      · exact Obeys.pure hlaw _ σ₂

end Grammar.Respects

end SeedGrowth
