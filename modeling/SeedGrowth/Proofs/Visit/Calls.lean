import Mathlib.Logic.Relation
import SeedGrowth.Proofs.Visit.Fits

/-!
# Calls of rules stay within their cursors

The body of a guarded call begins with a cursor that is covered by the call and those
around it. So are all matches of the body, and the one that is kept from round to round;
without the flag of the call they are covered by the calls around it, which the cursor
shows. A call that finds its flag set gets a match that is covered by calls that it is
inside of.
-/
namespace SeedGrowth

variable {ρ : Type} {S : Setting ρ} {run : Run ρ}

/-- A step that goes well is as stated. -/
theorem Steps.of_ok {α : Type} {older : Nat} {y : Eval α} {post : α → Session → Prop}
    (h : Steps S older run y post) {a : α} {σ : Session} (hy : y run.session = (.ok a, σ)) :
    Kept S older run { run with session := σ } ∧ post a σ := by
  obtain ⟨result, σ', hy', hkept, hresult⟩ := h
  rw [hy] at hy'
  cases hy'
  rcases hresult with ⟨a', ha, hpost⟩ | ⟨fault, hfault, -⟩
  · cases ha
    exact ⟨hkept, hpost⟩
  · cases hfault

/-- A rule is called at a cursor. -/
structure Run.Calling (S : Setting ρ) (run : Run ρ) (depth : Nat) (r : ρ) (s : Cursor) : Prop where
  sound : run.Sound S
  seeded : run.Seeded
  shows : s.Shows S run.calls
  asks : run.Asks r s
  depth_eq : depth + 1 + run.calls.length = S.depth

/-- The run is inside a call. -/
structure Run.Inside (S : Setting ρ) (run : Run ρ) (c : OpenCall ρ) (outer : List (OpenCall ρ)) :
    Prop where
  sound : run.Sound S
  seeded : run.Seeded
  calls_eq : run.calls = c :: outer

theorem Visit.Fits.calling {depth : Nat} {r : ρ} {s : Cursor} {σ : Session}
    (h : Visit.Fits S ⟨depth + 1, .ref r, s, σ⟩ run) :
    ∃ run' : Run ρ, run'.session = σ ∧ run'.Calling S depth r s :=
  ⟨run.noted (.handed (.ref r) s), h.session_eq,
    h.sound.note ⟨h.sound.orderly, h.shows, h.heads⟩, h.seeded, h.shows,
    ⟨_, List.mem_cons_self, rfl, rfl⟩, h.depth_eq⟩

namespace Run.Calling

variable {depth : Nat} {r : ρ} {s : Cursor}

/-- The body of a plain rule is visited at the cursor of the call. -/
theorem plain (h : run.Calling S depth r s) (hr : (S.grammar.rule r).guard = none) :
    Visit.Fits S ⟨depth, (S.grammar.rule r).body, s, run.session⟩
      { run with calls := ⟨r, s.remaining, none⟩ :: run.calls } where
  session_eq := rfl
  sound := h.sound.begin_plain h.shows h.asks hr
  seeded := .cons rfl (fun _ _ hseat => by cases hseat) h.seeded
  shows := h.shows.cons_plain le_rfl
  heads := .of_rule rfl
  depth_eq := by
    have hdepth := h.depth_eq
    rw [List.length_cons]
    dsimp only
    omega
  combinator := S.combinators r

theorem arrived (h : run.Calling S depth r s) {guard : Guard}
    (hr : (S.grammar.rule r).guard = some guard) {arrival : Arrival} {σ : Session}
    (harrive : arrive guard.name guard.registry s run.session = (.ok arrival, σ)) :
    Run.Calling S { run with session := σ } depth r s ∧
      arrival.Faces S.home (σ.registry S.home) guard.name s := by
  obtain ⟨hkept, -, hfaces⟩ := (arrive_step run.session.frames.size h.sound hr
    h.shows.width_eq).of_ok harrive
  exact ⟨⟨hkept.sound, h.seeded.kept h.sound hkept, h.shows, h.asks, h.depth_eq⟩, hfaces⟩

/-- The answer to a call that finds its flag set is covered by calls that it is inside of. -/
theorem answer_within (h : run.Calling S depth r s) {name : Value} {arrival : Arrival}
    (hf : arrival.Faces S.home (run.session.registry S.home) name s)
    (hactive : arrival.active = true) {m : Match} {σ : Session}
    (hanswer : arrival.answer run.session = (.ok (some m), σ)) : m.rest.Within s := by
  obtain ⟨c, hc, id, hp, hseat, hframe⟩ := hf.seat h.shows hactive
  obtain ⟨result, σ', hanswer', -, -, -, hresult⟩ :=
    answer_spec hframe (h.sound.seated c hc _ id hseat).lt_size
  rw [hanswer] at hanswer'
  cases hanswer'
  rcases hresult with hbest | ⟨-, hfault⟩
  · obtain ⟨before, outer, hcalls⟩ := List.append_of_mem hc
    have hsuffix : c :: outer <:+ run.calls := ⟨before, hcalls.symm⟩
    have hcovered := h.seeded c outer hsuffix _ id hseat m (Except.ok.inj hbest).symm
    rw [hp] at hcovered
    exact hcovered.within hsuffix.subset h.shows
  · cases hfault

end Run.Calling

/-- A match that is longer than those before is made the best one inside the call. -/
theorem Run.Inside.adopted {call : Call} {r : ρ} {outer : List (OpenCall ρ)}
    (hi : run.Inside S (call.opened r) outer) {m : Match} (hm : m.rest.Shows S [])
    (hlt : m.rest.remaining < call.position)
    (hcovered : m.rest.CoveredBy (call.opened r :: outer) call.position) {σ : Session}
    (hadopt : call.adopt m run.session = (.ok (), σ)) :
    Run.Inside S { run with session := σ } (call.opened r) outer := by
  obtain ⟨hkept, hframes⟩ := (Call.adopt_step le_rfl hi.sound hi.calls_eq hm hlt).of_ok hadopt
  have hframe := Session.frame_modify hframes (Call.frame_lt hi.sound hi.calls_eq)
  refine ⟨hkept.sound, .cons hi.calls_eq ?_ ?_, hi.calls_eq⟩
  · intro i id hseat m' hm'
    cases hseat
    rw [hframe, if_pos rfl] at hm'
    cases hm'
    exact hcovered
  · -- The frames of the calls around it are earlier ones.
    refine (hi.seeded.outer hi.calls_eq).of_best rfl fun c hc i id hseat => ?_
    have hapart := hi.sound.apart
    rw [hi.calls_eq] at hapart
    obtain ⟨hearlier, -⟩ := (List.pairwise_cons.1 hapart).1 c hc _ _ _ _ rfl hseat
    rw [hframe, if_neg hearlier.ne]

namespace Call.Begun

variable {call : Call} {depth : Nat} {r : ρ} {s s' : Cursor} {σ : Session}

/-- The run is inside the call that has begun. -/
theorem inside (hb : call.Begun S run r s s' σ) (h : run.Sound S) (hseeded : run.Seeded) :
    Run.Inside S { run with
      session := σ.modifyRegistry call.registry fun r => { r with level := r.level + 1 },
      calls := call.opened r :: run.calls } (call.opened r) run.calls where
  sound := (Kept.session_same 0 hb.sound (.level _ _ fun r => r.level + 1) rfl).sound
  seeded := by
    refine .cons rfl ?_ (hseeded.of_best rfl ?_)
    · intro i id hseat m hm
      cases hseat
      change (σ.frame call.frame).best = some m at hm
      rw [Session.frame_push hb.frames_eq, if_pos hb.frame_eq] at hm
      cases hm
    · intro c hc i id hseat
      have hlt := (h.seated c hc i id hseat).lt_size
      change (σ.frame id).best = (run.session.frame id).best
      rw [Session.frame_push hb.frames_eq, if_neg hlt.ne]
  calls_eq := rfl

/-- The body is visited inside the call. -/
theorem fits (hb : call.Begun S run r s s' σ) (hd : depth + 1 + run.calls.length = S.depth)
    {run' : Run ρ} (hi : run'.Inside S (call.opened r) run.calls) :
    Visit.Fits S ⟨depth, (S.grammar.rule r).body, s', run'.session⟩ run' where
  session_eq := rfl
  sound := hi.sound
  seeded := hi.seeded
  shows := hi.calls_eq ▸ hb.shows
  heads := hi.calls_eq ▸ .of_rule rfl
  depth_eq := by
    rw [hi.calls_eq, List.length_cons]
    dsimp only
    omega
  combinator := S.combinators r

/-- The cursor of the body is covered by the call and those around it. -/
theorem covered (hb : call.Begun S run r s s' σ) (ht : S.tidy) :
    s'.CoveredBy (call.opened r :: run.calls) call.position := by
  have hp : call.position = s'.remaining :=
    hb.position_eq.trans (congrArg List.length hb.fragment_eq).symm
  rw [hp]
  exact hb.shows.covered ht ((hb.shows.lit_iff _ le_rfl call.flag).2
    ⟨call.opened r, List.mem_cons_self, call.frame, hp, rfl⟩)

/-- An evaluation of the body leaves the run inside the call; its match is covered by the
call and those around it. -/
theorem evaluated (hb : call.Begun S run r s s' σ) (ht : S.tidy)
    (hstays : ∀ parser, Visit.Stays S depth parser) (hd : depth + 1 + run.calls.length = S.depth)
    {run' : Run ρ} (hi : run'.Inside S (call.opened r) run.calls) {result : Option Match}
    {σ' : Session} (hbody : (S.grammar.rule r).body.eval (S.grammar.call depth) s' run'.session =
      (.ok result, σ')) :
    ∃ run'' : Run ρ, run''.session = σ' ∧ run''.Inside S (call.opened r) run.calls ∧
      ∀ m, result = some m → m.rest.Shows S (call.opened r :: run.calls) ∧
        m.rest.CoveredBy (call.opened r :: run.calls) call.position := by
  have hfits := hb.fits hd hi
  obtain ⟨run'', hsession, hkept, hseeded, htaken⟩ := hfits.eval hbody
  refine ⟨run'', hsession, ⟨hkept.sound, hseeded, hkept.calls_eq.trans hi.calls_eq⟩, ?_⟩
  rintro m rfl
  exact ⟨hi.calls_eq ▸ (htaken m rfl).1, (hstays _ hfits hbody).covered (hb.covered ht)⟩

/-- Whenever the body is evaluated, the run is inside the call. -/
theorem evaluates_inside (hb : call.Begun S run r s s' σ) (ht : S.tidy)
    (hstays : ∀ parser, Visit.Stays S depth parser) (hd : depth + 1 + run.calls.length = S.depth)
    {run₀ : Run ρ} (hi : run₀.Inside S (call.opened r) run.calls) {round : Nat} {σ' : Session}
    (he : call.Evaluates ((S.grammar.rule r).body.eval (S.grammar.call depth) s') run₀.session
      round σ') :
    ∃ run' : Run ρ, run'.session = σ' ∧ run'.Inside S (call.opened r) run.calls := by
  induction he with
  | first => exact ⟨run₀, rfl, hi⟩
  | @again _ _ _ σ₃ _ _ _ m _ hbody _ hreview hlonger hadopt ih =>
    obtain ⟨run₁, rfl, hi₁⟩ := ih
    obtain ⟨run₂, rfl, hi₂, hresult⟩ := hb.evaluated ht hstays hd hi₁ hbody
    obtain ⟨rfl, -, hfurther⟩ := of_longer? hlonger
    obtain ⟨hshows, hcovered⟩ := hresult _ rfl
    have hseed : m.rest.Shows S [] := hshows.further
      (fun c hc => lt_of_lt_of_le hfurther (behind_opened hi₂.sound hi₂.calls_eq c hc))
      (by simp)
    obtain ⟨hkept, -⟩ := (review_step run₂.session.frames.size hi₂.sound hb.verbose_eq _ _).of_ok
      hreview
    have hi₃ : Run.Inside S { run₂ with session := σ₃ } (call.opened r) run.calls :=
      ⟨hkept.sound, hi₂.seeded.kept hi₂.sound hkept, hi₂.calls_eq⟩
    exact ⟨_, rfl, hi₃.adopted hseed hfurther hcovered hadopt⟩

/-- The result of the call, before its flag is taken off, is covered by the call and those
around it. -/
theorem result_covered (hb : call.Begun S run r s s' σ) (ht : S.tidy)
    (hstays : ∀ parser, Visit.Stays S depth parser) (hd : depth + 1 + run.calls.length = S.depth)
    {run₀ : Run ρ} (hi : run₀.Inside S (call.opened r) run.calls) {m : Match} {σ' : Session}
    (h : call.evaluate ((S.grammar.rule r).body.eval (S.grammar.call depth) s') run₀.session =
      (.ok (some m), σ')) :
    m.rest.width = S.width ∧ m.rest.CoveredBy (call.opened r :: run.calls) call.position := by
  obtain ⟨round, σ₁, last, σ₂, he, hbody, hanswer⟩ := exists_of_evaluate h
  obtain ⟨run₁, rfl, hi₁⟩ := hb.evaluates_inside ht hstays hd hi he
  obtain ⟨run₂, rfl, hi₂, hresult⟩ := hb.evaluated ht hstays hd hi₁ hbody
  rcases hanswer with rfl | hbest
  · obtain ⟨hshows, hcovered⟩ := hresult m rfl
    exact ⟨hshows.width_eq, hcovered⟩
  · have hseat : (call.opened r).seat = some (call.flag, call.frame) := rfl
    have hseated := hi₂.sound.seated (call.opened r) (hi₂.calls_eq ▸ List.mem_cons_self) _ _ hseat
    exact ⟨(hseated.best_shows m hbest.symm).2.width_eq,
      hi₂.seeded (call.opened r) run.calls (hi₂.calls_eq ▸ List.suffix_rfl) _ _ hseat m hbest.symm⟩

end Call.Begun

namespace Run.Calling

variable {depth : Nat} {r : ρ} {s : Cursor}

/-- A call that does not find its flag set begins. -/
theorem begun (h : run.Calling S depth r s) {guard : Guard}
    (hr : (S.grammar.rule r).guard = some guard) {arrival : Arrival}
    (hf : arrival.Faces S.home (run.session.registry S.home) guard.name s)
    (hidle : arrival.active = false) {call : Call} {s' : Cursor} {σ : Session}
    (hbegin : arrival.begin s run.session = (.ok (call, s'), σ)) : call.Begun S run r s s' σ :=
  ((begin_step le_rfl h.sound hr h.shows h.asks hf hidle).of_ok hbegin).2

/-- Calls of guarded rules stay within their cursors if the bodies do. -/
theorem guarded_within (ht : S.tidy) (hstays : ∀ parser, Visit.Stays S depth parser)
    (h : run.Calling S depth r s) {guard : Guard} (hr : (S.grammar.rule r).guard = some guard)
    {m : Match} {σ : Session}
    (hcall : guarded guard.name guard.registry
      ((S.grammar.rule r).body.eval (S.grammar.call depth)) s run.session = (.ok (some m), σ)) :
    m.rest.Within s := by
  obtain ⟨arrival, σ₁, harrive, hcall⟩ := Program.exists_of_bind hcall
  obtain ⟨hcalling, hf⟩ := h.arrived hr harrive
  cases hactive : arrival.active with
  | true =>
    rw [if_pos hactive] at hcall
    exact hcalling.answer_within hf hactive hcall
  | false =>
    rw [hactive, if_neg Bool.false_ne_true] at hcall
    obtain ⟨⟨call, s'⟩, σ₂, hbegin, hcall⟩ := Program.exists_of_bind hcall
    obtain ⟨result, σ₃, hdeeper, hfinish⟩ := Program.exists_of_bind hcall
    have hb := hcalling.begun hr hf hactive hbegin
    obtain ⟨m', rfl, hleave⟩ := Call.exists_of_finish hfinish
    obtain ⟨σ₄, hevaluate, -⟩ := Eval.exists_of_deeper hdeeper
    have hi := hb.inside hcalling.sound hcalling.seeded
    obtain ⟨hwidth, hcovered⟩ := hb.result_covered ht hstays hcalling.depth_eq hi hevaluate
    obtain ⟨width, hw, hlt⟩ := hb.flag_lt
    have hleft := Match.covered_leave hcovered rfl (hwidth.trans hw) hlt hleave
    rw [hb.position_eq] at hleft
    exact hleft.within (List.Subset.refl _) hcalling.shows

end Run.Calling

/-- Parsers stay within their cursors. -/
theorem Visit.stays (ht : S.tidy) (depth : Nat) (parser : Parser ρ) :
    Visit.Stays S depth parser := by
  induction depth generalizing parser with
  | zero =>
    refine Parser.eval_within (fun r s σ σ' run m _ h => ?_) parser
    cases h
  | succ depth ih =>
    refine Parser.eval_within (fun r s σ σ' run m hv h => ?_) parser
    obtain ⟨run', rfl, hcalling⟩ := hv.calling
    rw [Parser.eval, Grammar.call] at h
    cases hr : (S.grammar.rule r).guard with
    | none =>
      rw [hr] at h
      exact ih _ (hcalling.plain hr) h
    | some guard =>
      rw [hr] at h
      exact hcalling.guarded_within ht ih hr h

/-- What a visit that fits leads to fits. -/
theorem Visit.Fits.leads {v v' : Visit ρ} (h : v.Fits S run) (ht : S.tidy)
    (hl : S.grammar.Leads v v') : ∃ run', v'.Fits S run' := by
  cases hl with
  | branch => exact ⟨run, h.branch⟩
  | otherwise hv => exact h.otherwise hv
  | item => exact ⟨run, h.item⟩
  | after hv => exact h.after hv
  | mapped => exact ⟨run, h.mapped⟩
  | opt => exact ⟨run, h.opt⟩
  | many => exact ⟨run, h.many⟩
  | further hv => exact h.further hv
  | plain hr =>
    obtain ⟨run', rfl, hcalling⟩ := h.calling
    exact ⟨_, hcalling.plain hr⟩
  | guarded hr harrive hidle hbegin he =>
    obtain ⟨run', rfl, hcalling⟩ := h.calling
    obtain ⟨hcalling, hf⟩ := hcalling.arrived hr harrive
    have hb := hcalling.begun hr hf hidle hbegin
    obtain ⟨run'', rfl, hi⟩ := hb.evaluates_inside ht (Visit.stays ht _) hcalling.depth_eq
      (hb.inside hcalling.sound hcalling.seeded) he
    exact ⟨run'', hb.fits hcalling.depth_eq hi⟩

/-- All visits of a run fit if its first one does. -/
theorem Visit.Fits.reached {v v' : Visit ρ} (h : v.Fits S run) (ht : S.tidy)
    (hr : Relation.ReflTransGen S.grammar.Leads v v') : ∃ run', v'.Fits S run' := by
  induction hr with
  | refl => exact ⟨run, h⟩
  | tail _ hl ih =>
    obtain ⟨run', h'⟩ := ih
    exact h'.leads ht hl

end SeedGrowth
