import SeedGrowth.Proofs.Run.Guarded
import SeedGrowth.Proofs.Scope.Mirror

/-!
# Guarded calls mirror scopes

A call that finds its flag set is a call of a rule in scope, and marks the frame of the
call that brought the rule into scope. A call that does not is one of a rule that is not
in scope; its loop goes on as that of the scope does, and its frame is marked if its body
asks for the rule.
-/
namespace SeedGrowth

variable {ρ κ : Type} {key : ρ → κ} {told : Told key} {S : Setting ρ}

namespace Call

variable {call : Call} {r : ρ} {outer : List (OpenCall ρ)} {scope : Scope κ}

/-- The frame's best match has its length. -/
def Measured (call : Call) (frame : Frame) : Prop :=
  frame.length = Scope.lengthOf call.position (frame.best.map Match.found)

theorem Measured.keeps {σ σ' : Session} {id : FrameId} (h : call.Measured (σ.frame id))
    (hk : σ.KeepsFrame σ' id) : call.Measured (σ'.frame id) := by
  rw [Measured, hk.length_eq, hk.best_eq]
  exact h

theorem longer?_found {frame : Frame} (h : call.Measured frame) (result : Option Match) :
    Scope.longer? call.position (frame.best.map Match.found) (result.map Match.found) =
      (call.longer? frame result).map Match.found := by
  unfold Scope.longer? longer?
  rw [← h]
  cases result with
  | none => rfl
  | some m =>
    have hconsumed : m.found.consumed call.position = m.consumed call.position := rfl
    simp only [Option.map_some, Option.filter_some, hconsumed]
    split <;> rfl

/-- The body of an open call, whenever it is evaluated, mirrors a reading of it with the
best match so far. -/
def BodyMirrors (told : Told key) (S : Setting ρ) (call : Call) (r : ρ) (outer : List (OpenCall ρ))
    (scope : Scope κ)
    (body : Followed ρ (Option Match)) (reading : Option Found → Account κ (Option Found)) : Prop :=
  ∀ {run : Run ρ}, run.Sound S → run.calls = call.opened r :: outer →
    scope.Covers key { run with calls := outer } →
    Mirrors told S run body (reading ((run.session.frame call.frame).best.map Match.found))
      (Option.map Match.found)

/-- What happens inside an open call does not change the scope around it. -/
theorem covers_outer {run run' : Run ρ} (h : run.Sound S)
    (hcalls : run.calls = call.opened r :: outer)
    (hk : Kept S call.frame run run') (hc : scope.Covers key { run with calls := outer }) :
    scope.Covers key { run' with calls := outer } := by
  refine hc.congr rfl fun c hmem i id hseat => ?_
  have hapart := h.apart
  rw [hcalls] at hapart
  obtain ⟨hlt, -⟩ := (List.pairwise_cons.1 hapart).1 c hmem _ _ _ _ rfl hseat
  exact (hk.frame_eq id hlt).best_eq

/-- Where the frame is not marked, a result is that of the call. -/
theorem followJudge_mirrors_idle {run : Run ρ} (h : run.Sound S)
    (hcalls : run.calls = call.opened r :: outer)
    (hidle : ¬ (run.session.frame call.frame).reentered = true) (round : Nat)
    (result : Option Match) {further : Match → Followed ρ (Option Match)} :
    Mirrors told S run (call.followJudge round result further) (return result.map Match.found)
      (Option.map Match.found) := by
  have hn := h.note (touched_sound h hcalls)
  refine .note (.step (read_step call.frame hn call.frame) (fun _ _ hmid => .of_same hmid.2) ?_)
  rintro _ σ - ⟨rfl, -⟩
  rw [if_neg (by exact hidle)]
  exact .pure rfl

/-- Where the frame is marked, a result is judged as it is in the loop of the scope. -/
theorem followJudge_mirrors (hv : call.verbose = S.verbose) {run : Run ρ} (h : run.Sound S)
    (hcalls : run.calls = call.opened r :: outer)
    (hmeasured : call.Measured (run.session.frame call.frame))
    (hmarked : (run.session.frame call.frame).reentered = true) (round : Nat)
    (result : Option Match) {further : Match → Followed ρ (Option Match)}
    {next : Found → Account κ (Option Found)}
    (hfurther : ∀ m run', Kept S call.frame run run' → run'.session.frames = run.session.frames →
      call.longer? (run.session.frame call.frame) result = some m →
      Mirrors told S run' (further m) (next m.found) (Option.map Match.found)) :
    Mirrors told S run (call.followJudge round result further)
      (match Scope.longer? call.position ((run.session.frame call.frame).best.map Match.found)
          (result.map Match.found) with
      | none => return (run.session.frame call.frame).best.map Match.found
      | some m => next m) (Option.map Match.found) := by
  have hsound := touched_sound h hcalls
  have hn := h.note hsound
  refine .note (.step (read_step call.frame hn call.frame) (fun _ _ hmid => .of_same hmid.2) ?_)
  intro frame₁ σ₁ hk₁ hmid
  obtain ⟨rfl, hframes₁⟩ := hmid
  have hsound₁ := touched_sound hk₁.sound hcalls
  have hn₁ := hk₁.sound.note hsound₁
  rw [show ((run.noted (.touched call.frame)).session.frame call.frame).reentered = true from hmarked,
    if_pos rfl]
  refine .note
    (.step (review_step call.frame hn₁ hv round result) (fun _ _ hmid => .of_same hmid.2) ?_)
  intro frame σ hk hmid
  obtain ⟨rfl, hframes⟩ := hmid
  have hsame : σ₁.frame call.frame = run.session.frame call.frame :=
    Session.frame_of_frames hframes₁ _
  have hkept := ((Kept.noted _ h hsound).trans hk₁).trans
    ((Kept.noted _ hk₁.sound hsound₁).trans hk)
  rw [longer?_found hmeasured]
  dsimp only [Run.noted]
  rw [hsame]
  cases hl : call.longer? (run.session.frame call.frame) result with
  | none =>
    refine .last (settle_step call.frame hk.sound hv _ result) (fun _ _ hmid => .of_same hmid.2) ?_
    intro best σ' hmid
    rw [hmid.1]
  | some m => exact hfurther m _ hkept (hframes.trans hframes₁) hl

/-- The loop of a call and the loop of its scope go through the same rounds. -/
theorem followGrow_mirrors (hv : call.verbose = S.verbose) {body : Followed ρ (Option Match)}
    (hbody : call.BodyYields S (call.opened r :: outer) body)
    {reading : Option Found → Account κ (Option Found)}
    (hmirrors : call.BodyMirrors told S r outer scope body reading) :
    ∀ (rounds round : Nat) (result : Option Match) {run : Run ρ}, run.Sound S →
      run.calls = call.opened r :: outer → scope.Covers key { run with calls := outer } →
      call.Measured (run.session.frame call.frame) →
      (run.session.frame call.frame).reentered = true →
      Shown S (call.opened r :: outer) call.position result →
      Mirrors told S run (call.followGrow body rounds round result)
        (Scope.grow call.position reading rounds
          ((run.session.frame call.frame).best.map Match.found) (result.map Match.found))
        (Option.map Match.found) := by
  intro rounds
  induction rounds with
  | zero =>
    intro round result run h hcalls _ hmeasured hmarked _
    rw [followGrow, Scope.grow]
    refine followJudge_mirrors hv h hcalls hmeasured hmarked round result ?_
    exact fun _ _ _ _ _ => .exhausted
  | succ rounds ih =>
    intro round result run h hcalls hcovers hmeasured hmarked hshown
    rw [followGrow, Scope.grow]
    refine followJudge_mirrors hv h hcalls hmeasured hmarked round result ?_
    intro m run' hk hframes hl
    obtain ⟨rfl, -, hfurther⟩ := of_longer? hl
    have hcalls' : run'.calls = call.opened r :: outer := hk.calls_eq.trans hcalls
    have hseed : m.rest.Shows S [] := (hshown m rfl).1.further
      (fun c hc => lt_of_lt_of_le hfurther (behind_opened h hcalls c hc)) (by simp)
    have hn := hk.sound.note (touched_sound hk.sound hcalls')
    have hlt := frame_lt hn hcalls'
    refine .note (.step (adopt_step le_rfl hn hcalls' hseed hfurther) ?_ ?_)
    · intro _ σ hframes'
      refine .of_frames fun c _ i id _ => ?_
      rw [Session.frame_modify hframes' hlt]
      split
      · next hid => rw [hid]
      · rfl
    · intro _ σ hk₂ hframes₂
      -- The match is the best one now, and its reading is what the scope hands out.
      have hbest : (σ.frame call.frame).best = some m := by
        rw [Session.frame_modify hframes₂ hlt, if_pos rfl]
      have hmeasured₂ : call.Measured (σ.frame call.frame) := by
        rw [Session.frame_modify hframes₂ hlt, if_pos rfl]
        rfl
      have hmarked₂ : (σ.frame call.frame).reentered = true := by
        rw [Session.frame_modify hframes₂ hlt, if_pos rfl]
        exact (congrArg Frame.reentered (Session.frame_of_frames hframes _)).trans hmarked
      have hcovers₂ := covers_outer h hcalls (hk.trans ((Kept.noted _ hk.sound
        (touched_sound hk.sound hcalls')).trans hk₂)) hcovers
      have hbodyMirrors := hmirrors hk₂.sound hcalls' hcovers₂
      have hbodyYields := hbody.keeping le_rfl hk₂.sound hcalls' (frame_lt hk₂.sound hcalls')
      dsimp only at hbodyMirrors
      rw [hbest] at hbodyMirrors
      refine .bind hbodyYields hbodyMirrors ?_
      intro next run₃ hk₃ hnext hrecords
      obtain ⟨hshown₃, hkeeps⟩ := hnext
      -- What the body asks for takes no mark off.
      have hmarked₃ := (hrecords.marks (call.opened r) (hcalls' ▸ List.mem_cons_self) _ _ rfl).2
        (.inl hmarked₂)
      have hcalls₃ := hk₃.calls_eq.trans hcalls'
      have hcovers₃ := covers_outer hk₂.sound hcalls' hk₃ hcovers₂
      have hgrow := ih (round + 1) next hk₃.sound hcalls₃ hcovers₃
        (hmeasured₂.keeps hkeeps) hmarked₃ hshown₃
      rw [hkeeps.best_eq, hbest] at hgrow
      exact hgrow

/-- A call that has just begun: its frame is not marked and has no best match. -/
structure Fresh (call : Call) (frame : Frame) : Prop where
  best_eq : frame.best = none
  length_eq : frame.length = 0
  unmarked : frame.reentered = false

theorem Fresh.measured {frame : Frame} (h : call.Fresh frame) : call.Measured frame := by
  rw [Measured, h.best_eq, h.length_eq]
  rfl

/-- An open call evaluates its body as its rule is evaluated in the scope. -/
theorem followEvaluate_mirrors [DecidableEq κ] (hv : call.verbose = S.verbose)
    {body : Followed ρ (Option Match)} (hbody : call.BodyYields S (call.opened r :: outer) body)
    {reading : Option Found → Account κ (Option Found)}
    (hmirrors : call.BodyMirrors told S r outer scope body reading) {run : Run ρ} (h : run.Sound S)
    (hcalls : run.calls = call.opened r :: outer)
    (hcovers : scope.Covers key { run with calls := outer })
    (hfresh : call.Fresh (run.session.frame call.frame)) :
    Mirrors told S run (call.followEvaluate body) (Scope.evaluate (key r) call.position reading)
      (Option.map Match.found) := by
  have hbodyMirrors := hmirrors h hcalls hcovers
  rw [hfresh.best_eq, Option.map_none] at hbodyMirrors
  refine .bind (hbody.keeping le_rfl h hcalls (frame_lt h hcalls)) hbodyMirrors.listen ?_
  intro result run' hk hresult hrecords
  obtain ⟨hshown, hkeeps⟩ := hresult
  have hcalls' := hk.calls_eq.trans hcalls
  have hmark : (run'.session.frame call.frame).reentered = true ↔
      (key r, call.position) ∈ (reading none).asked := by
    have hmarks := hrecords.marks (call.opened r) (hcalls ▸ List.mem_cons_self) _ _ rfl
    rw [hfresh.unmarked] at hmarks
    exact hmarks.trans (or_iff_right Bool.false_ne_true)
  by_cases hasked : (key r, call.position) ∈ (reading none).asked
  · have hgrow := followGrow_mirrors hv hbody hmirrors call.position 1 result hk.sound hcalls'
      (covers_outer h hcalls hk hcovers) (hfresh.measured.keeps hkeeps) (hmark.2 hasked) hshown
    rw [hkeeps.best_eq, hfresh.best_eq] at hgrow
    dsimp only
    rwa [if_pos hasked]
  · have hidle := fun hmarked => hasked (hmark.1 hmarked)
    dsimp only
    rw [if_neg hasked]
    cases call.position <;> exact followJudge_mirrors_idle hk.sound hcalls' hidle 1 result

end Call

/-- An open call has the flag of a rule if and only if it has the key. -/
theorem Run.Sound.flag_iff {run : Run ρ} (h : run.Sound S) (hkey : S.grammar.KeysFit key)
    {c : OpenCall ρ} (hc : c ∈ run.calls) {i : Nat} {id : FrameId} (hseat : c.seat = some (i, id))
    {r : ρ} {guard : Guard} {flag : Nat} (hr : (S.grammar.rule r).guard = some guard)
    (hfound : (run.session.registry S.home).find? guard.name = some flag) :
    i = flag ↔ key c.rule = key r := by
  obtain ⟨guard', hguard', -, hfound'⟩ := (h.seated c hc i id hseat).named
  rw [hkey (by rw [hguard']; rfl)]
  constructor
  · intro heq
    subst heq
    exact ⟨guard', guard, hguard', hr, Registry.alike_of_find? hfound' hfound⟩
  · intro hsame
    obtain ⟨guard₁, guard₂, hguard₁, hguard₂, halike⟩ := hsame
    rw [hguard'] at hguard₁
    rw [hr] at hguard₂
    cases hguard₁
    cases hguard₂
    rw [Registry.find?_eq_of_alike halike, hfound] at hfound'
    exact (Option.some.inj hfound').symm

/-- A frame belongs to the open call of rules of one name at one position. -/
theorem Run.Sound.frame_eq_iff {run : Run ρ} (h : run.Sound S) (hkey : S.grammar.KeysFit key)
    {s : Cursor} (hs : s.Shows S run.calls) {c d : OpenCall ρ} (hc : c ∈ run.calls)
    (hd : d ∈ run.calls) {i j : Nat} {id id' : FrameId} (hci : c.seat = some (i, id))
    (hdj : d.seat = some (j, id')) (hp : c.position = s.remaining) :
    id' = id ↔ (key d.rule, d.position) = (key c.rule, c.position) := by
  have hcseated := h.seated c hc i id hci
  have hdseated := h.seated d hd j id' hdj
  obtain ⟨guard, hguard, -, hfound⟩ := hcseated.named
  have hflag := h.flag_iff hkey hd hdj hguard hfound
  constructor
  · intro heq
    subst heq
    have hsame : j = i := hdseated.flag_eq.symm.trans hcseated.flag_eq
    rw [hflag.1 hsame, ← hdseated.position_eq, ← hcseated.position_eq]
  · intro heq
    obtain ⟨hrule, hposition⟩ := Prod.mk.inj heq
    have hsame := hflag.2 hrule
    subst hsame
    have hframe := hs.frameAt_eq _ le_rfl c hc _ id hp hci
    have hframe' := hs.frameAt_eq _ le_rfl d hd _ id' (hposition.trans hp) hdj
    rw [hframe] at hframe'
    exact (Option.some.inj hframe').symm

/-- A call that does not find its flag set has no rule of its key open around it. -/
theorem Arrival.Faces.idle {run : Run ρ} (h : run.Sound S) (hkey : S.grammar.KeysFit key) {r : ρ}
    {guard : Guard} (hr : (S.grammar.rule r).guard = some guard) {s : Cursor}
    (hs : s.Shows S run.calls) {arrival : Arrival}
    (hf : arrival.Faces S.home (run.session.registry S.home) guard.name s)
    (hactive : arrival.active = false) :
    ∀ c ∈ run.calls, key c.rule = key r → c.position = s.remaining → c.seat = none := by
  intro c hc hrule hposition
  cases hseat : c.seat with
  | none => rfl
  | some seat =>
    obtain ⟨i, id⟩ := seat
    have hflag := (h.flag_iff hkey hc hseat hr hf.found).2 hrule
    subst hflag
    have hlit := (hs.lit_iff _ le_rfl _).2 ⟨c, hc, id, hposition, hseat⟩
    rw [← hf.active_eq, hactive] at hlit
    cases hlit

/-- The answer to a call that finds its flag set is what the scope hands out for its rule. -/
theorem Arrival.followAnswer_mirrors {run : Run ρ} (h : run.Sound S) (hkey : S.grammar.KeysFit key)
    {r : ρ} {guard : Guard} (hr : (S.grammar.rule r).guard = some guard) {s : Cursor}
    (hs : s.Shows S run.calls) {arrival : Arrival}
    (hf : arrival.Faces S.home (run.session.registry S.home) guard.name s)
    (hactive : arrival.active = true) (hcalled : CalledInside run.calls run.moments r s.remaining)
    {scope : Scope κ}
    (hscope : scope.Covers key run) (hp : scope.position = s.remaining) :
    ∃ best, scope.best (key r) = some best ∧ Mirrors told S run arrival.followAnswer
      (Account.ask (key r) s.remaining >>= fun _ => return best) (Option.map Match.found) := by
  obtain ⟨c, hc, id, hposition, hseat, hframe⟩ := hf.seat hs hactive
  have hrule := (h.flag_iff hkey hc hseat hr hf.found).1 rfl
  have hv : arrival.verbose = S.verbose := hf.verbose_eq.trans h.verbose_eq
  refine ⟨(run.session.frame id).best.map Match.found, ?_, ?_⟩
  · exact (hscope.best_iff _ _).2 ⟨c, hc, _, id, hrule, hposition.trans hp.symm, hseat, rfl⟩
  · have hn := h.note (⟨h.orderly, c, hc, _, hseat⟩ :
      (⟨.touched id, run.calls, run.session.frames⟩ : Moment ρ).Sound S run.moments)
    have hlt := (h.seated c hc _ id hseat).lt_size
    simp only [followAnswer, hframe]
    refine .note ?_
    obtain ⟨result, σ, hy, -, hresult⟩ := answer_step (Nat.zero_le _) hn hv hc hseat hframe
    refine ⟨result, { run.noted (.touched id) with session := σ },
      by simp only [Followed.plain, hy], ?_⟩
    rcases hresult with ⟨best, rfl, rfl, hframes⟩ | ⟨fault, rfl, hhinders⟩
    · refine .inr ⟨⟨fun d hd j id' hdj => ?_, fun k position hmem => ?_, List.suffix_rfl⟩, rfl⟩
      · have hiff := h.frame_eq_iff hkey hs hc hd hseat hdj hposition
        rw [hrule, hposition] at hiff
        dsimp only
        rw [Session.frame_modify hframes hlt]
        by_cases hid : id' = id
        · rw [if_pos hid]
          exact ⟨fun _ => .inr (List.mem_singleton.2 (hiff.1 hid)), fun _ => rfl⟩
        · rw [if_neg hid]
          refine ⟨.inl, fun hmarked => hmarked.resolve_right fun hmem => hid ?_⟩
          exact hiff.2 (List.mem_singleton.1 hmem)
      · obtain ⟨rfl, rfl⟩ := Prod.mk.inj (List.mem_singleton.1 hmem)
        exact told.called (hcalled.later (List.suffix_cons _ _))
    · exact .inl ⟨fault, rfl, hhinders⟩

/-- The body of a rule, wherever it is evaluated inside a call of the rule, mirrors its
reading in the scope there. -/
def RuleMirrors (told : Told key) (S : Setting ρ) (outer : List (OpenCall ρ)) (r : ρ) (s : Cursor)
    (body : Cursor → Followed ρ (Option Match)) (reading : Scope κ → Account κ (Option Found)) :
    Prop :=
  ∀ (s' : Cursor) (run : Run ρ) (scope : Scope κ), s'.point = s.point → run.Sound S →
    s'.Shows S run.calls → (∃ c : OpenCall ρ, c.rule = r ∧ run.calls = c :: outer) →
    scope.Covers key run → scope.position = s.remaining →
    Mirrors told S run (body s') (reading scope) (Option.map Match.found)

/-- An open call of a rule evaluates its body as the account says, wherever it has begun. -/
def EvaluationMirrors (told : Told key) (S : Setting ρ) (outer : List (OpenCall ρ)) (r : ρ)
    (s : Cursor) (body : Cursor → Followed ρ (Option Match)) (scope : Scope κ)
    (account : Account κ (Option Found)) : Prop :=
  ∀ {run run' : Run ρ} {call : Call} {s' : Cursor} {σ : Session}, call.Begun S run r s s' σ →
    run.calls = outer → run'.Sound S → run'.calls = call.opened r :: outer →
    scope.Covers key { run' with calls := outer } →
    call.Fresh (run'.session.frame call.frame) →
    Mirrors told S run' (call.followEvaluate (body s')) account (Option.map Match.found)

namespace Call.Begun

variable {run : Run ρ} {call : Call} {r : ρ} {s s' : Cursor} {σ : Session}

theorem frame_of_lt (hb : call.Begun S run r s s' σ) {id : FrameId}
    (h : id < run.session.frames.size) : σ.frame id = run.session.frame id := by
  rw [Session.frame_push hb.frames_eq, if_neg h.ne]

theorem fresh (hb : call.Begun S run r s s' σ) : call.Fresh (σ.frame call.frame) := by
  rw [Session.frame_push hb.frames_eq, if_pos hb.frame_eq]
  exact ⟨rfl, rfl, rfl⟩

/-- The body of a call that has begun has its rule in scope. -/
theorem bodyMirrors [DecidableEq κ] (hb : call.Begun S run r s s' σ) {scope : Scope κ}
    (hnew : scope.best (key r) = none) (hp : scope.position = s.remaining)
    {body : Cursor → Followed ρ (Option Match)} {reading : Scope κ → Account κ (Option Found)}
    (hbody : RuleMirrors told S run.calls r s body reading) :
    call.BodyMirrors told S r run.calls scope (body s') fun best =>
      reading (scope.add (key r) best) := by
  intro run' h hcalls hcovers
  have hpoint : s'.point = s.point := by
    rw [Cursor.point, hb.fragment_eq, hb.place_eq, Cursor.point]
  have hadd : run'.calls = ⟨r, scope.position, some (call.flag, call.frame)⟩ :: run.calls := by
    rw [hcalls, Call.opened, hb.position_eq, hp]
  exact hbody s' run' _ hpoint h (hcalls ▸ hb.shows) ⟨_, rfl, hcalls⟩ (hcovers.add hnew hadd) hp

/-- A call that has begun goes on and ends as its body is evaluated. -/
theorem rest_mirrors (hb : call.Begun S run r s s' σ) (h : run.Sound S)
    (hs : s.Shows S run.calls) {scope : Scope κ} (hscope : scope.Covers key run)
    {body : Cursor → Followed ρ (Option Match)} (hyields : RuleYields S run.calls r s body)
    {account : Account κ (Option Found)}
    (hevaluation : EvaluationMirrors told S run.calls r s body scope account) :
    Mirrors told S { run with session := σ } (do
        let result ← Followed.inside (call.opened r)
          (Followed.deeper call.registry (call.followEvaluate (body s')))
        Followed.plain (call.finish result))
      account (Option.map Match.found) := by
  have hbodyYields : call.BodyYields S (call.opened r :: run.calls) (body s') :=
    hb.bodyYields hyields
  have hevaluate : Mirrors told S { run with session := σ } (Followed.inside (call.opened r)
      (Followed.deeper call.registry (call.followEvaluate (body s')))) account
      (Option.map Match.found) := by
    refine .inside (.deeper hb.sound fun run' h' hcalls hframes => ?_)
    have hframe : ∀ id, run'.session.frame id = σ.frame id := Session.frame_of_frames hframes
    refine hevaluation hb rfl h' hcalls ?_ ?_
    · refine hscope.congr rfl fun c hc i id hseat => ?_
      dsimp only
      rw [hframe, hb.frame_of_lt (h.seated c hc i id hseat).lt_size]
    · rw [hframe]
      exact hb.fresh
  rw [← Account.bind_pure account]
  refine .bind (hb.inside_yields (Nat.zero_le _) hbodyYields) hevaluate ?_
  intro result run' hk hshown _
  refine .last (hb.finish_step 0 hs hk.sound fun m hm => (hshown m hm).1)
    (fun _ _ hmid => .of_same hmid.1) ?_
  intro answer σ' hanswer
  obtain ⟨-, ⟨rfl, rfl⟩ | ⟨m, m', rfl, rfl, hvalue, hfragment, hplace, -⟩⟩ := hanswer
  · rfl
  · simp only [Option.map_some, Match.found, Cursor.point, hvalue, hfragment, hplace]

end Call.Begun

/-- A body that mirrors its reading is evaluated as its rule is in the scope. -/
theorem RuleMirrors.evaluation [DecidableEq κ] {outer : List (OpenCall ρ)} {r : ρ} {s : Cursor}
    {scope : Scope κ} (hnew : scope.best (key r) = none) (hp : scope.position = s.remaining)
    {body : Cursor → Followed ρ (Option Match)} (hyields : RuleYields S outer r s body)
    {reading : Scope κ → Account κ (Option Found)}
    (hbody : RuleMirrors told S outer r s body reading) :
    EvaluationMirrors told S outer r s body scope
      (Scope.evaluate (key r) s.remaining fun best => reading (scope.add (key r) best)) := by
  intro run run' call s' σ hb houter h hcalls hcovers hfresh
  subst houter
  rw [← hb.position_eq]
  exact Call.followEvaluate_mirrors hb.verbose_eq (hb.bodyYields hyields)
    (hb.bodyMirrors hnew hp hbody) h hcalls hcovers hfresh

/-- A call of a guarded rule comes out as it does in its scope. -/
theorem followGuarded_mirrors {run : Run ρ} (h : run.Sound S)
    (hkey : S.grammar.KeysFit key) {r : ρ} {guard : Guard}
    (hr : (S.grammar.rule r).guard = some guard) {s : Cursor} (hs : s.Shows S run.calls)
    (hc : run.Asks r s) {scope : Scope κ} (hscope : scope.Covers key run)
    (hle : s.remaining ≤ scope.position) {body : Cursor → Followed ρ (Option Match)}
    (hyields : RuleYields S run.calls r s body) {account : Account κ (Option Found)}
    (hevaluation : (scope.movedTo s.remaining).best (key r) = none →
      EvaluationMirrors told S run.calls r s body (scope.movedTo s.remaining) account) :
    Mirrors told S run (followGuarded r guard.name guard.registry body s)
      (Account.ask (key r) s.remaining >>= fun _ =>
        match (scope.movedTo s.remaining).best (key r) with
        | some best => return best
        | none => account) (Option.map Match.found) := by
  obtain ⟨m, hm, hcall⟩ := hc
  refine .step (arrive_step 0 h hr hs.width_eq) (fun _ _ hmid => .of_same hmid.1) ?_
  intro arrival σ hk hmid
  obtain ⟨hframes, hf⟩ := hmid
  let run₁ : Run ρ := Run.noted { run with session := σ } (.arrived r arrival)
  have h₁ : run₁.Sound S :=
    hk.sound.note ⟨hk.sound.orderly, fun ha => hf.recognises hk.sound ha hr hs⟩
  have hcalled : CalledInside run₁.calls run₁.moments r s.remaining :=
    ⟨m, List.mem_cons_of_mem _ hm, ⟨s, hcall.1, rfl⟩, hcall.2 ▸ List.suffix_rfl⟩
  have hscope₁ : (scope.movedTo s.remaining).Covers key run₁ := by
    refine (hscope.movedTo hle).congr rfl fun c _ i id _ => ?_
    exact congrArg Frame.best (Session.frame_of_frames hframes id)
  have hp : (scope.movedTo s.remaining).position = s.remaining := scope.position_movedTo _
  refine .note ?_
  cases hactive : arrival.active with
  | true =>
    obtain ⟨best, hbest, hmirrors⟩ :=
      Arrival.followAnswer_mirrors h₁ hkey hr hs hf hactive hcalled hscope₁ hp
    rw [hbest]
    exact hmirrors
  | false =>
    have hidle := hf.idle h₁ hkey hr hs hactive
    have hnew : (scope.movedTo s.remaining).best (key r) = none :=
      hscope₁.best_eq_none fun c hc hrule hposition => hidle c hc hrule (hposition.trans hp)
    rw [hnew]
    refine .ask hcalled hidle ?_
    refine .step (begin_step (Nat.zero_le _) h₁ hr hs ⟨m, List.mem_cons_of_mem _ hm, hcall⟩ hf
      hactive) ?_ ?_
    · rintro ⟨call, s'⟩ σ' hb
      refine .of_frames fun c hc i id hseat => ?_
      rw [hb.frame_of_lt (h₁.seated c hc i id hseat).lt_size]
    · rintro ⟨call, s'⟩ σ' - hb
      exact hb.rest_mirrors h₁ hs hscope₁ hyields (hevaluation hnew)

end SeedGrowth
