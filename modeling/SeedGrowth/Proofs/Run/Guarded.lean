import SeedGrowth.Proofs.Run.Yields

/-!
# Guarded calls keep a run coherent

A call that finds its flag set hands out a seed, which shows no call and so fits in
anywhere. A call that does not sets its flag, and shows in the cursor of its body; its
matches only get longer, so that its loop ends before its rounds are used up.
-/
namespace SeedGrowth

variable {ρ : Type} {S : Setting ρ}

namespace Call

variable {call : Call} {r : ρ} {outer : List (OpenCall ρ)}

/-- The body of an open call, whenever it is evaluated. -/
def BodyYields (S : Setting ρ) (call : Call) (calls : List (OpenCall ρ))
    (body : Followed ρ (Option Match)) : Prop :=
  ∀ {run : Run ρ}, run.Sound S → run.calls = calls → call.frame < run.session.frames.size →
    Yields S (call.frame + 1) run body fun result _ => Shown S calls call.position result

theorem touched_sound {run : Run ρ} (h : run.Sound S)
    (hcalls : run.calls = call.opened r :: outer) :
    (⟨.touched call.frame, run.calls, run.session.frames⟩ : Moment ρ).Sound S run.moments :=
  ⟨h.orderly, call.opened r, hcalls ▸ List.mem_cons_self, call.flag, rfl⟩

/-- A match that is longer than another ends further on than the call began. -/
theorem of_longer? {frame : Frame} {result : Option Match} {m : Match}
    (h : call.longer? frame result = some m) :
    result = some m ∧ frame.length < m.consumed call.position ∧
      m.rest.remaining < call.position := by
  obtain ⟨hm, hlt⟩ := Option.filter_eq_some_iff.1 h
  have hlt := of_decide_eq_true hlt
  refine ⟨hm, hlt, ?_⟩
  unfold Match.consumed at hlt
  omega

/-- The calls around an open call began where it did or before. -/
theorem behind_opened {run : Run ρ} (h : run.Sound S)
    (hcalls : run.calls = call.opened r :: outer) :
    ∀ c ∈ call.opened r :: outer, call.position ≤ c.position := by
  have horderly := h.orderly
  rw [hcalls] at horderly
  obtain ⟨-, -, -, hbehind, -⟩ := horderly
  intro c hc
  rcases List.mem_cons.1 hc with rfl | hc
  · exact le_rfl
  · exact hbehind c hc

theorem frame_lt {run : Run ρ} (h : run.Sound S) (hcalls : run.calls = call.opened r :: outer) :
    call.frame < run.session.frames.size :=
  (h.seated (call.opened r) (hcalls ▸ List.mem_cons_self) _ _ rfl).lt_size

/-- The best match of an open call can be its result. -/
theorem best_shown {run : Run ρ} (h : run.Sound S) (hcalls : run.calls = call.opened r :: outer) :
    Shown S (call.opened r :: outer) call.position (run.session.frame call.frame).best := by
  intro m hm
  have hown := h.seated (call.opened r) (hcalls ▸ List.mem_cons_self) _ _ rfl
  obtain ⟨hlt, hshows⟩ := hown.best_shows m hm
  refine ⟨hshows.further (by simp) fun c hc => ?_, hlt.le⟩
  exact lt_of_lt_of_le hlt (behind_opened h hcalls c hc)

/-- What an evaluation of the body leaves of the call's own frame. -/
theorem BodyYields.keeping {older : Nat} (ho : older ≤ call.frame) {calls : List (OpenCall ρ)}
    {body : Followed ρ (Option Match)} (hbody : call.BodyYields S calls body) {run : Run ρ}
    (h : run.Sound S) (hcalls : run.calls = calls) (hlt : call.frame < run.session.frames.size) :
    Yields S older run body fun result run' => Shown S calls call.position result ∧
      run.session.KeepsFrame run'.session call.frame := by
  refine .weaken ((hbody h hcalls hlt).imp fun result run' hk hshown => ⟨hshown, ?_⟩) (by omega)
  exact hk.frame_eq _ (Nat.lt_succ_self _)

/-- A result is judged: it can be the result of the call, or the call stays with the best match,
or goes on. -/
theorem followJudge_yields {older : Nat} (hv : call.verbose = S.verbose) {run : Run ρ}
    (h : run.Sound S) (hcalls : run.calls = call.opened r :: outer) (round : Nat)
    {result : Option Match} (hshown : Shown S (call.opened r :: outer) call.position result)
    {further : Match → Followed ρ (Option Match)}
    (hfurther : ∀ m run', Kept S older run run' → run'.session.frames = run.session.frames →
      call.longer? (run.session.frame call.frame) result = some m →
      Yields S older run' (further m) fun result _ =>
        Shown S (call.opened r :: outer) call.position result) :
    Yields S older run (call.followJudge round result further) fun result _ =>
      Shown S (call.opened r :: outer) call.position result := by
  refine .note h (touched_sound h hcalls) fun hn => ?_
  refine .bind (.step (read_step older hn call.frame)) ?_
  rintro _ run₁ hk₁ ⟨⟨rfl, hframes₁⟩, -⟩
  have hcalls₁ := hk₁.calls_eq.trans hcalls
  split
  · have htouched := touched_sound hk₁.sound hcalls₁
    refine .note hk₁.sound htouched fun hn₁ => ?_
    refine .bind (.step (review_step older hn₁ hv round result)) ?_
    rintro _ run₂ hk₂ ⟨⟨rfl, hframes₂⟩, -⟩
    have hk := ((Kept.noted older h (touched_sound h hcalls)).trans hk₁).trans
      ((Kept.noted older hk₁.sound htouched).trans hk₂)
    have hframes := hframes₂.trans hframes₁
    cases hl : call.longer? ((run₁.noted _).session.frame call.frame) result with
    | none =>
      refine .imp (.step (settle_step older hk₂.sound hv _ result)) ?_
      rintro _ run₃ - ⟨⟨rfl, -⟩, -⟩
      exact best_shown hn₁ hcalls₁
    | some m => exact hfurther m run₂ hk hframes ((Session.frame_of_frames hframes₁ _) ▸ hl)
  · exact .pure hk₁.sound hshown

/-- The loop keeps the run coherent and ends before its rounds are used up: what is
consumed grows, and rounds and what is consumed together reach the position. -/
theorem followGrow_yields {older : Nat} (ho : older ≤ call.frame) (hv : call.verbose = S.verbose)
    {body : Followed ρ (Option Match)} (hbody : call.BodyYields S (call.opened r :: outer) body) :
    ∀ (rounds round : Nat) (result : Option Match) {run : Run ρ}, run.Sound S →
      run.calls = call.opened r :: outer →
      call.position ≤ (run.session.frame call.frame).length + rounds →
      Shown S (call.opened r :: outer) call.position result →
      Yields S older run (call.followGrow body rounds round result) fun result _ =>
        Shown S (call.opened r :: outer) call.position result := by
  intro rounds
  induction rounds with
  | zero =>
    intro round result run h hcalls hreach hshown
    refine followJudge_yields hv h hcalls round hshown fun m run' _ _ hl => ?_
    obtain ⟨-, hlt, -⟩ := of_longer? hl
    have hle : m.consumed call.position ≤ call.position := Nat.sub_le _ _
    omega
  | succ rounds ih =>
    intro round result run h hcalls hreach hshown
    refine followJudge_yields hv h hcalls round hshown fun m run' hk hframes hl => ?_
    obtain ⟨rfl, hlt, hfurther⟩ := of_longer? hl
    have hcalls' : run'.calls = call.opened r :: outer := hk.calls_eq.trans hcalls
    have hseed : m.rest.Shows S [] := (hshown m rfl).1.further
      (fun c hc => lt_of_lt_of_le hfurther (behind_opened h hcalls c hc)) (by simp)
    refine .note hk.sound (touched_sound hk.sound hcalls') fun hn => ?_
    refine .bind (.step (adopt_step ho hn hcalls' hseed hfurther)) ?_
    intro _ run₂ hk₂ hmid
    obtain ⟨hframes₂, -⟩ := hmid
    have hcalls₂ := hk₂.calls_eq.trans hcalls'
    have hlength : (run₂.session.frame call.frame).length = m.consumed call.position := by
      rw [Session.frame_modify hframes₂ (frame_lt hn hcalls'), if_pos rfl]
    refine .bind (hbody.keeping ho hk₂.sound hcalls₂ (frame_lt hk₂.sound hcalls₂)) ?_
    intro next run₃ hk₃ hmid₃
    obtain ⟨hnext, hkeeps⟩ := hmid₃
    refine ih (round + 1) next hk₃.sound (hk₃.calls_eq.trans hcalls₂) ?_ hnext
    rw [hkeeps.length_eq]
    omega

/-- An open call evaluates its body, once or with a growing seed. -/
theorem followEvaluate_yields {older : Nat} (ho : older ≤ call.frame)
    (hv : call.verbose = S.verbose) {body : Followed ρ (Option Match)}
    (hbody : call.BodyYields S (call.opened r :: outer) body) {run : Run ρ} (h : run.Sound S)
    (hcalls : run.calls = call.opened r :: outer) :
    Yields S older run (call.followEvaluate body) fun result _ =>
      Shown S (call.opened r :: outer) call.position result := by
  refine .bind (hbody.keeping ho h hcalls (frame_lt h hcalls)) ?_
  rintro result run' hk ⟨hshown, -⟩
  exact followGrow_yields ho hv hbody _ _ _ hk.sound (hk.calls_eq.trans hcalls)
    (Nat.le_add_left _ _) hshown

/-- A call that has begun evaluates its body while it is open. -/
theorem Begun.inside_yields {older : Nat} {run : Run ρ} (ho : older ≤ run.session.frames.size)
    {s s' : Cursor} {σ : Session} (hb : call.Begun S run r s s' σ)
    {body : Followed ρ (Option Match)}
    (hbody : call.BodyYields S (call.opened r :: run.calls) body) :
    Yields S older { run with session := σ } (Followed.inside (call.opened r)
      (Followed.deeper call.registry (call.followEvaluate body))) fun result _ =>
        Shown S (call.opened r :: run.calls) call.position result := by
  refine .inside (.deeper hb.sound (fun run' h hcalls _ => ?_) fun _ _ _ _ hshown => hshown)
    fun _ _ hshown => hshown
  exact followEvaluate_yields (hb.frame_eq ▸ ho) hb.verbose_eq hbody h hcalls

end Call

/-- What a call finds where it begins agrees with the open calls. -/
theorem Arrival.Faces.recognises {run : Run ρ} (h : run.Sound S) (ha : S.grammar.NamesApart) {r : ρ}
    {guard : Guard} (hr : (S.grammar.rule r).guard = some guard) {s : Cursor}
    (hs : s.Shows S run.calls) {arrival : Arrival}
    (hf : arrival.Faces S.home (run.session.registry S.home) guard.name s) :
    (⟨.arrived r arrival, run.calls, run.session.frames⟩ : Moment ρ).Recognises S.grammar r
      arrival := by
  refine ⟨⟨fun hactive => ?_, ?_⟩, fun hactive => ?_⟩
  · obtain ⟨c, hc, id, hp, hseat, -⟩ := hf.seat hs hactive
    obtain ⟨guard', hr', -, hfound⟩ := (h.seated c hc _ id hseat).named
    have hrule : c.rule = r := ha hr' hr (Registry.alike_of_find? hfound hf.found)
    exact ⟨c, hc, hrule, hp.trans hf.position_eq.symm, by rw [hseat]; rfl⟩
  · intro hopen
    obtain ⟨c, hc, rfl, hp, hsome⟩ := hopen
    obtain ⟨⟨i, id⟩, hseat⟩ := Option.isSome_iff_exists.1 hsome
    obtain ⟨guard', hr', -, hfound⟩ := (h.seated c hc _ id hseat).named
    rw [hr] at hr'
    cases hr'
    have hflag : i = arrival.flag := by
      have heq := hf.found
      rw [hfound] at heq
      cases heq
      rfl
    rw [hf.active_eq, hs.lit_iff _ le_rfl]
    exact ⟨c, hc, id, hp.trans hf.position_eq, hflag ▸ hseat⟩
  · obtain ⟨c, hc, id, hp, hseat, hframe⟩ := hf.seat hs hactive
    have hseated := h.seated c hc _ id hseat
    obtain ⟨guard', hr', hname, hfound⟩ := hseated.named
    have hrule : c.rule = r := ha hr' hr (Registry.alike_of_find? hfound hf.found)
    subst hrule
    have hp' := hp.trans hf.position_eq.symm
    exact ⟨c, hc, id, guard', rfl, hp', hseat, hframe, hr', hname, hseated.flag_eq,
      hseated.position_eq.trans hp'⟩

/-- The answer of a call that finds its flag set fits in where it stands. -/
theorem Arrival.followAnswer_yields {older : Nat} {run : Run ρ}
    (ho : older ≤ run.session.frames.size) (h : run.Sound S) {arrival : Arrival} {name : Value}
    {s : Cursor} (hf : arrival.Faces S.home (run.session.registry S.home) name s)
    (hs : s.Shows S run.calls) (hactive : arrival.active = true) :
    Yields S older run arrival.followAnswer fun result _ =>
      Shown S run.calls s.remaining result := by
  obtain ⟨c, hc, id, hp, hseat, hframe⟩ := hf.seat hs hactive
  have hseated := h.seated c hc _ id hseat
  have hv : arrival.verbose = S.verbose := hf.verbose_eq.trans h.verbose_eq
  simp only [followAnswer, hframe]
  refine .note h ⟨h.orderly, c, hc, _, hseat⟩ fun hn => ?_
  have ho' : older ≤ (run.noted (.touched id)).session.frames.size := ho
  refine .imp (.step (answer_step ho' hn hv hc hseat hframe)) ?_
  intro best run' _ hbest m hm
  obtain ⟨⟨rfl, -⟩, -⟩ := hbest
  obtain ⟨hlt, hshows⟩ := hseated.best_shows m hm
  rw [hp] at hlt
  exact ⟨hshows.further (by simp) fun d hd => lt_of_lt_of_le hlt (hs.behind d hd), hlt.le⟩

/-- The body of a rule, wherever it is evaluated inside a call of the rule. -/
def RuleYields (S : Setting ρ) (outer : List (OpenCall ρ)) (r : ρ) (s : Cursor)
    (body : Cursor → Followed ρ (Option Match)) : Prop :=
  ∀ (s' : Cursor) (run : Run ρ) (older : Nat), s'.remaining = s.remaining →
    older ≤ run.session.frames.size → run.Sound S → s'.Shows S run.calls →
    (∃ c : OpenCall ρ, c.rule = r ∧ run.calls = c :: outer) →
    Yields S older run (body s') fun result _ => Shown S run.calls s'.remaining result

/-- The body of a call that has begun. -/
theorem Call.Begun.bodyYields {run : Run ρ} {call : Call} {r : ρ} {s s' : Cursor} {σ : Session}
    (hb : call.Begun S run r s s' σ) {body : Cursor → Followed ρ (Option Match)}
    (hbody : RuleYields S run.calls r s body) :
    call.BodyYields S (call.opened r :: run.calls) (body s') := by
  intro run' h hcalls hlt
  have hremaining : s'.remaining = s.remaining := congrArg List.length hb.fragment_eq
  have hyields := hbody s' run' _ hremaining hlt h (hcalls ▸ hb.shows) ⟨_, rfl, hcalls⟩
  rwa [hcalls, hremaining, ← hb.position_eq] at hyields

/-- A call of a guarded rule keeps the run coherent if its body does. -/
theorem followGuarded_yields {older : Nat} {run : Run ρ} (ho : older ≤ run.session.frames.size)
    (h : run.Sound S) {r : ρ} {guard : Guard} (hr : (S.grammar.rule r).guard = some guard)
    {s : Cursor} (hs : s.Shows S run.calls) (hc : run.Asks r s)
    {body : Cursor → Followed ρ (Option Match)} (hbody : RuleYields S run.calls r s body) :
    Yields S older run (followGuarded r guard.name guard.registry body s) fun result _ =>
      Shown S run.calls s.remaining result := by
  refine .bind (.step (arrive_step older h hr hs.width_eq)) ?_
  intro arrival run' hk hrun'
  obtain ⟨session, calls, moments⟩ := run'
  obtain ⟨⟨hframes, hf⟩, hrun⟩ := hrun'
  obtain ⟨rfl, rfl⟩ : calls = run.calls ∧ moments = run.moments := by simpa using hrun
  refine .note hk.sound ⟨hk.sound.orderly, fun ha => hf.recognises hk.sound ha hr hs⟩ fun hn => ?_
  have ho' : older ≤ session.frames.size := hframes ▸ ho
  split
  · next hactive => exact Arrival.followAnswer_yields ho' hn hf hs hactive
  · next hidle =>
    have hidle : arrival.active = false := by simpa using hidle
    obtain ⟨m, hm, hcall⟩ := hc
    refine .bind (.step (begin_step ho' hn hr hs ⟨m, List.mem_cons_of_mem _ hm, hcall⟩ hf hidle)) ?_
    intro (call, s') run' hk' hbegun
    obtain ⟨hb, hrun'⟩ := hbegun
    rw [hrun']
    refine .bind (hb.inside_yields ho' (hb.bodyYields hbody)) ?_
    intro result run₂ hk₂ hshown
    refine .imp (.step (hb.finish_step older hs hk₂.sound fun m hm => (hshown m hm).1)) ?_
    intro answer run₃ _ hanswer
    obtain ⟨⟨-, ⟨-, rfl⟩ | ⟨m, m', rfl, rfl, -, hfragment, -, hshows⟩⟩, -⟩ := hanswer
    · exact .none S _ _
    · refine .some hshows ?_
      have hle := (hshown m rfl).2
      have heq : m'.rest.remaining = m.rest.remaining := congrArg List.length hfragment
      rw [heq, ← hb.position_eq]
      exact hle

end SeedGrowth
