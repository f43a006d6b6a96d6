import SeedGrowth.Proofs.Binding.Reading

/-!
# Guarded calls among guards of several registries

A call that finds its flag set inside a call of its rule is answered with the best match of
that call, because the rule has one flag in its registry. A call that finds its flag unset is
not inside a call of its rule; it lights the flag, which no open call at the position has,
whatever registry that uses.
-/
namespace SeedGrowth

variable {ρ : Type} {B : Bindings ρ} {calls : List (OpenCall ρ)} {older : Nat}
  {σ σ' : Session} {s s' : Cursor} {r : ρ} {guard : Guard} {arrival : Arrival} {call : Call}

/-- A guarded call has begun at a cursor, where no call with its flag was open, and goes on
with another cursor in a session. -/
structure Call.BegunIn (B : Bindings ρ) (calls : List (OpenCall ρ)) (σ : Session) (r : ρ)
    (s : Cursor) (call : Call) (s' : Cursor) (σ' : Session) : Prop where
  frame_eq : call.frame = σ.frames.size
  frames_eq : σ'.frames = σ.frames.push (.begin call.name call.flag s.remaining)
  position_eq : call.position = s.remaining
  point_eq : s'.point = s.point
  flag_lt : ∃ width, B.setting.width = some width ∧ call.flag < width
  idle : s.lit s.remaining call.flag = false
  inside : call.Inside B calls
  shows : s'.Shows B.setting (call.opened r :: calls)
  kept : B.Kept σ.frames.size calls σ σ'
  agrees : σ'.Agrees B (call.opened r :: calls)

namespace Session.Agrees

/-- A rule has one flag in its registry, which all open calls of the rule have. -/
theorem flag_eq (h : σ.Agrees B calls) {c : OpenCall ρ} (hc : c ∈ calls) {i : Nat} {id : FrameId}
    (hseat : c.seat = some (i, id)) (hr : (B.setting.grammar.rule c.rule).guard = some guard)
    {flag : Nat} (hfound : (σ.registry (B.home c.rule)).find? guard.name = some flag) :
    i = flag := by
  obtain ⟨guard', hguard', -, hfound'⟩ := (h.seated c hc i id hseat).named
  rw [Grammar.guard_of_servedBy hguard'] at hr
  cases hr
  exact Option.some.inj (hfound'.symm.trans hfound)

/-- Open calls with one frame are calls of one rule at one position. -/
theorem place_eq_of_frame (h : σ.Agrees B calls) {c d : OpenCall ρ} (hc : c ∈ calls)
    (hd : d ∈ calls) {i j : Nat} {id : FrameId} (hci : c.seat = some (i, id))
    (hdj : d.seat = some (j, id)) : d.rule = c.rule ∧ d.position = c.position := by
  have hcseated := h.seated c hc i id hci
  have hdseated := h.seated d hd j id hdj
  obtain ⟨guard, hguard, hname, -⟩ := hcseated.named
  obtain ⟨guard', hguard', hname', -⟩ := hdseated.named
  have hguard := Grammar.guard_of_servedBy hguard
  have hguard' := Grammar.guard_of_servedBy hguard'
  have halike : guard'.name.alike guard.name = true := by
    rw [← hname', hname]
    exact B.setting.known hguard
  exact ⟨B.apart hguard' hguard halike, hdseated.position_eq.symm.trans hcseated.position_eq⟩

/-- Where open calls are at the cursor, those of one rule have one frame. -/
theorem frame_eq_iff (h : σ.Agrees B calls) (hs : s.Shows B.setting calls) {c d : OpenCall ρ}
    (hc : c ∈ calls) (hd : d ∈ calls) {i j : Nat} {id id' : FrameId}
    (hci : c.seat = some (i, id)) (hdj : d.seat = some (j, id'))
    (hposition : c.position = s.remaining) :
    id' = id ↔ d.rule = c.rule ∧ d.position = c.position := by
  constructor
  · rintro rfl
    exact h.place_eq_of_frame hc hd hci hdj
  · rintro ⟨hrule, hplace⟩
    obtain ⟨guard, hguard, -, hfound⟩ := (h.seated c hc i id hci).named
    rw [← hrule] at hguard hfound
    have hflag := h.flag_eq hd hdj (Grammar.guard_of_servedBy hguard) hfound
    subst hflag
    have hframe := hs.frameAt_eq _ le_rfl c hc _ id hposition hci
    rw [hs.frameAt_eq _ le_rfl d hd _ id' (hplace.trans hposition) hdj] at hframe
    exact Option.some.inj hframe

/-- No call of a rule is open where a call of it finds its flag unset. -/
theorem idle (h : σ.Agrees B calls) (hr : (B.setting.grammar.rule r).guard = some guard)
    (hs : s.Shows B.setting calls)
    (hf : arrival.Faces (B.home r) (σ.registry (B.home r)) guard.name s)
    (hactive : arrival.active = false) :
    ∀ c ∈ calls, c.rule = r → c.position ≠ s.remaining := by
  intro c hc hrule hposition
  subst hrule
  obtain ⟨⟨i, id⟩, hseat⟩ := Option.isSome_iff_exists.1 (h.guarded c hc)
  have hflag := h.flag_eq hc hseat hr hf.found
  subst hflag
  have hlit := (hs.lit_iff _ le_rfl _).2 ⟨c, hc, id, hposition, hseat⟩
  rw [← hf.active_eq, hactive] at hlit
  cases hlit

/-- A call that finds its flag unset begins, unless a trace stops it. -/
theorem begin (h : σ.Agrees B calls) (hr : (B.setting.grammar.rule r).guard = some guard)
    (hs : s.Shows B.setting calls)
    (hf : arrival.Faces (B.home r) (σ.registry (B.home r)) guard.name s)
    (hidle : arrival.active = false) :
    ∃ result σ', arrival.begin s σ = (result, σ') ∧
      (B.traced ∧ result = .error (.fault .unwritableInteger) ∨
        ∃ call s', result = .ok (call, s') ∧ call.BegunIn B calls σ r s s' σ') := by
  obtain ⟨result, σ', hbegin, hregistries, hcurrent, hframes, hresult⟩ := begin_spec hf σ
  refine ⟨result, σ', hbegin, ?_⟩
  rcases hresult with ⟨s', rfl, hfragment, hplace, hwidth, hlit, hframeAt⟩ | ⟨hverbose, rfl⟩
  · refine .inr ⟨_, s', rfl, ?_⟩
    have hunlit : s.lit s.remaining arrival.flag = false := hf.active_eq ▸ hidle
    have hl : ∀ id, σ.Later (B.at id) σ' := fun _ => .of_registries hregistries hcurrent
    have hsize : σ'.frames.size = σ.frames.size + 1 := by rw [hframes, Array.size_push]
    have hkeeps : ∀ id < σ.frames.size, σ.KeepsFrame σ' id := fun _ => .of_push hframes
    have hagrees : σ'.Agrees B calls := h.later hl (by omega) fun c hc i id hseat =>
      hkeeps id (h.seated c hc i id hseat).lt_size
    have hopened : (arrival.call σ.frames.size).opened r =
        ⟨r, s.remaining, some (arrival.flag, σ.frames.size)⟩ := by
      rw [Call.opened, Arrival.call, hf.position_eq]
    have hnew : σ'.frame σ.frames.size = .begin guard.name arrival.flag s.remaining := by
      rw [Session.frame_push hframes, if_pos rfl]
    have hseated : OpenCall.Seated (B.at (B.home r)) σ'
        ⟨r, s.remaining, some (arrival.flag, σ.frames.size)⟩ arrival.flag σ.frames.size :=
      .of_begin (hsize ▸ Nat.lt_succ_self _) hnew (Grammar.guard_servedBy hr)
        ((hl (B.home r)).grown.find? hf.found) _
    refine ⟨rfl, ?_, hf.position_eq, ?_, ⟨_, hs.width_eq ▸ hf.width_eq, hf.flag_lt⟩, hunlit,
      ⟨fun c hc i id hseat => (h.seated c hc i id hseat).lt_size, fun c hc => ?_,
        fun hverbose => ?_⟩,
      ?_, ⟨by omega, hkeeps, hagrees⟩, ?_⟩
    · rw [hframes, Arrival.call, hf.name_eq]
    · rw [Cursor.point, hfragment, hplace, Cursor.point]
    · rw [Arrival.call, hf.position_eq]
      exact hs.behind c hc
    · exact h.traced hr (hf.verbose_eq ▸ hverbose)
    · rw [hopened]
      exact hs.enter hfragment hplace hwidth hunlit hlit hframeAt
    · rw [hopened]
      exact hagrees.cons hseated
  · exact .inl ⟨h.traced hr hverbose, rfl⟩

/-- A call that finds its flag set inside a call of its rule is answered as in scope. -/
theorem answer_reads (h : σ.Agrees B calls) (hr : (B.setting.grammar.rule r).guard = some guard)
    (hs : s.Shows B.setting calls)
    (hf : arrival.Faces (B.home r) (σ.registry (B.home r)) guard.name s) {c : OpenCall ρ}
    (hc : c ∈ calls) (hrule : c.rule = r) (hposition : c.position = s.remaining)
    {scope : Scope ρ} (hscope : scope.Covers id ⟨σ, calls, []⟩)
    (hp : scope.position = s.remaining) :
    ∃ best, scope.best r = some best ∧ B.Reads older calls σ arrival.answer
      (Account.ask r s.remaining >>= fun _ => return best) (Option.map Match.found)
      (Shown B.setting calls s.remaining) := by
  subst hrule
  obtain ⟨⟨i, id⟩, hseat⟩ := Option.isSome_iff_exists.1 (h.guarded c hc)
  have hflag := h.flag_eq hc hseat hr hf.found
  subst hflag
  have hseated := h.seated c hc _ id hseat
  have hframe : arrival.anchor.frame? arrival.flag = some id := by
    rw [hf.frame?_eq]
    exact hs.frameAt_eq _ le_rfl c hc _ id hposition hseat
  refine ⟨(σ.frame id).best.map Match.found, ?_, ?_⟩
  · exact (hscope.best_iff _ _).2 ⟨c, hc, _, id, rfl, hposition.trans hp.symm, hseat, rfl⟩
  obtain ⟨result, σ', hanswer, hregistries, hcurrent, hframes, hresult⟩ :=
    answer_spec hframe hseated.lt_size
  rcases hresult with rfl | ⟨hverbose, rfl⟩
  · have hmodified := Session.frame_modify hframes hseated.lt_size
    have hkeeps : ∀ id', σ.KeepsFrame σ' id' := .of_mark hframes hseated.lt_size
    have hsize : σ.frames.size ≤ σ'.frames.size := by rw [hframes, Array.size_modify]
    have hagrees : σ'.Agrees B calls :=
      h.later (fun _ => .of_registries hregistries hcurrent) hsize fun _ _ _ id' _ => hkeeps id'
    refine ⟨_, σ', hanswer, .inr ⟨⟨hsize, fun id' _ => hkeeps id', hagrees⟩, ?_, rfl, ?_⟩⟩
    · intro d hd j id' hdj
      have hiff : id' = id ↔ (d.rule, d.position) ∈ [(c.rule, s.remaining)] := by
        rw [h.frame_eq_iff hs hc hd hseat hdj hposition, List.mem_singleton, Prod.mk.injEq,
          hposition]
      change _ ↔ _ ∨ (d.rule, d.position) ∈ [(c.rule, s.remaining)]
      rw [hmodified, ← hiff]
      by_cases hid : id' = id <;> simp [hid]
    · rintro best ⟨⟩ m hm
      obtain ⟨hlt, hshows⟩ := hseated.best_shows m hm
      rw [hposition] at hlt
      exact ⟨(Cursor.shows_at.1 hshows).further (by simp) fun d hd => hlt.trans_le (hs.behind d hd),
        hlt.le⟩
  · exact ⟨_, σ', hanswer, .inl ⟨h.traced hr (hf.verbose_eq ▸ hverbose), rfl⟩⟩

end Session.Agrees

namespace Call.BegunIn

theorem frame_of_lt (hb : call.BegunIn B calls σ r s s' σ') {id : FrameId}
    (h : id < σ.frames.size) : σ'.frame id = σ.frame id := by
  rw [Session.frame_push hb.frames_eq, if_neg h.ne]

theorem fresh (hb : call.BegunIn B calls σ r s s' σ') : call.Fresh (σ'.frame call.frame) := by
  rw [Session.frame_push hb.frames_eq, if_pos hb.frame_eq]
  exact ⟨rfl, rfl, rfl⟩

/-- The flag and the frame of a call are taken off its result. -/
theorem finish_reads (hb : call.BegunIn B calls σ r s s' σ') (hs : s.Shows B.setting calls)
    {after : Session} (h : after.Agrees B calls) {result : Option Match}
    (hshown : Shown B.setting (call.opened r :: calls) s.remaining result) :
    B.Reads older calls after (call.finish result) (Pure.pure (result.map Match.found))
      (Option.map Match.found) (Shown B.setting calls s.remaining) := by
  obtain ⟨width, hwidth, hlt⟩ := hb.flag_lt
  obtain ⟨answer, σ'', hfinish, hsame, hanswer⟩ := call.finish_spec result after
    fun m hm => ⟨width, (hshown m hm).1.width_eq.trans hwidth, hlt⟩
  have hk : B.Kept older calls after σ'' :=
    .of_same older h (fun _ => .of_sameStore hsame) hsame.frames
  rcases hanswer with ⟨rfl, rfl⟩ | ⟨m, m', rfl, rfl, hvalue, hfragment, hplace, hw, hview⟩ |
    ⟨hverbose, rfl⟩
  · exact .last hfinish hk (.of_same hsame.frames) rfl (.none _ _ _)
  · obtain ⟨hshows, hle⟩ := hshown m rfl
    have hrest : m'.rest.remaining = m.rest.remaining := by
      rw [Cursor.remaining, hfragment, Cursor.remaining]
    refine .last hfinish hk (.of_same hsame.frames) ?_ (.some ?_ ?_)
    · simp only [Option.map_some, Match.found, Cursor.point, hvalue, hfragment, hplace]
    · refine hshows.leave hfragment hplace hw hb.inside.behind ?_ hview
      -- No call around it has the flag, which was not lit where the call began.
      intro d hd i id hp hseat hi
      subst hi
      have hlit := (hs.lit_iff _ le_rfl call.flag).2 ⟨d, hd, id, hp.trans hb.position_eq, hseat⟩
      rw [hb.idle] at hlit
      cases hlit
    · rw [hrest]
      exact hle
  · exact ⟨_, σ'', hfinish, .inl ⟨hb.inside.traced hverbose, rfl⟩⟩

/-- What follows the beginning of a call comes out as evaluating the body in the scope does to
which the rule is added. -/
theorem rest_reads [DecidableEq ρ] (hb : call.BegunIn B calls σ r s s' σ')
    (h : σ.Agrees B calls) (hs : s.Shows B.setting calls) (ho : older ≤ σ.frames.size)
    {scope : Scope ρ} (hscope : scope.Covers id ⟨σ, calls, []⟩) (hnew : scope.best r = none)
    (hp : scope.position = s.remaining) {body : Eval (Option Match)}
    {read : Scope ρ → Account ρ (Option Found)}
    (hbody : ∀ {round σ₁} {scope' : Scope ρ},
      call.Evaluates body (σ'.modifyRegistry call.registry fun r =>
        { r with level := r.level + 1 }) round σ₁ →
      σ₁.Agrees B (call.opened r :: calls) →
      scope'.Covers id ⟨σ₁, call.opened r :: calls, []⟩ → scope'.position = s.remaining →
      B.Reads σ₁.frames.size (call.opened r :: calls) σ₁ body (read scope')
        (Option.map Match.found) (Shown B.setting (call.opened r :: calls) call.position)) :
    B.Reads older calls σ' (Eval.deeper call.registry (call.evaluate body) >>= call.finish)
      (Scope.evaluate r s.remaining fun best => read (scope.add r best)) (Option.map Match.found)
      (Shown B.setting calls s.remaining) := by
  have hrounds : call.RoundsRead B calls r scope
      (σ'.modifyRegistry call.registry fun r => { r with level := r.level + 1 }) body
      fun best => read (scope.add r best) := by
    intro round σ₁ hround hagrees hcovers
    have hcalls : call.opened r :: calls =
        ⟨r, scope.position, some (call.flag, call.frame)⟩ :: calls := by
      rw [Call.opened, hb.position_eq, hp]
    have hadd := Scope.Covers.add (show scope.Covers id
      { (⟨σ₁, call.opened r :: calls, []⟩ : Run ρ) with calls := calls } from hcovers) hnew hcalls
    exact hbody hround hagrees hadd hp
  have hevaluate : B.Reads older calls σ' (Eval.deeper call.registry (call.evaluate body))
      (Scope.evaluate r call.position fun best => read (scope.add r best))
      (Option.map Match.found) (Shown B.setting (call.opened r :: calls) call.position) := by
    refine .inside (.deeper hb.agrees fun hagrees => ?_)
    refine (Call.evaluate_reads hb.inside hrounds hagrees ?_ hb.fresh).weaken (hb.frame_eq ▸ ho)
    refine hscope.congr rfl fun c hc i id hseat => ?_
    change (σ'.frame id).best = (σ.frame id).best
    rw [hb.frame_of_lt (h.seated c hc i id hseat).lt_size]
  rw [hb.position_eq] at hevaluate
  rw [← Account.bind_pure (Scope.evaluate r _ _)]
  exact .bind hevaluate fun result σ₁ _ hk hshown => hb.finish_reads hs hk.agrees hshown

end Call.BegunIn

/-- A call of a guarded rule comes out as it does in its scope, if it finds its flag set only
inside a call of its rule. -/
theorem guarded_reads [DecidableEq ρ] (h : σ.Agrees B calls)
    (hr : (B.setting.grammar.rule r).guard = some guard) (hs : s.Shows B.setting calls)
    {scope : Scope ρ} (hscope : scope.Covers id ⟨σ, calls, []⟩) (hle : s.remaining ≤ scope.position)
    (ho : older ≤ σ.frames.size)
    (hled : ∀ arrival σ₁, arrive guard.name guard.registry s σ = (.ok arrival, σ₁) →
      arrival.active = true → ∃ c ∈ calls, c.rule = r ∧ c.position = s.remaining)
    {body : Cursor → Eval (Option Match)}
    {readCall : Scope ρ → ρ → Point → Account ρ (Option Found)}
    (hbody : ∀ {arrival σ₁ call s' σ₂ round σ₃} {scope' : Scope ρ},
      arrive guard.name guard.registry s σ = (.ok arrival, σ₁) → arrival.active = false →
      arrival.begin s σ₁ = (.ok (call, s'), σ₂) → call.BegunIn B calls σ₁ r s s' σ₂ →
      call.Evaluates (body s') (σ₂.modifyRegistry call.registry fun r =>
        { r with level := r.level + 1 }) round σ₃ →
      σ₃.Agrees B (call.opened r :: calls) →
      scope'.Covers id ⟨σ₃, call.opened r :: calls, []⟩ → scope'.position = s.remaining →
      B.Reads σ₃.frames.size (call.opened r :: calls) σ₃ (body s')
        ((B.setting.grammar.rule r).body.read (readCall scope') s.point) (Option.map Match.found)
        (Shown B.setting (call.opened r :: calls) call.position)) :
    B.Reads older calls σ (guarded guard.name guard.registry body s)
      (B.setting.grammar.readRule id readCall scope r s.point) (Option.map Match.found)
      (Shown B.setting calls s.remaining) := by
  obtain ⟨arrival, σ₁, harrive, hframes, hlater, hf⟩ := h.arrive hr hs.width_eq
  have hk : B.Kept older calls σ σ₁ := .of_same older h hlater hframes
  have hscope₁ : (scope.movedTo s.remaining).Covers id ⟨σ₁, calls, []⟩ := by
    refine (hscope.movedTo hle).congr rfl fun c _ i id _ => ?_
    exact congrArg Frame.best (Session.frame_of_frames hframes id)
  have hp : (scope.movedTo s.remaining).position = s.remaining := scope.position_movedTo _
  have hpoint : s.point.remaining = s.remaining := rfl
  refine .step harrive hk (.of_same hframes) ?_
  unfold Grammar.readRule
  rw [hr, hpoint]
  dsimp only [id]
  cases hactive : arrival.active with
  | true =>
    obtain ⟨c, hc, hrule, hposition⟩ := hled arrival σ₁ harrive hactive
    obtain ⟨best, hbest, hreads⟩ :=
      hk.agrees.answer_reads hr hs hf hc hrule hposition hscope₁ hp
    rw [hbest]
    exact hreads
  | false =>
    have hidle := hk.agrees.idle hr hs hf hactive
    have hnew : (scope.movedTo s.remaining).best r = none :=
      hscope₁.best_eq_none fun c hc hrule hposition =>
        absurd (hposition.trans hp) (hidle c hc hrule)
    rw [hnew]
    refine .ask hidle ?_
    obtain ⟨result, σ₂, hbegin, ⟨htraced, rfl⟩ | ⟨call, s', rfl, hb⟩⟩ :=
      hk.agrees.begin hr hs hf hactive
    · exact .silenced htraced hbegin
    have ho₁ : older ≤ σ₁.frames.size := ho.trans hk.size_le
    refine .step hbegin (hb.kept.weaken ho₁) (.of_frames fun c hc i id hseat => ?_) ?_
    · rw [hb.frame_of_lt (hk.agrees.seated c hc i id hseat).lt_size]
    · exact hb.rest_reads hk.agrees hs ho₁ hscope₁ hnew hp (hbody harrive hactive hbegin hb)

end SeedGrowth
