import SeedGrowth.Proofs.Run.Coherence

/-!
# The steps of a call in a run

Every step of a guarded call keeps the run coherent. It goes well, or it is hindered by
something outside the grammar: a registry without room, a cursor without the flag, or a
number in the trace that is too long.
-/
namespace SeedGrowth

variable {ρ α : Type} {S : Setting ρ} {run : Run ρ}

/-- A fault that does not come from the parsers of the grammar. -/
def Setting.Hinders (S : Setting ρ) (fault : Fault) : Prop :=
  ¬ S.roomy ∨ S.verbose = true ∧ fault = .unwritableInteger ∨
    S.width = none ∧ fault = .flagless ∨
    ∃ (flags : Flags Carried) (flag : Nat), S.width = some flags.capacity ∧
      flags.capacity ≤ flag ∧ flag < S.capacity.size ∧ flags.check (.int flag) = .error fault

/-- A later session with the same frames, up to marks, and further ones. -/
theorem Kept.session {older : Nat} (h : run.Sound S) {σ : Session}
    (ho : older ≤ run.session.frames.size) (hl : run.session.Later S σ)
    (hs : run.session.frames.size ≤ σ.frames.size)
    (hf : ∀ id < run.session.frames.size, run.session.KeepsFrame σ id) :
    Kept S older run { run with session := σ } :=
  ⟨rfl, List.suffix_rfl, hs, fun id hid => hf id (hid.trans_le ho), h.later hl hs hf⟩

/-- A later session with the same frames. -/
theorem Kept.session_same (older : Nat) (h : run.Sound S) {σ : Session}
    (hl : run.session.Later S σ) (hf : σ.frames = run.session.frames) :
    Kept S older run { run with session := σ } :=
  ⟨rfl, List.suffix_rfl, hf ▸ le_rfl, fun id _ => .of_frames hf id,
    h.later hl (hf ▸ le_rfl) fun id _ => .of_frames hf id⟩

/-- A step that keeps the run coherent; it is hindered, or its answer is as stated. -/
def Steps (S : Setting ρ) (older : Nat) (run : Run ρ) (y : Eval α) (post : α → Session → Prop) :
    Prop :=
  ∃ result σ, y run.session = (result, σ) ∧ Kept S older run { run with session := σ } ∧
    ((∃ a, result = .ok a ∧ post a σ) ∨ ∃ fault, result = .error (.fault fault) ∧ S.Hinders fault)

/-- The rule is being called at the cursor. -/
def Run.Asks (run : Run ρ) (r : ρ) (s : Cursor) : Prop :=
  ∃ m ∈ run.moments, m.happening = .handed (.ref r) s ∧ m.calls = run.calls

/-- Looking up the flag of a guarded rule. -/
theorem arrive_step (older : Nat) (h : run.Sound S) {r : ρ} {guard : Guard}
    (hr : (S.grammar.rule r).guard = some guard)
    {s : Cursor} (hw : s.width = S.width) :
    Steps S older run (arrive guard.name guard.registry s) fun arrival σ =>
      σ.frames = run.session.frames ∧
        arrival.Faces S.home (σ.registry S.home) guard.name s := by
  obtain ⟨result, σ, hy, hframes, huses, hresult⟩ := arrive_spec (h.hosts hr) (S.known hr) s
  rcases hresult with ⟨fault, hget, hsame, rfl⟩ | ⟨flag, hget, hresult⟩
  · have hl : run.session.Later S σ := ⟨huses, hsame ▸ .refl _, fun hroom => hsame ▸ hroom⟩
    refine ⟨_, σ, hy, .session_same older h hl hframes, .inr ⟨fault, rfl, .inl fun hroomy => ?_⟩⟩
    obtain ⟨flag, registry, hok⟩ := (h.room hroomy).get_ok (S.hashable hroomy) hr
    rw [hok] at hget
    cases hget
  · obtain ⟨hgrown, hfound⟩ := Registry.get_eq_ok (S.known hr) hget
    have hl : run.session.Later S σ :=
      ⟨huses, hgrown, fun hroom => hroom.of_get S.known hr hget⟩
    have hkept := Kept.session_same older h hl hframes
    rcases hresult with ⟨arrival, rfl, hfaces⟩ | ⟨hnone, rfl⟩ | ⟨f, fault, hf, hle, hcheck, rfl⟩
    · exact ⟨_, σ, hy, hkept, .inl ⟨arrival, rfl, hframes, hfaces⟩⟩
    · exact ⟨_, σ, hy, hkept, .inr ⟨_, rfl, .inr (.inr (.inl ⟨hw ▸ hnone, rfl⟩))⟩⟩
    · refine ⟨_, σ, hy, hkept, .inr ⟨fault, rfl, ?_⟩⟩
      by_cases hroomy : S.roomy
      · have hlt := Registry.find?_lt hfound
        have hsize := (hkept.sound.room hroomy).size_le
        have hcapacity := hkept.sound.capacity_eq
        dsimp only at hsize hcapacity
        rw [hcapacity] at hsize
        exact .inr (.inr (.inr ⟨f, flag, by simp [← hw, Cursor.width, hf], hle, by omega, hcheck⟩))
      · exact .inl hroomy

/-- A call begins: of a plain rule, or of a guarded one with its seat. -/
theorem Run.Sound.begin (h : run.Sound S) {r : ρ} {s : Cursor} (hs : s.Shows S run.calls)
    (hc : run.Asks r s) (seat : Option (Nat × FrameId))
    (hguard : seat.isSome = (S.grammar.rule r).guard.isSome)
    (hseat : ∀ i id, seat = some (i, id) →
      OpenCall.Seated S run.session ⟨r, s.remaining, seat⟩ i id ∧ s.lit s.remaining i = false ∧
        ∀ d ∈ run.calls, ∀ j id', d.seat = some (j, id') → id' < id) :
    Run.Sound S { run with calls := ⟨r, s.remaining, seat⟩ :: run.calls } where
  hosts := h.hosts
  capacity_eq := h.capacity_eq
  verbose_eq := h.verbose_eq
  room := h.room
  seated c hmem i id hci := by
    rcases List.mem_cons.1 hmem with rfl | hmem
    · exact (hseat i id hci).1
    · exact h.seated c hmem i id hci
  apart := by
    refine List.pairwise_cons.2 ⟨fun d hd i j id id' hci hdj => ?_, h.apart⟩
    obtain ⟨-, hidle, hlt⟩ := hseat i id hci
    refine ⟨hlt d hd j id' hdj, fun hp hij => ?_⟩
    rw [(hs.lit_iff _ le_rfl i).2 ⟨d, hd, id', hp.symm, hij ▸ hdj⟩] at hidle
    cases hidle
  orderly := by
    refine ⟨h.orderly, hs.remaining_le, hguard, hs.behind, fun hsome d hd hp => ?_,
      fun d hd hp => ?_⟩
    · -- Two open calls of one guarded rule would share their flag.
      obtain ⟨⟨i, id⟩, hci⟩ := Option.isSome_iff_exists.1 hsome
      obtain ⟨hseated, hidle, -⟩ := hseat i id hci
      cases hdj : d.seat with
      | none => exact .inr rfl
      | some seat' =>
        obtain ⟨j, id'⟩ := seat'
        refine .inl fun hrule => ?_
        obtain ⟨guard, hguard, -, hfound⟩ := hseated.named
        obtain ⟨guard', hguard', -, hfound'⟩ := (h.seated d hd j id' hdj).named
        rw [hrule, hguard] at hguard'
        cases hguard'
        rw [hfound] at hfound'
        cases hfound'
        rw [(hs.lit_iff _ le_rfl i).2 ⟨d, hd, id', hp, hdj⟩] at hidle
        cases hidle
    · obtain ⟨m, hm, hhappening, hcalls⟩ := hc
      obtain ⟨rule, position, seat'⟩ := d
      obtain ⟨outer, houter⟩ := List.head?_eq_some_iff.1 hd
      subst hp
      exact ⟨m, hm, s, seat', outer, hhappening, hcalls.trans houter⟩
  moments := h.moments

/-- A guarded call has begun at a cursor, where no call with its flag was open, and goes on
with another cursor in a session. -/
structure Call.Begun (S : Setting ρ) (run : Run ρ) (r : ρ) (s : Cursor) (call : Call) (s' : Cursor)
    (σ : Session) : Prop where
  frame_eq : call.frame = run.session.frames.size
  frames_eq : σ.frames = run.session.frames.push (.begin call.name call.flag s.remaining)
  position_eq : call.position = s.remaining
  verbose_eq : call.verbose = S.verbose
  flag_lt : ∃ width, S.width = some width ∧ call.flag < width
  idle : s.lit s.remaining call.flag = false
  fragment_eq : s'.fragment = s.fragment
  place_eq : s'.place = s.place
  shows : s'.Shows S (call.opened r :: run.calls)
  sound : Run.Sound S { run with session := σ, calls := call.opened r :: run.calls }

/-- Entering a frame and lighting the flag. -/
theorem begin_step {older : Nat} (ho : older ≤ run.session.frames.size) (h : run.Sound S) {r : ρ}
    {guard : Guard} (hr : (S.grammar.rule r).guard = some guard) {s : Cursor}
    (hs : s.Shows S run.calls) (hc : run.Asks r s) {arrival : Arrival}
    (hf : arrival.Faces S.home (run.session.registry S.home) guard.name s)
    (hidle : arrival.active = false) :
    Steps S older run (arrival.begin s) fun (call, s') σ => call.Begun S run r s s' σ := by
  obtain ⟨result, σ, hy, hregistries, hcurrent, hframes, hresult⟩ := begin_spec hf run.session
  have hl : run.session.Later S σ := .of_registries hregistries hcurrent
  have hsize : σ.frames.size = run.session.frames.size + 1 := by rw [hframes, Array.size_push]
  have hkept := Kept.session h ho hl (by omega) fun _ => .of_push hframes
  have hunlit : s.lit s.remaining arrival.flag = false := hf.active_eq ▸ hidle
  have hopened : (arrival.call run.session.frames.size).opened r =
      ⟨r, s.remaining, some (arrival.flag, run.session.frames.size)⟩ := by
    rw [Call.opened, Arrival.call, hf.position_eq]
  rcases hresult with ⟨s', rfl, hfragment, hplace, hwidth, hlit, hframeAt⟩ | ⟨hverbose, rfl⟩
  · have hnew : σ.frame run.session.frames.size = .begin guard.name arrival.flag s.remaining := by
      rw [Session.frame_push hframes, if_pos rfl]
    have hseated : OpenCall.Seated S σ
        ⟨r, s.remaining, some (arrival.flag, run.session.frames.size)⟩ arrival.flag
        run.session.frames.size :=
      .of_begin (hsize ▸ Nat.lt_succ_self _) hnew hr (hl.grown.find? hf.found) _
    have hsound := hkept.sound.begin hs hc (some (arrival.flag, run.session.frames.size))
      (by rw [hr]; rfl) fun i id hi => by
        cases hi
        exact ⟨hseated, hunlit, fun d hd j id' hdj => (h.seated d hd j id' hdj).lt_size⟩
    refine ⟨_, σ, hy, hkept, .inl ⟨_, rfl, ?_⟩⟩
    refine ⟨rfl, ?_, hf.position_eq, hf.verbose_eq.trans h.verbose_eq, ?_, hunlit, hfragment,
      hplace, ?_, ?_⟩
    · rw [hframes]
      simp only [Arrival.call, hf.name_eq]
    · exact ⟨_, hs.width_eq ▸ hf.width_eq, hf.flag_lt⟩
    · rw [hopened]
      exact hs.enter hfragment hplace hwidth hunlit hlit hframeAt
    · rw [hopened]
      exact hsound
  · refine ⟨_, σ, hy, hkept, .inr ⟨_, rfl, .inr (.inl ⟨?_, rfl⟩)⟩⟩
    rw [← h.verbose_eq]
    exact hverbose

/-- A call that finds its flag set finds the call that set it. -/
theorem Arrival.Faces.seat {arrival : Arrival} {home : RegistryId} {registry : Registry}
    {name : Value} {s : Cursor} (hf : arrival.Faces home registry name s)
    {calls : List (OpenCall ρ)} (hs : s.Shows S calls) (hactive : arrival.active = true) :
    ∃ c ∈ calls, ∃ id, c.position = s.remaining ∧ c.seat = some (arrival.flag, id) ∧
      arrival.anchor.frame? arrival.flag = some id := by
  obtain ⟨c, hc, id, hp, hseat⟩ := (hs.lit_iff _ le_rfl _).1 (hf.active_eq ▸ hactive)
  refine ⟨c, hc, id, hp, hseat, ?_⟩
  rw [hf.frame?_eq]
  exact hs.frameAt_eq _ le_rfl c hc _ id hp hseat

/-- Answering with the best match of an open call. -/
theorem answer_step {older : Nat} (ho : older ≤ run.session.frames.size) (h : run.Sound S)
    {arrival : Arrival} (hv : arrival.verbose = S.verbose) {c : OpenCall ρ} (hc : c ∈ run.calls)
    {id : FrameId} (hseat : c.seat = some (arrival.flag, id))
    (hframe : arrival.anchor.frame? arrival.flag = some id) :
    Steps S older run arrival.answer fun best σ => best = (run.session.frame id).best ∧
      σ.frames = run.session.frames.modify id fun frame => { frame with reentered := true } := by
  have hlt := (h.seated c hc _ id hseat).lt_size
  obtain ⟨result, σ, hy, hregistries, hcurrent, hframes, hresult⟩ := answer_spec hframe hlt
  have hl : run.session.Later S σ := .of_registries hregistries hcurrent
  have hsize : run.session.frames.size ≤ σ.frames.size := by rw [hframes, Array.size_modify]
  refine ⟨result, σ, hy, .session h ho hl hsize fun id' _ => .of_mark hframes hlt id', ?_⟩
  rcases hresult with rfl | ⟨hverbose, rfl⟩
  · exact .inl ⟨_, rfl, rfl, hframes⟩
  · exact .inr ⟨_, rfl, .inr (.inl ⟨hv ▸ hverbose, rfl⟩)⟩

namespace Call

variable {call : Call}

/-- Looking at a frame. -/
theorem read_step (older : Nat) (h : run.Sound S) (id : FrameId) :
    Steps S older run (Eval.read (·.frame id)) fun frame σ =>
      frame = run.session.frame id ∧ σ.frames = run.session.frames :=
  ⟨_, _, rfl, .refl older h, .inl ⟨_, rfl, rfl, rfl⟩⟩

/-- Looking at the frame between two evaluations. -/
theorem review_step (older : Nat) (h : run.Sound S) (hv : call.verbose = S.verbose) (round : Nat)
    (result : Option Match) :
    Steps S older run (call.review round result) fun frame σ =>
      frame = run.session.frame call.frame ∧ σ.frames = run.session.frames := by
  obtain ⟨answer, σ, hy, hsame, hanswer⟩ := call.review_spec round result run.session
  refine ⟨answer, σ, hy, .session_same older h (.of_sameStore hsame) hsame.frames, ?_⟩
  rcases hanswer with rfl | ⟨hverbose, rfl⟩
  · exact .inl ⟨_, rfl, rfl, hsame.frames⟩
  · exact .inr ⟨_, rfl, .inr (.inl ⟨hv ▸ hverbose, rfl⟩)⟩

/-- Staying with the best match. -/
theorem settle_step (older : Nat) (h : run.Sound S) (hv : call.verbose = S.verbose) (frame : Frame)
    (result : Option Match) :
    Steps S older run (call.settle frame result) fun best σ =>
      best = frame.best ∧ σ.frames = run.session.frames := by
  obtain ⟨answer, σ, hy, hsame, hanswer⟩ := call.settle_spec frame result run.session
  refine ⟨answer, σ, hy, .session_same older h (.of_sameStore hsame) hsame.frames, ?_⟩
  rcases hanswer with rfl | ⟨hverbose, rfl⟩
  · exact .inl ⟨_, rfl, rfl, hsame.frames⟩
  · exact .inr ⟨_, rfl, .inr (.inl ⟨hv ▸ hverbose, rfl⟩)⟩

/-- Making a match the best one of the innermost call. -/
theorem adopt_step {older : Nat} (ho : older ≤ call.frame) (h : run.Sound S) {r : ρ}
    {outer : List (OpenCall ρ)} (hcalls : run.calls = call.opened r :: outer) {m : Match}
    (hm : m.rest.Shows S []) (hlt : m.rest.remaining < call.position) :
    Steps S older run (call.adopt m) fun _ σ =>
      σ.frames = run.session.frames.modify call.frame fun frame =>
        { frame with best := some m, length := m.consumed call.position } := by
  have hown := h.seated (call.opened r) (hcalls ▸ List.mem_cons_self) _ _ rfl
  let σ : Session := { run.session with
    frames := run.session.frames.modify call.frame fun frame =>
      { frame with best := some m, length := m.consumed call.position } }
  have hframes : σ.frames = run.session.frames.modify call.frame fun frame =>
    { frame with best := some m, length := m.consumed call.position } := rfl
  have hframe := Session.frame_modify hframes hown.lt_size
  have hother : ∀ id, id ≠ call.frame → run.session.KeepsFrame σ id :=
    fun _ => .of_modify hframes hown.lt_size
  have hsize : σ.frames.size = run.session.frames.size := Array.size_modify
  have hl : run.session.Later S σ := .of_registries rfl rfl
  refine ⟨.ok (), σ, rfl, ⟨rfl, List.suffix_rfl, hsize.ge, fun id hid => hother id ?_, ?_⟩,
    .inl ⟨(), rfl, rfl⟩⟩
  · exact Nat.ne_of_lt (hid.trans_le ho)
  · refine ⟨fun hg => hl.uses _ (h.hosts hg), h.capacity_eq, h.verbose_eq, h.room,
      fun c hc i id hseat => ?_, h.apart, h.orderly, h.moments⟩
    by_cases hid : id = call.frame
    · subst hid
      rw [hcalls] at hc
      rcases List.mem_cons.1 hc with rfl | hc
      · cases hseat
        exact hown.adopt hl hsize.ge ((hframe _).trans (if_pos rfl)) hlt hm
      · -- An outer call has an earlier frame.
        have hapart := h.apart
        rw [hcalls] at hapart
        obtain ⟨hlater, -⟩ := (List.pairwise_cons.1 hapart).1 c hc _ _ _ _ rfl hseat
        exact absurd hlater (Nat.lt_irrefl _)
    · exact (h.seated c hc i id hseat).later hl hsize.ge (hother id hid)

/-- Taking the flag and the frame off the result of a call that has ended. -/
theorem Begun.finish_step (older : Nat) {r : ρ} {s s' : Cursor} {σ : Session}
    (hb : call.Begun S run r s s' σ) (hs : s.Shows S run.calls) {after : Run ρ} (h : after.Sound S)
    {result : Option Match}
    (hm : ∀ m, result = some m → m.rest.Shows S (call.opened r :: run.calls)) :
    Steps S older after (call.finish result) fun answer σ => σ.frames = after.session.frames ∧
      ((result = none ∧ answer = none) ∨
        ∃ m m', result = some m ∧ answer = some m' ∧ m'.value = m.value ∧
          m'.rest.fragment = m.rest.fragment ∧ m'.rest.place = m.rest.place ∧
          m'.rest.Shows S run.calls) := by
  obtain ⟨width, hwidth, hlt⟩ := hb.flag_lt
  obtain ⟨answer, σ, hy, hsame, hanswer⟩ := call.finish_spec result after.session
    fun m hr => ⟨width, (hm m hr).width_eq.trans hwidth, hlt⟩
  refine ⟨answer, σ, hy, .session_same older h (.of_sameStore hsame) hsame.frames, ?_⟩
  rcases hanswer with ⟨rfl, rfl⟩ | ⟨m, m', rfl, rfl, hvalue, hfragment, hplace, hw, hview⟩ |
    ⟨hverbose, rfl⟩
  · exact .inl ⟨_, rfl, hsame.frames, .inl ⟨rfl, rfl⟩⟩
  · refine .inl ⟨_, rfl, hsame.frames, .inr ⟨m, m', rfl, rfl, hvalue, hfragment, hplace, ?_⟩⟩
    refine (hm m rfl).leave hfragment hplace hw (hb.position_eq ▸ hs.behind) ?_ hview
    -- No call around it has the flag, which was not lit where the call began.
    intro d hd i id hp hseat hi
    subst hi
    have hlit := (hs.lit_iff _ le_rfl call.flag).2 ⟨d, hd, id, hp.trans hb.position_eq, hseat⟩
    rw [hb.idle] at hlit
    cases hlit
  · exact .inr ⟨_, rfl, .inr (.inl ⟨hb.verbose_eq ▸ hverbose, rfl⟩)⟩

end Call

end SeedGrowth
