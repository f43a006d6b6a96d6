import SeedGrowth.Proofs.Registry.History
import SeedGrowth.Proofs.Session.Steps

/-!
# Evaluations where there is more room

A session is widened if one of its registries has a larger capacity and the cursors in its
frames have flags for that. An evaluation in the widened session comes out as in the narrow one,
where all flags have numbers below the narrow capacity, unless the narrow registry is full when
a name is to be added. There is one rule for each way to build evaluations; along the way it is
put down for what other reasons they may stop.
-/
namespace SeedGrowth

variable {α α' β β' : Type}

/-- A registry, its capacity, and a larger one. -/
structure Widening where
  home : RegistryId
  narrow : Capacity
  wide : Capacity
  le : narrow.size ≤ wide.size

/-- The reasons that evaluations may stop for: the registry is full when a name is to be added,
or a function that changes values raises a fault. -/
structure Grounds extends Widening where
  overflows : Prop
  raised : Fault → Prop

/-- Further reasons are that a name cannot be looked up, that a value cannot be written, or that
calls are nested too deep. -/
inductive Grounds.Excuses (G : Grounds) : Stop → Prop where
  | exhausted : G.Excuses .exhausted
  | unhashable : G.Excuses (.fault (.unhashable .list))
  | unwritable : G.Excuses (.fault .unwritableInteger)
  | raised {fault : Fault} : G.raised fault → G.Excuses (.fault fault)

variable {W : Widening} {G : Grounds}

/-! ### Flags and cursors -/

/-- The wider flags are set alike and carry the same. -/
structure Flags.Widened (W : Widening) (f f' : Flags Carried) : Prop where
  narrow_eq : f.capacity = W.narrow.size
  wide_eq : f'.capacity = W.wide.size
  carried_eq : f'.carried = f.carried
  mem_eq : ∀ i, f'.mem i = f.mem i

/-- The cursors are the same, but the flags of the second one are wider. -/
structure Cursor.Widened (W : Widening) (s s' : Cursor) : Prop where
  fragment_eq : s'.fragment = s.fragment
  place_eq : s'.place = s.place
  flags : ∃ f f', s.payload = .bare f ∧ s'.payload = .bare f' ∧ f.Widened W f'

/-- The matches are the same, but for how wide the flags are behind them. -/
structure Match.Widened (W : Widening) (m m' : Match) : Prop where
  rest : m.rest.Widened W m'.rest
  value_eq : m'.value = m.value

/-- The frames are the same, but for how wide the flags behind their matches are. -/
structure Frame.Widened (W : Widening) (frame frame' : Frame) : Prop where
  name_eq : frame'.name = frame.name
  flag_eq : frame'.flag = frame.flag
  position_eq : frame'.position = frame.position
  best : Option.Rel (Match.Widened W) frame.best frame'.best
  length_eq : frame'.length = frame.length
  reentered_eq : frame'.reentered = frame.reentered

namespace Flags.Widened

variable {f f' : Flags Carried}

theorem none (W : Widening) (c : Carried) : Widened W (.none W.narrow c) (.none W.wide c) :=
  ⟨capacity_none _ _, capacity_none _ _, rfl, fun i => by simp⟩

theorem lt_wide {flag : Nat} (h : flag < W.narrow.size) : flag < W.wide.size := h.trans_le W.le

theorem carrying (h : f.Widened W f') (c : Carried) :
    Widened W (f.carrying c) (f'.carrying c) :=
  ⟨h.narrow_eq, h.wide_eq, rfl, h.mem_eq⟩

theorem clearAll (h : f.Widened W f') : Widened W f.clearAll f'.clearAll :=
  ⟨by simp [h.narrow_eq], by simp [h.wide_eq], h.carried_eq, fun i => by simp⟩

theorem erase (h : f.Widened W f') (i : Nat) : Widened W (f.erase i) (f'.erase i) :=
  ⟨by simp [h.narrow_eq], by simp [h.wide_eq], h.carried_eq, fun j => by simp [mem_erase, h.mem_eq]⟩

theorem insert (h : f.Widened W f') {i : Nat} (hi : i < W.narrow.size) :
    Widened W (f.insert i) (f'.insert i) := by
  refine ⟨by simp [h.narrow_eq], by simp [h.wide_eq], h.carried_eq, fun j => ?_⟩
  rw [mem_insert (h.wide_eq.symm ▸ lt_wide hi), mem_insert (h.narrow_eq.symm ▸ hi), h.mem_eq]

/-- Both are entered at a position with the same anchor. -/
theorem enterAt (h : f.Widened W f') (p : Nat) :
    Widened W (enterAt p f).1 (enterAt p f').1 ∧ (SeedGrowth.enterAt p f').2 =
      (SeedGrowth.enterAt p f).2 := by
  unfold SeedGrowth.enterAt
  rw [h.carried_eq]
  split
  · split
    · exact ⟨h, rfl⟩
    · exact ⟨h.clearAll.carrying _, rfl⟩
  · exact ⟨h.clearAll.carrying _, rfl⟩

theorem check_eq (h : f.Widened W f') {i : Nat} (hi : i < W.narrow.size) :
    f.check (.int i) = .ok (f.mem i) ∧ f'.check (.int i) = .ok (f.mem i) := by
  rw [f.check_natCast (h.narrow_eq.symm ▸ hi), f'.check_natCast (h.wide_eq.symm ▸ lt_wide hi),
    h.mem_eq]
  exact ⟨rfl, rfl⟩

theorem set_eq (h : f.Widened W f') {i : Nat} (hi : i < W.narrow.size) :
    f.set (.int i) = .ok (f.insert i) ∧ f'.set (.int i) = .ok (f'.insert i) := by
  rw [set, set, locate_natCast (h.narrow_eq.symm ▸ hi),
    locate_natCast (h.wide_eq.symm ▸ lt_wide hi)]
  exact ⟨rfl, rfl⟩

theorem clear_eq (h : f.Widened W f') {i : Nat} (hi : i < W.narrow.size) :
    f.clear (.int i) = .ok (f.erase i) ∧ f'.clear (.int i) = .ok (f'.erase i) := by
  rw [clear, clear, locate_natCast (h.narrow_eq.symm ▸ hi),
    locate_natCast (h.wide_eq.symm ▸ lt_wide hi)]
  exact ⟨rfl, rfl⟩

/-- A flag and its frame are taken off both. -/
theorem withoutFlag (h : f.Widened W f') {i : Nat} (hi : i < W.narrow.size) :
    ∃ f₁ f₁', withoutFlag i f = .ok f₁ ∧ withoutFlag i f' = .ok f₁' ∧ f₁.Widened W f₁' := by
  unfold SeedGrowth.withoutFlag
  rw [h.carried_eq]
  split
  · split
    · next a _ _ =>
      have herased := h.carrying (.anchor (a.erase i))
      exact ⟨_, _, (herased.clear_eq hi).1, (herased.clear_eq hi).2, herased.erase i⟩
    · exact ⟨_, _, (h.clear_eq hi).1, (h.clear_eq hi).2, h.erase i⟩
  · exact ⟨_, _, (h.clear_eq hi).1, (h.clear_eq hi).2, h.erase i⟩

end Flags.Widened

namespace Cursor.Widened

variable {s s' : Cursor}

theorem remaining_eq (h : s.Widened W s') : s'.remaining = s.remaining :=
  congrArg List.length h.fragment_eq

theorem advance (h : s.Widened W s') (count : Nat) :
    (s.advance count).Widened W (s'.advance count) := by
  refine ⟨?_, ?_, h.flags⟩
  · rw [fragment_advance, fragment_advance, h.fragment_eq]
  · rw [place_advance, place_advance, h.fragment_eq, h.place_eq]

theorem withFlags (h : s.Widened W s') {f f' : Flags Carried} (hf : f.Widened W f') :
    (s.withFlags f).Widened W (s'.withFlags f') := by
  refine ⟨h.fragment_eq, h.place_eq, f, f', ?_, ?_, hf⟩
  · obtain ⟨f₀, -, hpayload, -⟩ := h.flags
    simp only [Cursor.withFlags, hpayload, Payload.withFlags]
  · obtain ⟨-, f₀', -, hpayload, -⟩ := h.flags
    simp only [Cursor.withFlags, hpayload, Payload.withFlags]

theorem flags_eq (h : s.Widened W s') :
    ∃ f f', s.flags = .ok f ∧ s'.flags = .ok f' ∧ f.Widened W f' := by
  obtain ⟨f, f', hpayload, hpayload', hf⟩ := h.flags
  exact ⟨f, f', flags_eq_ok.2 (by rw [hpayload]; rfl), flags_eq_ok.2 (by rw [hpayload']; rfl), hf⟩

end Cursor.Widened

namespace Match.Widened

variable {m m' : Match}

theorem consumed_eq (h : m.Widened W m') (position : Nat) :
    m'.consumed position = m.consumed position := by
  rw [Match.consumed, Match.consumed, h.rest.remaining_eq]

/-- The flag of a call is taken off both. -/
theorem leave (h : m.Widened W m') {flag : Nat} (hflag : flag < W.narrow.size) :
    ∃ m₁ m₁', m.leave flag = .ok m₁ ∧ m'.leave flag = .ok m₁' ∧ m₁.Widened W m₁' := by
  obtain ⟨f, f', hf, hf', hwidened⟩ := h.rest.flags_eq
  obtain ⟨f₁, f₁', hwithout, hwithout', hwidened'⟩ := hwidened.withoutFlag hflag
  refine ⟨{ m with rest := m.rest.withFlags f₁ }, { m' with rest := m'.rest.withFlags f₁' },
    ?_, ?_, h.rest.withFlags hwidened', h.value_eq⟩
  · simp only [Match.leave, hf, ok_bind, hwithout]
    rfl
  · simp only [Match.leave, hf', ok_bind, hwithout']
    rfl

end Match.Widened

theorem Frame.Widened.bestValue_eq {frame frame' : Frame} (h : frame.Widened W frame') :
    frame'.bestValue = frame.bestValue := by
  have hbest := h.best
  unfold Frame.bestValue
  generalize frame.best = best at hbest ⊢
  generalize frame'.best = best' at hbest ⊢
  cases hbest with
  | some hm => exact congrArg some hm.value_eq
  | none => rfl

/-- A call that begins has the same frame wherever it does. -/
theorem Frame.widened_begin (W : Widening) (name : Value) (flag position : Nat) :
    Frame.Widened W (.begin name flag position) (.begin name flag position) :=
  ⟨rfl, rfl, rfl, .none, rfl, rfl⟩

/-! ### Sessions -/

/-- The sessions are the same, but for the capacity of one registry and the flags in frames. The
narrow registry has no more names than it may. -/
structure Session.Widened (W : Widening) (σ τ : Session) : Prop where
  size_eq : τ.registries.size = σ.registries.size
  home_lt : W.home < σ.registries.size
  narrow_eq : (σ.registry W.home).capacity = W.narrow
  size_le : (σ.registry W.home).size ≤ W.narrow.size
  home_eq : τ.registry W.home = { σ.registry W.home with capacity := W.wide }
  registry_eq : ∀ id, id ≠ W.home → τ.registry id = σ.registry id
  current_eq : τ.current = σ.current
  frames_size : τ.frames.size = σ.frames.size
  frame : ∀ id, (σ.frame id).Widened W (τ.frame id)
  trace_eq : τ.trace = σ.trace
  log_eq : τ.log = σ.log

/-- The registry is current besides. -/
structure Session.WidenedInside (W : Widening) (σ τ : Session) : Prop extends Widened W σ τ where
  current : σ.current = some W.home

namespace Session.WidenedInside

variable {σ τ : Session}

/-- The registries may be changed alike, if the one stays as it is or gets names that there is
room for. -/
theorem modifyHome (h : σ.WidenedInside W τ) {change change' : Registry → Registry}
    (hcapacity : (change (σ.registry W.home)).capacity = W.narrow)
    (hsize : (change (σ.registry W.home)).size ≤ W.narrow.size)
    (hwide : change' { σ.registry W.home with capacity := W.wide } =
      { change (σ.registry W.home) with capacity := W.wide }) :
    (σ.modifyRegistry W.home change).WidenedInside W (τ.modifyRegistry W.home change') := by
  have hσ := registry_modifyRegistry σ h.home_lt change
  have hτ := registry_modifyRegistry τ (h.size_eq ▸ h.home_lt) change'
  refine ⟨⟨?_, ?_, hσ.symm ▸ hcapacity, hσ.symm ▸ hsize, ?_, fun id hid => ?_, h.current_eq,
    h.frames_size, h.frame, h.trace_eq, h.log_eq⟩, h.current⟩
  · simp only [Session.modifyRegistry, Array.size_modify, h.size_eq]
  · simpa only [Session.modifyRegistry, Array.size_modify] using h.home_lt
  · rw [hτ, hσ, h.home_eq, hwide]
  · rw [registry_modifyRegistry_eq, registry_modifyRegistry_eq, if_neg fun hmem => hid hmem.1,
      if_neg fun hmem => hid hmem.1, h.registry_eq id hid]

/-- The level of the registry does not matter. -/
theorem level (h : σ.WidenedInside W τ) (change : Nat → Nat) :
    (σ.modifyRegistry W.home fun r => { r with level := change r.level }).WidenedInside W
      (τ.modifyRegistry W.home fun r => { r with level := change r.level }) :=
  h.modifyHome h.narrow_eq h.size_le rfl

/-- Both sessions may get a frame that is the same for both. -/
theorem push (h : σ.WidenedInside W τ) {frame : Frame} (hframe : frame.Widened W frame) :
    WidenedInside W { σ with frames := σ.frames.push frame }
      { τ with frames := τ.frames.push frame } := by
  refine ⟨⟨h.size_eq, h.home_lt, h.narrow_eq, h.size_le, h.home_eq, h.registry_eq, h.current_eq,
    by simp [h.frames_size], fun id => ?_, h.trace_eq, h.log_eq⟩, h.current⟩
  have hpush : ∀ υ : Session, Session.frame { υ with frames := υ.frames.push frame } id =
      if id = υ.frames.size then frame else υ.frame id := fun υ => frame_push rfl id
  rw [hpush σ, hpush τ, h.frames_size]
  split
  · exact hframe
  · exact h.frame id

/-- Both sessions may have a frame changed alike. -/
theorem modifyFrame (h : σ.WidenedInside W τ) (id : FrameId) {change change' : Frame → Frame}
    (hchange : ∀ {frame frame' : Frame}, frame.Widened W frame' →
      (change frame).Widened W (change' frame')) :
    WidenedInside W { σ with frames := σ.frames.modify id change }
      { τ with frames := τ.frames.modify id change' } := by
  refine ⟨⟨h.size_eq, h.home_lt, h.narrow_eq, h.size_le, h.home_eq, h.registry_eq, h.current_eq,
    by simp [h.frames_size], fun id' => ?_, h.trace_eq, h.log_eq⟩, h.current⟩
  have hframe := h.frame id'
  by_cases hid : id < σ.frames.size
  · have hmodify : ∀ {υ : Session} {change : Frame → Frame}, id < υ.frames.size →
        Session.frame { υ with frames := υ.frames.modify id change } id' =
          if id' = id then change (υ.frame id) else υ.frame id' :=
      fun hid => frame_modify rfl hid id'
    rw [hmodify hid, hmodify (h.frames_size.symm ▸ hid)]
    split
    · exact hchange (h.frame id)
    · exact hframe
  · -- There is no such frame in either session.
    have hnone : ∀ {τ' : Session} {change : Frame → Frame}, τ'.frames.size = σ.frames.size →
        Session.frame { τ' with frames := τ'.frames.modify id change } id' = τ'.frame id' := by
      intro τ' change hsize
      have hid' : ¬ id < τ'.frames.size := hsize.symm ▸ hid
      simp only [Session.frame, Array.getD_eq_getD_getElem?, Array.getElem?_modify]
      split
      · next heq =>
        subst heq
        simp [hid']
      · rfl
    rw [hnone rfl, hnone h.frames_size]
    exact hframe

end Session.WidenedInside

/-! ### Evaluations -/

/-- Two evaluations end alike, one of them in a widened session, or the other one stops because
the registry is full. -/
inductive EndsWidened (G : Grounds) (related : α → β → Prop) :
    Except Stop α × Session → Except Stop β × Session → Prop where
  | answered {a b σ τ} : σ.WidenedInside G.toWidening τ → related a b →
      EndsWidened G related (.ok a, σ) (.ok b, τ)
  | stopped {stop σ τ} : σ.WidenedInside G.toWidening τ → G.Excuses stop →
      EndsWidened G related (.error stop, σ) (.error stop, τ)
  | full {σ outcome} : G.overflows →
      EndsWidened G related (.error (.fault (.registryFull G.narrow)), σ) outcome

/-- An evaluation in one session is done alike in the widened session. -/
def Eval.Widens (G : Grounds) (σ τ : Session) (x : Eval α) (y : Eval β) (related : α → β → Prop) :
    Prop :=
  EndsWidened G related (x σ) (y τ)

namespace Eval.Widens

variable {related : α → β → Prop} {related' : α' → β' → Prop} {σ τ : Session}

theorem pure {a : α} {b : β} (h : σ.WidenedInside G.toWidening τ) (hrelated : related a b) :
    Widens G σ τ (Pure.pure a) (Pure.pure b) related := .answered h hrelated

theorem throw (h : σ.WidenedInside G.toWidening τ) {stop : Stop} (hstop : G.Excuses stop) :
    Widens G σ τ (MonadExcept.throw stop) (MonadExcept.throw stop) related :=
  .stopped h hstop

theorem bind {x : Eval α} {y : Eval β} {f : α → Eval α'} {f' : β → Eval β'}
    (hx : Widens G σ τ x y related)
    (hf : ∀ a b σ' τ', x σ = (.ok a, σ') → σ'.WidenedInside G.toWidening τ' → related a b →
      Widens G σ' τ' (f a) (f' b) related') :
    Widens G σ τ (x >>= f) (y >>= f') related' := by
  unfold Widens at hx ⊢
  rw [Program.bind_apply, Program.bind_apply]
  generalize hrun : x σ = outcome at hx
  generalize y τ = outcome' at hx
  cases hx with
  | answered h hrelated => exact hf _ _ _ _ hrun h hrelated
  | stopped h hstop => exact .stopped h hstop
  | full hfull => exact .full hfull

theorem lift (h : σ.WidenedInside G.toWidening τ) {x : Except Fault α} {y : Except Fault β}
    {a : α} {b : β} (hx : x = .ok a) (hy : y = .ok b) (hrelated : related a b) :
    Widens G σ τ (Eval.lift x) (Eval.lift y) related := by
  rw [hx, hy]
  exact .answered h hrelated

theorem read (h : σ.WidenedInside G.toWidening τ) {f : Session → α} {f' : Session → β}
    (hrelated : related (f σ) (f' τ)) :
    Widens G σ τ (Eval.read f) (Eval.read f') related := .answered h hrelated

theorem deeper (h : σ.WidenedInside G.toWidening τ) {x : Eval α} {y : Eval β}
    (hx : (σ.modifyRegistry G.home fun r => { r with level := r.level + 1 }).WidenedInside
        G.toWidening (τ.modifyRegistry G.home fun r => { r with level := r.level + 1 }) →
      Widens G (σ.modifyRegistry G.home fun r => { r with level := r.level + 1 })
        (τ.modifyRegistry G.home fun r => { r with level := r.level + 1 }) x y related) :
    Widens G σ τ (Eval.deeper G.home x) (Eval.deeper G.home y) related := by
  have hdown := hx (h.level (· + 1))
  unfold Widens at hdown ⊢
  unfold Eval.deeper
  generalize x (σ.modifyRegistry G.home fun r => { r with level := r.level + 1 }) = outcome
    at hdown ⊢
  generalize y (τ.modifyRegistry G.home fun r => { r with level := r.level + 1 }) = outcome'
    at hdown ⊢
  cases hdown with
  | answered h hrelated => exact .answered (h.level (· - 1)) hrelated
  | stopped h hstop => exact .stopped (h.level (· - 1)) hstop
  | full hfull => exact .full hfull

theorem newFrame (h : σ.WidenedInside G.toWidening τ) {frame : Frame}
    (hframe : frame.Widened G.toWidening frame) :
    Widens G σ τ (Eval.newFrame frame) (Eval.newFrame frame) fun id id' => id = id' :=
  .answered (h.push hframe) h.frames_size.symm

theorem modifyFrame (h : σ.WidenedInside G.toWidening τ) (id : FrameId)
    {change change' : Frame → Frame}
    (hchange : ∀ {frame frame' : Frame}, frame.Widened G.toWidening frame' →
      (change frame).Widened G.toWidening (change' frame')) :
    Widens G σ τ (Eval.modifyFrame id change) (Eval.modifyFrame id change') fun _ _ => True :=
  .answered (h.modifyFrame id hchange) trivial

/-- Both sessions are traced alike. -/
theorem trace (h : σ.WidenedInside G.toWidening τ) (verbose : Bool) (event : TraceEvent) :
    Widens G σ τ (Eval.trace verbose event) (Eval.trace verbose event) fun _ _ => True := by
  unfold Widens
  cases verbose with
  | false => exact .answered h trivial
  | true =>
    cases htext : event.text with
    | ok text =>
      have hrun : ∀ υ : Session, Eval.trace true event υ =
          (.ok (), { υ with trace := υ.trace.push event }) := by
        intro υ
        simp only [Eval.trace, htext]
        rfl
      rw [hrun, hrun, h.trace_eq]
      exact .answered ⟨{ h.toWidened with trace_eq := rfl }, h.current⟩ trivial
    | error fault =>
      have hfault := TraceEvent.text_error htext
      have hrun : ∀ υ : Session, Eval.trace true event υ =
          (.error (.fault .unwritableInteger), υ) := by
        intro υ
        simp only [Eval.trace, htext, hfault]
        rfl
      rw [hrun, hrun]
      exact .stopped h .unwritable

/-- The registry is found, since it is current. -/
theorem registryOr (h : σ.WidenedInside G.toWidening τ) :
    Widens G σ τ (Eval.registryOr none) (Eval.registryOr none)
      fun id id' => id = G.home ∧ id' = G.home := by
  unfold Widens
  rw [registryOr_of_current h.current, registryOr_of_current (h.current_eq.trans h.current)]
  exact .answered h ⟨rfl, rfl⟩

/-- A name has the same flag in both registries, or gets it, if there is room for it. -/
theorem flagOf (h : σ.WidenedInside G.toWidening τ) {name : Value}
    (hfull : name.hashable = true → (σ.registry G.home).find? name = none →
      (σ.registry G.home).capacity.size ≤ (σ.registry G.home).size → G.overflows) :
    Widens G σ τ (Eval.flagOf G.home name) (Eval.flagOf G.home name)
      fun flag flag' => flag' = flag ∧ flag < G.narrow.size := by
  unfold Widens
  rw [Eval.flagOf_apply, Eval.flagOf_apply, h.home_eq]
  have hsize := h.size_le
  by_cases hname : name.hashable = true
  · cases hfind : (σ.registry G.home).find? name with
    | some flag =>
      have hfind' : Registry.find? { σ.registry G.home with capacity := G.wide } name = some flag :=
        hfind
      rw [Registry.get_of_find? hname hfind, Registry.get_of_find? hname hfind']
      exact .answered (h.modifyHome h.narrow_eq hsize rfl)
        ⟨rfl, (Registry.find?_lt hfind).trans_le hsize⟩
    | none =>
      have hfind' : Registry.find? { σ.registry G.home with capacity := G.wide } name = none :=
        hfind
      by_cases hlt : (σ.registry G.home).size < G.narrow.size
      · have hwide : (σ.registry G.home).size < G.wide.size := hlt.trans_le G.le
        rw [Registry.get_of_added hname hfind (h.narrow_eq.symm ▸ hlt),
          Registry.get_of_added hname hfind' hwide]
        refine .answered (h.modifyHome h.narrow_eq ?_ rfl) ⟨rfl, hlt⟩
        rw [Registry.size, List.length_append]
        exact hlt
      · have hle : (σ.registry G.home).capacity.size ≤ (σ.registry G.home).size :=
          h.narrow_eq.symm ▸ Nat.le_of_not_lt hlt
        rw [Registry.get_of_full hname hfind hle, h.narrow_eq]
        exact .full (hfull hname hfind hle)
  · have hrefused := Bool.eq_false_of_not_eq_true hname
    rw [Registry.get_of_not_hashable hrefused, Registry.get_of_not_hashable hrefused]
    exact .stopped h .unhashable

end Eval.Widens

end SeedGrowth
