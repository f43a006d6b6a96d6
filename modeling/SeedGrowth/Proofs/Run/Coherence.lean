import SeedGrowth.Proofs.Grammar.Heads
import SeedGrowth.Proofs.Run.Shown

/-!
# Coherence of a run

The invariant of runs: the seat of every open call is taken in the session, open calls
are nested as calls are, and every moment agrees with the calls that were open then.
`Kept` says what any part of a run leaves as it was.
-/
namespace SeedGrowth

variable {ρ : Type}

/-- The seat of an open call is taken in the session. -/
structure OpenCall.Seated (S : Setting ρ) (session : Session) (c : OpenCall ρ) (i : Nat)
    (id : FrameId) : Prop where
  lt_size : id < session.frames.size
  named : ∃ guard, (S.grammar.rule c.rule).guard = some guard ∧
    (session.frame id).name = guard.name ∧ (session.registry S.home).find? guard.name = some i
  flag_eq : (session.frame id).flag = i
  position_eq : (session.frame id).position = c.position
  /-- The best match shows no call, wherever it is handed out. -/
  best_shows : ∀ m, (session.frame id).best = some m →
    m.rest.remaining < c.position ∧ m.rest.Shows S []

/-- At this moment a rule calls another where it began itself. -/
def Moment.Leads (m : Moment ρ) (r r' : ρ) : Prop :=
  ∃ s seat outer, m.happening = .handed (.ref r') s ∧ m.calls = ⟨r, s.remaining, seat⟩ :: outer

/-- Open calls are nested as calls are: positions never go back, no guarded rule is open
twice at one position, and a call that began where the one around it did was made by it. -/
def Orderly (S : Setting ρ) (moments : List (Moment ρ)) : List (OpenCall ρ) → Prop
  | [] => True
  | c :: calls =>
    Orderly S moments calls ∧ c.position ≤ S.length ∧
      c.seat.isSome = (S.grammar.rule c.rule).guard.isSome ∧
      (∀ d ∈ calls, c.position ≤ d.position) ∧
      (c.seat.isSome → ∀ d ∈ calls, d.position = c.position → d.rule ≠ c.rule ∨ d.seat = none) ∧
      ∀ d ∈ calls.head?, d.position = c.position → ∃ m ∈ moments, m.Leads d.rule c.rule

/-- A call of a guarded rule finds its flag set if and only if a call of the rule is open
at the position, and then it finds the frame of that call. -/
def Moment.Recognises (g : Grammar ρ) (m : Moment ρ) (r : ρ) (arrival : Arrival) : Prop :=
  (arrival.active = true ↔
    ∃ c ∈ m.calls, c.rule = r ∧ c.position = arrival.position ∧ c.seat.isSome) ∧
  (arrival.active = true → ∃ c ∈ m.calls, ∃ id guard, c.rule = r ∧
    c.position = arrival.position ∧ c.seat = some (arrival.flag, id) ∧
    arrival.anchor.frame? arrival.flag = some id ∧ (g.rule r).guard = some guard ∧
    (m.frames.getD id default).name = guard.name ∧
    (m.frames.getD id default).flag = arrival.flag ∧
    (m.frames.getD id default).position = arrival.position)

/-- The rules may be called first by the innermost call, if it began at the cursor. -/
def Heads (S : Setting ρ) (calls : List (OpenCall ρ)) (s : Cursor) (rules : List ρ) : Prop :=
  ∀ c ∈ calls.head?, c.position = s.remaining → rules ⊆ (S.grammar.rule c.rule).body.heads

/-- What happens at a moment agrees with the calls that are open then. -/
def Moment.Sound (S : Setting ρ) (moments : List (Moment ρ)) (m : Moment ρ) : Prop :=
  Orderly S moments m.calls ∧
    match m.happening with
    | .handed parser s => s.Shows S m.calls ∧ Heads S m.calls s parser.heads
    | .arrived r arrival => S.grammar.NamesApart → m.Recognises S.grammar r arrival
    | .touched id => ∃ c ∈ m.calls, ∃ i, c.seat = some (i, id)

/-- A later session: its guards use the same registry, which may have got names. -/
structure Session.Later (S : Setting ρ) (σ σ' : Session) : Prop where
  uses : ∀ guard, σ.Uses S.home guard → σ'.Uses S.home guard
  grown : (σ.registry S.home).Grown (σ'.registry S.home)
  room : S.grammar.HasRoom (σ.registry S.home) → S.grammar.HasRoom (σ'.registry S.home)

/-- The frame is as it was, up to its mark. -/
def Session.KeepsFrame (σ σ' : Session) (id : FrameId) : Prop :=
  σ'.frame id = { σ.frame id with reentered := (σ'.frame id).reentered }

namespace Session.KeepsFrame

variable {σ σ' σ'' : Session} {id id' : FrameId}

theorem trans (h : σ.KeepsFrame σ' id) (h' : σ'.KeepsFrame σ'' id) : σ.KeepsFrame σ'' id := by
  unfold KeepsFrame at h h' ⊢
  rw [h', h]

theorem best_eq (h : σ.KeepsFrame σ' id) : (σ'.frame id).best = (σ.frame id).best := by
  unfold KeepsFrame at h
  rw [h]

theorem length_eq (h : σ.KeepsFrame σ' id) : (σ'.frame id).length = (σ.frame id).length := by
  unfold KeepsFrame at h
  rw [h]

theorem of_frames (h : σ'.frames = σ.frames) (id : FrameId) : σ.KeepsFrame σ' id := by
  rw [KeepsFrame, frame_of_frames h]

theorem of_push {f : Frame} (h : σ'.frames = σ.frames.push f) (hid : id < σ.frames.size) :
    σ.KeepsFrame σ' id := by
  rw [KeepsFrame, frame_push h, if_neg hid.ne]

/-- Changing another frame. -/
theorem of_modify {change : Frame → Frame} (h : σ'.frames = σ.frames.modify id change)
    (hid : id < σ.frames.size) (hne : id' ≠ id) : σ.KeepsFrame σ' id' := by
  rw [KeepsFrame, frame_modify h hid, if_neg hne]

/-- Marking a frame. -/
theorem of_mark
    (h : σ'.frames = σ.frames.modify id fun frame => { frame with reentered := true })
    (hid : id < σ.frames.size) (id' : FrameId) : σ.KeepsFrame σ' id' := by
  by_cases hi : id' = id
  · rw [KeepsFrame, frame_modify h hid, if_pos hi, hi]
  · exact of_modify h hid hi

end Session.KeepsFrame

/-- The state of a run agrees with its open calls. -/
structure Run.Sound (S : Setting ρ) (run : Run ρ) : Prop where
  hosts : run.session.Hosts S.grammar S.home
  capacity_eq : (run.session.registry S.home).capacity = S.capacity
  verbose_eq : (run.session.registry S.home).verbose = S.verbose
  room : S.roomy → S.grammar.HasRoom (run.session.registry S.home)
  seated : ∀ c ∈ run.calls, ∀ i id, c.seat = some (i, id) → c.Seated S run.session i id
  apart : run.calls.Pairwise fun c d => ∀ i j id id',
    c.seat = some (i, id) → d.seat = some (j, id') → id' < id ∧ (c.position = d.position → i ≠ j)
  orderly : Orderly S run.moments run.calls
  moments : ∀ m ∈ run.moments, m.Sound S run.moments

theorem Orderly.mono {S : Setting ρ} {moments moments' : List (Moment ρ)}
    (hm : ∀ m ∈ moments, m ∈ moments') :
    ∀ {calls : List (OpenCall ρ)}, Orderly S moments calls → Orderly S moments' calls
  | [], _ => trivial
  | _ :: _, ⟨h, hb, hs, hp, ha, hl⟩ => by
    refine ⟨h.mono hm, hb, hs, hp, ha, fun d hd hdp => ?_⟩
    obtain ⟨m, hmem, hleads⟩ := hl d hd hdp
    exact ⟨m, hm m hmem, hleads⟩

theorem Moment.Sound.mono {S : Setting ρ} {moments moments' : List (Moment ρ)}
    (hm : ∀ m ∈ moments, m ∈ moments') {m : Moment ρ} (h : m.Sound S moments) :
    m.Sound S moments' :=
  ⟨h.1.mono hm, h.2⟩

namespace Session.Later

variable {S : Setting ρ} {σ σ' σ'' : Session}

theorem of_sameStore (h : σ.SameStore σ') : σ.Later S σ' := by
  refine ⟨fun guard hu => hu.of_sameStore h, ?_, fun hr => ?_⟩
  · rw [h.registry]
    exact .refl _
  · rwa [h.registry]

theorem of_registries (hr : σ'.registries = σ.registries) (hc : σ'.current = σ.current) :
    σ.Later S σ' := by
  have heq : ∀ id, σ'.registry id = σ.registry id := fun id => by simp only [registry, hr]
  refine ⟨fun guard hu => ?_, heq S.home ▸ .refl _, fun hroom => heq S.home ▸ hroom⟩
  simpa only [Uses, hr, hc] using hu

/-- Going up and down in a registry. -/
theorem level (σ : Session) (id : RegistryId) (level : Registry → Nat) :
    σ.Later S (σ.modifyRegistry id fun r => { r with level := level r }) := by
  obtain ⟨n, hn⟩ : ∃ n, (σ.modifyRegistry id fun r => { r with level := level r }).registry S.home =
      { σ.registry S.home with level := n } := by
    simp only [registry, modifyRegistry, Array.getD_eq_getD_getElem?, Array.getElem?_modify]
    by_cases hi : id = S.home
    · cases hreg : σ.registries[S.home]? with
      | none => exact ⟨(default : Registry).level, by simp [hi]⟩
      | some r => exact ⟨level r, by simp [hi]⟩
    · exact ⟨_, by rw [if_neg hi]⟩
  refine ⟨fun guard hu => hu.modifyRegistry _ _, hn ▸ ⟨rfl, rfl, List.prefix_rfl⟩, fun hroom => ?_⟩
  rw [hn]
  exact hroom.level n

end Session.Later

namespace OpenCall.Seated

variable {S : Setting ρ} {σ σ' : Session} {c : OpenCall ρ} {i : Nat} {id : FrameId}

/-- A call takes its seat with a new frame. -/
theorem of_begin {r : ρ} {guard : Guard} {position : Nat} (hlt : id < σ.frames.size)
    (hf : σ.frame id = .begin guard.name i position)
    (hr : (S.grammar.rule r).guard = some guard)
    (hfound : (σ.registry S.home).find? guard.name = some i) (seat : Option (Nat × FrameId)) :
    Seated S σ ⟨r, position, seat⟩ i id := by
  refine ⟨hlt, ⟨guard, hr, ?_, hfound⟩, ?_, ?_, fun m hm => ?_⟩
  · rw [hf, Frame.begin]
  · rw [hf, Frame.begin]
  · rw [hf, Frame.begin]
  · rw [hf] at hm
    cases hm

/-- A call keeps its seat when a match further on becomes the best one in its frame. -/
theorem adopt (h : c.Seated S σ i id) (hl : σ.Later S σ')
    (hs : σ.frames.size ≤ σ'.frames.size) {m : Match} {length : Nat}
    (hf : σ'.frame id = { σ.frame id with best := some m, length })
    (hlt : m.rest.remaining < c.position) (hm : m.rest.Shows S []) : c.Seated S σ' i id := by
  obtain ⟨guard, hguard, hname, hflag⟩ := h.named
  refine ⟨h.lt_size.trans_le hs, ⟨guard, hguard, ?_, hl.grown.find? hflag⟩, ?_, ?_,
    fun m' hm' => ?_⟩
  · rw [hf]
    exact hname
  · rw [hf]
    exact h.flag_eq
  · rw [hf]
    exact h.position_eq
  · rw [hf] at hm'
    cases hm'
    exact ⟨hlt, hm⟩

theorem later (h : c.Seated S σ i id) (hl : σ.Later S σ')
    (hs : σ.frames.size ≤ σ'.frames.size) (hf : σ.KeepsFrame σ' id) : c.Seated S σ' i id := by
  obtain ⟨guard, hguard, hname, hflag⟩ := h.named
  unfold Session.KeepsFrame at hf
  refine ⟨h.lt_size.trans_le hs, ⟨guard, hguard, ?_, hl.grown.find? hflag⟩, ?_, ?_, ?_⟩
  · rw [hf]
    exact hname
  · rw [hf]
    exact h.flag_eq
  · rw [hf]
    exact h.position_eq
  · rw [hf]
    exact h.best_shows

end OpenCall.Seated

namespace Run.Sound

variable {S : Setting ρ} {run : Run ρ}

theorem later (h : run.Sound S) {σ : Session} (hl : run.session.Later S σ)
    (hs : run.session.frames.size ≤ σ.frames.size)
    (hf : ∀ id < run.session.frames.size, run.session.KeepsFrame σ id) :
    Run.Sound S { run with session := σ } where
  hosts hg := hl.uses _ (h.hosts hg)
  capacity_eq := hl.grown.capacity.trans h.capacity_eq
  verbose_eq := hl.grown.verbose.trans h.verbose_eq
  room hr := hl.room (h.room hr)
  seated c hc i id hseat :=
    (h.seated c hc i id hseat).later hl hs (hf id (h.seated c hc i id hseat).lt_size)
  apart := h.apart
  orderly := h.orderly
  moments := h.moments

/-- A moment that agrees with the open calls is added. -/
theorem note (h : run.Sound S) {happening : Happening ρ}
    (hm : (⟨happening, run.calls, run.session.frames⟩ : Moment ρ).Sound S run.moments) :
    (run.noted happening).Sound S where
  hosts := h.hosts
  capacity_eq := h.capacity_eq
  verbose_eq := h.verbose_eq
  room := h.room
  seated := h.seated
  apart := h.apart
  orderly := h.orderly.mono fun _ => List.mem_cons_of_mem _
  moments m hmem := by
    rcases List.mem_cons.1 hmem with rfl | hmem
    · exact hm.mono fun _ => List.mem_cons_of_mem _
    · exact (h.moments m hmem).mono fun _ => List.mem_cons_of_mem _

/-- A call ends. -/
theorem close {c : OpenCall ρ} {calls : List (OpenCall ρ)}
    (h : Run.Sound S { run with calls := c :: calls }) :
    Run.Sound S { run with calls := calls } where
  hosts := h.hosts
  capacity_eq := h.capacity_eq
  verbose_eq := h.verbose_eq
  room := h.room
  seated d hd := h.seated d (List.mem_cons_of_mem _ hd)
  apart := (List.pairwise_cons.1 h.apart).2
  orderly := h.orderly.1
  moments := h.moments

end Run.Sound

/-- A later state of a run, in which the same calls are open. Frames below a number are as
they were, up to marks. -/
structure Kept (S : Setting ρ) (older : Nat) (run run' : Run ρ) : Prop where
  calls_eq : run'.calls = run.calls
  moments_suffix : run.moments <:+ run'.moments
  size_le : run.session.frames.size ≤ run'.session.frames.size
  frame_eq : ∀ id < older, run.session.KeepsFrame run'.session id
  sound : run'.Sound S

namespace Kept

variable {S : Setting ρ} {older : Nat} {run run' run'' : Run ρ}

theorem refl (older : Nat) (h : run.Sound S) : Kept S older run run :=
  ⟨rfl, List.suffix_rfl, le_rfl, fun _ _ => rfl, h⟩

theorem trans (h : Kept S older run run') (h' : Kept S older run' run'') :
    Kept S older run run'' :=
  ⟨h'.calls_eq.trans h.calls_eq, h.moments_suffix.trans h'.moments_suffix,
    h.size_le.trans h'.size_le, fun id hid => (h.frame_eq id hid).trans (h'.frame_eq id hid),
    h'.sound⟩

theorem weaken {older' : Nat} (h : Kept S older run run') (hle : older' ≤ older) :
    Kept S older' run run' :=
  ⟨h.calls_eq, h.moments_suffix, h.size_le, fun id hid => h.frame_eq id (hid.trans_le hle),
    h.sound⟩

theorem noted (older : Nat) (h : run.Sound S) {happening : Happening ρ}
    (hm : (⟨happening, run.calls, run.session.frames⟩ : Moment ρ).Sound S run.moments) :
    Kept S older run (run.noted happening) :=
  ⟨rfl, List.suffix_cons _ _, le_rfl, fun _ _ => rfl, h.note hm⟩

end Kept

end SeedGrowth
