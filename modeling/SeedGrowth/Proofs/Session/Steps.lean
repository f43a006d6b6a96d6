import SeedGrowth.Proofs.Flags.Live
import SeedGrowth.Proofs.Program
import SeedGrowth.Proofs.Registry.Names
import SeedGrowth.Proofs.Value.Written

/-!
# The steps of a guarded call

What each step of a call does to the session: looking up the flag changes registries
only, entering a frame adds one, and tracing leaves both alone. A session hosts a
grammar if all its guards use one registry, which may be a current one that has yet to
be made.
-/
namespace SeedGrowth

namespace Session

/-- The sessions differ in trace and log only. -/
structure SameStore (σ σ' : Session) : Prop where
  registries : σ'.registries = σ.registries
  current : σ'.current = σ.current
  frames : σ'.frames = σ.frames

theorem SameStore.refl (σ : Session) : σ.SameStore σ := ⟨rfl, rfl, rfl⟩

/-- A guard uses the registry: it is bound to it, or left to the current one. -/
def Uses (σ : Session) (home : RegistryId) (guard : Guard) : Prop :=
  match guard.registry with
  | some id => id = home ∧ home < σ.registries.size
  | none =>
    σ.current = some home ∧ home < σ.registries.size ∨
      σ.current = none ∧ σ.registries.size = home

/-- All guards of a grammar use the registry. -/
def Hosts {ρ : Type} (σ : Session) (g : Grammar ρ) (home : RegistryId) : Prop :=
  ∀ {r : ρ} {guard : Guard}, (g.rule r).guard = some guard → σ.Uses home guard

theorem registry_modifyRegistry (σ : Session) {id : RegistryId} (h : id < σ.registries.size)
    (change : Registry → Registry) :
    (σ.modifyRegistry id change).registry id = change (σ.registry id) := by
  simp [registry, modifyRegistry, Array.getD_eq_getD_getElem?, Array.getElem?_modify,
    Array.getElem?_eq_getElem h]

theorem registry_modifyRegistry_eq (σ : Session) (id id' : RegistryId)
    (change : Registry → Registry) : (σ.modifyRegistry id change).registry id' =
      if id' = id ∧ id < σ.registries.size then change (σ.registry id') else σ.registry id' := by
  by_cases hid : id' = id
  · subst hid
    by_cases hlt : id' < σ.registries.size
    · rw [if_pos ⟨rfl, hlt⟩, registry_modifyRegistry σ hlt]
    · rw [if_neg (fun h => hlt h.2)]
      simp [registry, modifyRegistry, Array.getD_eq_getD_getElem?, hlt]
  · rw [if_neg (fun h => hid h.1)]
    simp [registry, modifyRegistry, Array.getD_eq_getD_getElem?, Array.getElem?_modify, Ne.symm hid]

theorem registry_addRegistry (σ : Session) (r : Registry) (id : RegistryId) :
    (σ.addRegistry r).2.registry id = if id = σ.registries.size then r else σ.registry id := by
  simp only [registry, addRegistry, Array.getD_eq_getD_getElem?, Array.getElem?_push]
  split <;> rfl

theorem currentRegistry_of_current {σ : Session} {id : RegistryId} (h : σ.current = some id) :
    σ.currentRegistry = (id, σ) := by
  simp only [currentRegistry, h]

theorem currentRegistry_of_none {σ : Session} (h : σ.current = none) : σ.currentRegistry =
    (σ.registries.size,
      { σ with registries := σ.registries.push default, current := some σ.registries.size }) := by
  simp only [currentRegistry, h, addRegistry]

/-- The registry that is asked for is current then. -/
theorem current_currentRegistry (σ : Session) :
    σ.currentRegistry.2.current = some σ.currentRegistry.1 := by
  cases h : σ.current with
  | some id => rw [currentRegistry_of_current h, h]
  | none => rw [currentRegistry_of_none h]

theorem Uses.modifyRegistry {σ : Session} {home : RegistryId} {guard : Guard}
    (h : σ.Uses home guard) (id : RegistryId) (change : Registry → Registry) :
    (σ.modifyRegistry id change).Uses home guard := by
  simpa only [Uses, Session.modifyRegistry, Array.size_modify] using h

theorem Uses.of_sameStore {σ σ' : Session} {home : RegistryId} {guard : Guard}
    (h : σ.Uses home guard) (hs : σ.SameStore σ') : σ'.Uses home guard := by
  simpa only [Uses, hs.registries, hs.current] using h

theorem SameStore.registry {σ σ' : Session} (hs : σ.SameStore σ') (id : RegistryId) :
    σ'.registry id = σ.registry id := by
  simp only [Session.registry, hs.registries]

theorem frame_of_frames {σ σ' : Session} (h : σ'.frames = σ.frames) (id : FrameId) :
    σ'.frame id = σ.frame id := by
  rw [frame, h, frame]

theorem SameStore.frame {σ σ' : Session} (hs : σ.SameStore σ') (id : FrameId) :
    σ'.frame id = σ.frame id :=
  frame_of_frames hs.frames id

theorem frame_push {σ σ' : Session} {f : Frame} (h : σ'.frames = σ.frames.push f) (id : FrameId) :
    σ'.frame id = if id = σ.frames.size then f else σ.frame id := by
  simp only [frame, h, Array.getD_eq_getD_getElem?, Array.getElem?_push]
  split <;> rfl

theorem frame_modify {σ σ' : Session} {id : FrameId} {change : Frame → Frame}
    (h : σ'.frames = σ.frames.modify id change) (hid : id < σ.frames.size) (id' : FrameId) :
    σ'.frame id' = if id' = id then change (σ.frame id) else σ.frame id' := by
  simp only [frame, h, Array.getD_eq_getD_getElem?, Array.getElem?_modify]
  by_cases hi : id' = id
  · subst hi
    simp [Array.getElem?_eq_getElem hid]
  · simp [hi, Ne.symm hi]

/-- Changing a frame, whether there is such a frame or not. -/
theorem frame_modify_eq (σ : Session) (id : FrameId) (change : Frame → Frame) (id' : FrameId) :
    ({ σ with frames := σ.frames.modify id change } : Session).frame id' =
      if id' = id ∧ id < σ.frames.size then change (σ.frame id) else σ.frame id' := by
  by_cases hid : id < σ.frames.size
  · rw [frame_modify rfl hid]
    simp only [hid, and_true]
  · rw [if_neg (fun hand => hid hand.2)]
    simp only [frame, Array.getD_eq_getD_getElem?, Array.getElem?_modify]
    split
    · next heq =>
      subst heq
      simp [Array.getElem?_eq_none (Nat.le_of_not_lt hid)]
    · rfl

/-- What a change of frames keeps is the same of all frames. -/
theorem apply_frame_modify {α : Type} (field : Frame → α) (σ : Session) (id : FrameId)
    {change : Frame → Frame} (h : ∀ frame, field (change frame) = field frame) (id' : FrameId) :
    field (({ σ with frames := σ.frames.modify id change } : Session).frame id') =
      field (σ.frame id') := by
  rw [frame_modify_eq]
  split
  · next heq => rw [h, heq.1]
  · rfl

/-- Marks on frames are not taken off. -/
def KeepsMarks (σ σ' : Session) : Prop :=
  ∀ id, (σ.frame id).reentered = true → (σ'.frame id).reentered = true

namespace KeepsMarks

variable {σ σ' σ'' : Session}

theorem refl (σ : Session) : σ.KeepsMarks σ := fun _ h => h

theorem trans (h : σ.KeepsMarks σ') (h' : σ'.KeepsMarks σ'') : σ.KeepsMarks σ'' :=
  fun id hmarked => h' id (h id hmarked)

theorem of_frames (h : σ'.frames = σ.frames) : σ.KeepsMarks σ' :=
  fun id hmarked => (congrArg Frame.reentered (frame_of_frames h id)).trans hmarked

/-- There is no mark where a frame is added. -/
theorem push (σ : Session) (frame : Frame) :
    σ.KeepsMarks { σ with frames := σ.frames.push frame } := by
  intro id hmarked
  rw [frame_push rfl]
  split
  · next heq =>
    have hnone : σ.frame id = default := by simp [heq, Session.frame]
    rw [hnone] at hmarked
    cases hmarked
  · exact hmarked

theorem modify (σ : Session) (id : FrameId) {change : Frame → Frame}
    (h : ∀ frame : Frame, frame.reentered = true → (change frame).reentered = true) :
    σ.KeepsMarks { σ with frames := σ.frames.modify id change } := by
  intro id' hmarked
  rw [frame_modify_eq]
  split
  · next heq => exact h _ (heq.1 ▸ hmarked)
  · exact hmarked

end KeepsMarks

end Session

open Session

namespace Eval

theorem lift_apply {α : Type} (x : Except Fault α) (σ : Session) :
    lift x σ = (x.mapError Stop.fault, σ) := by
  cases x <;> rfl

theorem eq_of_lift {α : Type} {x : Except Fault α} {a : α} {σ σ' : Session}
    (h : lift x σ = (.ok a, σ')) : x = .ok a ∧ σ' = σ := by
  rw [lift_apply] at h
  cases x with
  | ok b =>
    cases h
    exact ⟨rfl, rfl⟩
  | error fault => cases h

/-- Tracing goes well or meets a number that is too long. -/
theorem trace_spec (verbose : Bool) (event : TraceEvent) (σ : Session) :
    ∃ result σ', trace verbose event σ = (result, σ') ∧ σ.SameStore σ' ∧
      (result = .ok () ∨ verbose = true ∧ result = .error (.fault .unwritableInteger)) := by
  cases verbose with
  | false => exact ⟨_, _, rfl, .refl σ, .inl rfl⟩
  | true =>
    cases h : event.text with
    | ok text =>
      refine ⟨.ok (), { σ with trace := σ.trace.push event }, ?_, ⟨rfl, rfl, rfl⟩, .inl rfl⟩
      simp only [trace, h]
      rfl
    | error fault =>
      refine ⟨_, σ, ?_, .refl σ, .inr ⟨rfl, rfl⟩⟩
      simp only [trace, h, ← TraceEvent.text_error h]
      rfl

theorem sameStore_of_trace {verbose : Bool} {event : TraceEvent} {result : Except Stop Unit}
    {σ σ' : Session} (h : trace verbose event σ = (result, σ')) : σ.SameStore σ' := by
  obtain ⟨result', σ₁, htrace, hsame, -⟩ := trace_spec verbose event σ
  rw [htrace] at h
  cases h
  exact hsame

theorem frames_of_registryOr {bound : Option RegistryId} {result : Except Stop RegistryId}
    {σ σ' : Session} (h : registryOr bound σ = (result, σ')) : σ'.frames = σ.frames := by
  cases bound with
  | some id =>
    cases h
    rfl
  | none =>
    have hcurrent : (.ok σ.currentRegistry.1, σ.currentRegistry.2) = (result, σ') := h
    cases hcurrent
    unfold Session.currentRegistry
    cases σ.current <;> rfl

theorem registryOr_of_current {σ : Session} {id : RegistryId} (h : σ.current = some id) :
    registryOr none σ = (.ok id, σ) := by
  change (Except.ok σ.currentRegistry.1, σ.currentRegistry.2) = _
  rw [currentRegistry_of_current h]

/-- A guard's registry is found, and made if need be. -/
theorem registryOr_spec {σ : Session} {home : RegistryId} {guard : Guard}
    (h : σ.Uses home guard) :
    ∃ σ', registryOr guard.registry σ = (.ok home, σ') ∧ σ'.frames = σ.frames ∧
      home < σ'.registries.size ∧ σ'.registry home = σ.registry home ∧
      ∀ guard', σ.Uses home guard' → σ'.Uses home guard' := by
  obtain ⟨name, bound⟩ := guard
  cases bound with
  | some id =>
    obtain ⟨rfl, hlt⟩ := h
    exact ⟨σ, rfl, rfl, hlt, rfl, fun _ h => h⟩
  | none =>
    have heq : registryOr none σ = (.ok σ.currentRegistry.1, σ.currentRegistry.2) := rfl
    rcases h with ⟨hc, hlt⟩ | ⟨hc, hs⟩
    · refine ⟨σ, ?_, rfl, hlt, rfl, fun _ h => h⟩
      rw [heq]
      simp [Session.currentRegistry, hc]
    · subst hs
      refine ⟨{ σ with
        registries := σ.registries.push default, current := some σ.registries.size }, ?_, rfl,
        by simp, ?_, fun guard' h' => ?_⟩
      · rw [heq]
        simp only [Session.currentRegistry, hc, Session.addRegistry]
      · simp [Session.registry, Array.getD_eq_getD_getElem?]
      · unfold Uses at h' ⊢
        split at h'
        · exact ⟨h'.1, by simp⟩
        · exact .inl ⟨rfl, by simp⟩

theorem flagOf_apply (id : RegistryId) (name : Value) (σ : Session) :
    flagOf id name σ = match (σ.registry id).get name with
      | .ok (flag, registry) => (.ok flag, σ.modifyRegistry id fun _ => registry)
      | .error fault => (.error (.fault fault), σ) := by
  change (lift ((σ.registry id).get name) >>= _) σ = _
  rw [Program.bind_apply, lift_apply]
  cases (σ.registry id).get name <;> rfl

theorem frames_of_flagOf {id : RegistryId} {name : Value} {result : Except Stop Nat}
    {σ σ' : Session} (h : flagOf id name σ = (result, σ')) : σ'.frames = σ.frames := by
  rw [flagOf_apply] at h
  split at h <;> cases h <;> rfl

end Eval

/-- What a call of a guarded rule with a name finds at a cursor. -/
structure Arrival.Faces (arrival : Arrival) (home : RegistryId) (registry : Registry) (name : Value)
    (s : Cursor) : Prop where
  registry_eq : arrival.registry = home
  name_eq : arrival.name = name
  found : registry.find? name = some arrival.flag
  position_eq : arrival.position = s.remaining
  verbose_eq : arrival.verbose = registry.verbose
  flag_lt : arrival.flag < arrival.flags.capacity
  width_eq : s.width = some arrival.flags.capacity
  anchored : arrival.anchor.position = s.remaining
  mem_eq : ∀ i, arrival.flags.mem i = s.lit s.remaining i
  frame?_eq : ∀ i, arrival.anchor.frame? i = s.frameAt s.remaining i
  active_eq : arrival.active = s.lit s.remaining arrival.flag

theorem arrive_apply (name : Value) (bound : Option RegistryId) (s : Cursor) :
    arrive name bound s = (do
      let id ← Eval.registryOr bound
      let flag ← Eval.flagOf id name
      let f ← Eval.lift s.flags
      let registry ← Eval.read (·.registry id)
      let active ← Eval.lift ((enterAt s.remaining f).1.check (.int flag))
      return ⟨id, name, flag, s.remaining, registry.level, registry.verbose,
        (enterAt s.remaining f).1, (enterAt s.remaining f).2, active⟩) := rfl

theorem Flags.check_natCast {α : Type} (f : Flags α) {flag : Nat} (h : flag < f.capacity) :
    f.check (.int flag) = .ok (f.mem flag) := by
  rw [check, locate_natCast h]
  rfl

theorem Flags.check_eq_error {α : Type} (f : Flags α) {flag : Nat} (h : f.capacity ≤ flag) :
    ∃ fault, f.check (.int flag) = .error fault ∧
      ∀ {β : Type} (f' : Flags β), f'.capacity = f.capacity →
        f'.check (.int flag) = .error fault := by
  have hlocate : ∀ {β : Type} (f' : Flags β), f'.capacity = f.capacity →
      f'.locate .tuple (.int flag) = f.locate .tuple (.int flag) := by
    intro β f' hf
    simp only [locate, hf]
  have hout : (Bound.below f.capacity).holds (.int flag) = false := by
    simp [Bound.holds, h]
  obtain ⟨fault, hfault⟩ : ∃ fault, f.locate .tuple (.int flag) = .error fault := by
    simp only [locate, Value.bounded, Value.number?, hout]
    cases (Value.int flag).written with
    | ok text => exact ⟨_, rfl⟩
    | error fault => exact ⟨_, rfl⟩
  refine ⟨fault, by rw [check, hfault]; rfl, fun f' hf => ?_⟩
  rw [check, hlocate f' hf, hfault]
  rfl

/-- Flags that there are not are told by how many there are. -/
theorem Flags.check_error_eq {α β : Type} (f : Flags α) {f' : Flags β} {flag : Nat}
    (h : f.capacity ≤ flag) (hc : f'.capacity = f.capacity) {fault : Fault}
    (hf : f.check (.int flag) = .error fault) : f'.check (.int flag) = .error fault := by
  obtain ⟨fault', hfault, hsame⟩ := f.check_eq_error h
  rw [hf] at hfault
  cases hfault
  exact hsame f' hc

/-- Looking up the flag of a guarded rule. The registry may get the name; what goes wrong
is that it does not take it, that the cursor has no flags at all, or not this one. -/
theorem arrive_spec {σ : Session} {home : RegistryId} {guard : Guard} (hu : σ.Uses home guard)
    (hk : guard.name.alike guard.name = true) (s : Cursor) :
    ∃ result σ', arrive guard.name guard.registry s σ = (result, σ') ∧ σ'.frames = σ.frames ∧
      (∀ guard', σ.Uses home guard' → σ'.Uses home guard') ∧
      ((∃ fault, (σ.registry home).get guard.name = .error fault ∧
          σ'.registry home = σ.registry home ∧ result = .error (.fault fault)) ∨
        ∃ flag, (σ.registry home).get guard.name = .ok (flag, σ'.registry home) ∧
          ((∃ arrival, result = .ok arrival ∧
              arrival.Faces home (σ'.registry home) guard.name s) ∨
            (s.width = none ∧ result = .error (.fault .flagless)) ∨
            ∃ f fault, s.payload.flags? = some f ∧ f.capacity ≤ flag ∧
              f.check (.int flag) = .error fault ∧ result = .error (.fault fault))) := by
  obtain ⟨σ₁, hor, hframes, hlt, hregistry, huses⟩ := Eval.registryOr_spec hu
  rw [arrive_apply, Program.bind_ok hor]
  cases hget : (σ.registry home).get guard.name with
  | error fault =>
    refine ⟨.error (.fault fault), σ₁, ?_, hframes, huses, .inl ⟨fault, rfl, hregistry, rfl⟩⟩
    exact Program.bind_error (by rw [Eval.flagOf_apply, hregistry, hget]) _
  | ok answer =>
    obtain ⟨flag, registry⟩ := answer
    have hflag : Eval.flagOf home guard.name σ₁ =
        (.ok flag, σ₁.modifyRegistry home fun _ => registry) := by
      rw [Eval.flagOf_apply, hregistry, hget]
    obtain ⟨hgrown, hfound⟩ := Registry.get_eq_ok hk hget
    rw [Program.bind_ok hflag]
    have hnew : (σ₁.modifyRegistry home fun _ => registry).registry home = registry :=
      registry_modifyRegistry σ₁ hlt _
    have huses' : ∀ guard', σ.Uses home guard' →
        (σ₁.modifyRegistry home fun _ => registry).Uses home guard' :=
      fun guard' h => (huses guard' h).modifyRegistry _ _
    have hframes' : (σ₁.modifyRegistry home fun _ => registry).frames = σ.frames := hframes
    generalize σ₁.modifyRegistry home (fun _ => registry) = σ₂ at hnew huses' hframes'
    subst hnew
    cases hf : s.payload.flags? with
    | none =>
      have hflags : s.flags = .error .flagless := by simp [Cursor.flags, hf]
      refine ⟨.error (.fault .flagless), σ₂, ?_, hframes', huses', .inr ⟨flag, rfl, ?_⟩⟩
      · exact Program.bind_error (by rw [hflags]; rfl) _
      · exact .inr (.inl ⟨by simp [Cursor.width, hf], rfl⟩)
    | some f =>
      have hflags : Eval.lift s.flags σ₂ = (.ok f, σ₂) := by
        rw [Cursor.flags_eq_ok.2 hf]
        rfl
      obtain ⟨hanchored, hcapacity, hview⟩ := Flags.enterAt_spec s.remaining f
      have hread : Eval.read (·.registry home) σ₂ = (.ok (σ₂.registry home), σ₂) := rfl
      rw [Program.bind_ok hflags, Program.bind_ok hread]
      by_cases hlt : flag < f.capacity
      · have hcheck := Flags.check_natCast (enterAt s.remaining f).1 (hcapacity ▸ hlt)
        rw [hcheck]
        refine ⟨_, σ₂, rfl, hframes', huses', .inr ⟨flag, rfl, .inl ⟨_, rfl, ?_⟩⟩⟩
        constructor <;> simp_all [Cursor.lit, Cursor.frameAt, Cursor.width]
      · obtain ⟨fault, hcheck, hsame⟩ := Flags.check_eq_error f (Nat.le_of_not_lt hlt)
        refine ⟨.error (.fault fault), σ₂, ?_, hframes', huses', .inr ⟨flag, rfl, ?_⟩⟩
        · exact Program.bind_error (by rw [hsame _ hcapacity]; rfl) _
        · exact .inr (.inr ⟨f, fault, rfl, Nat.le_of_not_lt hlt, hcheck, rfl⟩)

/-- The call that begins where a flag is not set, with a frame of the given number. -/
def Arrival.call (arrival : Arrival) (frame : FrameId) : Call :=
  ⟨arrival.registry, arrival.name, arrival.flag, arrival.position, arrival.level, arrival.verbose,
    frame⟩

/-- Beginning a call enters a frame and lights the flag, unless the trace stops it. -/
theorem begin_spec {arrival : Arrival} {home : RegistryId} {registry : Registry} {name : Value}
    {s : Cursor} (h : arrival.Faces home registry name s) (σ : Session) :
    ∃ result σ', arrival.begin s σ = (result, σ') ∧ σ'.registries = σ.registries ∧
      σ'.current = σ.current ∧ σ'.frames = σ.frames.push (.begin name arrival.flag s.remaining) ∧
      ((∃ s', result = .ok (arrival.call σ.frames.size, s') ∧ s'.fragment = s.fragment ∧
          s'.place = s.place ∧ s'.width = s.width ∧
          (∀ q i, s'.lit q i =
            (decide (s.remaining = q) && (s.lit s.remaining i || decide (i = arrival.flag)))) ∧
          ∀ q i, s'.frameAt q i = if s.remaining = q then
            if i = arrival.flag then some σ.frames.size else s.frameAt s.remaining i
            else none) ∨
        registry.verbose = true ∧ result = .error (.fault .unwritableInteger)) := by
  obtain ⟨f, hf, hcapacity⟩ := Option.map_eq_some_iff.1 h.width_eq
  let frame := σ.frames.size
  let σ₁ : Session :=
    { σ with frames := σ.frames.push (.begin arrival.name arrival.flag arrival.position) }
  let flags : Flags Carried := (arrival.flags.insert arrival.flag).carrying
    (.anchor (arrival.anchor.insert arrival.flag frame))
  have hset : arrival.flags.set (.int arrival.flag) = .ok (arrival.flags.insert arrival.flag) := by
    rw [Flags.set, Flags.locate_natCast h.flag_lt]
    rfl
  have hbegin : arrival.begin s σ = (Eval.trace arrival.verbose
      (.entered arrival.level arrival.name (s.withFlags flags).fragment) >>= fun _ =>
        return (arrival.call frame, s.withFlags flags)) σ₁ := by
    have hnew : Eval.newFrame (.begin arrival.name arrival.flag arrival.position) σ =
        (.ok frame, σ₁) := rfl
    rw [Arrival.begin, Program.bind_ok hnew, hset]
    rfl
  have hflags : (s.withFlags flags).payload.flags? = some flags := Cursor.flags?_withFlags hf flags
  obtain ⟨result, σ', htrace, hsame, hresult⟩ := Eval.trace_spec arrival.verbose
    (.entered arrival.level arrival.name (s.withFlags flags).fragment) σ₁
  have hframes : σ'.frames = σ.frames.push (.begin name arrival.flag s.remaining) := by
    rw [hsame.frames, ← h.name_eq, ← h.position_eq]
  rw [hbegin]
  rcases hresult with rfl | ⟨hverbose, rfl⟩
  · refine ⟨_, σ', Program.bind_ok htrace _, hsame.registries, hsame.current, hframes, .inl
      ⟨_, rfl, rfl, rfl, ?_, fun q i => ?_, fun q i => ?_⟩⟩
    · simp [Cursor.width, hflags, flags, hf, hcapacity]
    · have hlit : (s.withFlags flags).lit q i = flags.lit q i := by simp [Cursor.lit, hflags]
      rw [hlit, Flags.lit_begin h.flag_lt, h.anchored, h.mem_eq]
      simp only [Int.natCast_inj]
    · have hframe : (s.withFlags flags).frameAt q i = flags.frameAt q i := by
        simp [Cursor.frameAt, hflags]
      rw [hframe, Flags.frameAt_begin, h.anchored, h.frame?_eq]
      simp only [Int.natCast_inj, frame]
  · exact ⟨_, σ', Program.bind_error htrace _, hsame.registries, hsame.current, hframes, .inr
      ⟨h.verbose_eq ▸ hverbose, rfl⟩⟩

/-- The answer to a call that finds its flag set marks the frame and gives its best match,
unless the trace stops it. -/
theorem answer_spec {arrival : Arrival} {id : FrameId} {σ : Session}
    (h : arrival.anchor.frame? arrival.flag = some id) (hid : id < σ.frames.size) :
    ∃ result σ', arrival.answer σ = (result, σ') ∧ σ'.registries = σ.registries ∧
      σ'.current = σ.current ∧
      σ'.frames = σ.frames.modify id (fun frame => { frame with reentered := true }) ∧
      (result = .ok (σ.frame id).best ∨
        arrival.verbose = true ∧ result = .error (.fault .unwritableInteger)) := by
  let σ₁ : Session :=
    { σ with frames := σ.frames.modify id fun frame => { frame with reentered := true } }
  have hbest : (σ₁.frame id).best = (σ.frame id).best := by
    have hmark : σ₁.frames = σ.frames.modify id fun frame => { frame with reentered := true } := rfl
    rw [frame_modify hmark hid, if_pos rfl]
  have hanswer : arrival.answer σ = (Eval.trace arrival.verbose
      (.seeded arrival.level arrival.name (σ₁.frame id).bestValue) >>= fun _ =>
        return (σ₁.frame id).best) σ₁ := by
    simp only [Arrival.answer, h]
    rfl
  obtain ⟨result, σ', htrace, hsame, hresult⟩ := Eval.trace_spec arrival.verbose
    (.seeded arrival.level arrival.name (σ₁.frame id).bestValue) σ₁
  rw [hanswer, hbest]
  rcases hresult with rfl | ⟨hverbose, rfl⟩
  · exact ⟨_, σ', Program.bind_ok htrace _, hsame.registries, hsame.current, hsame.frames,
      .inl rfl⟩
  · exact ⟨_, σ', Program.bind_error htrace _, hsame.registries, hsame.current, hsame.frames,
      .inr ⟨hverbose, rfl⟩⟩

namespace Call

variable (call : Call)

theorem review_spec (round : Nat) (result : Option Match) (σ : Session) :
    ∃ answer σ', call.review round result σ = (answer, σ') ∧ σ.SameStore σ' ∧
      (answer = .ok (σ.frame call.frame) ∨
        call.verbose = true ∧ answer = .error (.fault .unwritableInteger)) := by
  obtain ⟨traced, σ', htrace, hsame, htraced⟩ := Eval.trace_spec call.verbose
    (.evaluated call.level call.name call.position round (valueOf result)) σ
  rw [review]
  rcases htraced with rfl | ⟨hverbose, rfl⟩
  · exact ⟨_, σ', Program.bind_ok htrace _, hsame, .inl (congrArg _ (hsame.frame _))⟩
  · exact ⟨_, σ', Program.bind_error htrace _, hsame, .inr ⟨hverbose, rfl⟩⟩

theorem settle_spec (frame : Frame) (result : Option Match) (σ : Session) :
    ∃ answer σ', call.settle frame result σ = (answer, σ') ∧ σ.SameStore σ' ∧
      (answer = .ok frame.best ∨
        call.verbose = true ∧ answer = .error (.fault .unwritableInteger)) := by
  obtain ⟨event, hsettle⟩ : ∃ event, call.settle frame result =
      (Eval.trace call.verbose event >>= fun _ => return frame.best) := ⟨_, rfl⟩
  obtain ⟨traced, σ', htrace, hsame, htraced⟩ := Eval.trace_spec call.verbose event σ
  rw [hsettle]
  rcases htraced with rfl | ⟨hverbose, rfl⟩
  · exact ⟨_, σ', Program.bind_ok htrace _, hsame, .inl rfl⟩
  · exact ⟨_, σ', Program.bind_error htrace _, hsame, .inr ⟨hverbose, rfl⟩⟩

/-- A result is judged by the best match if the frame is marked. -/
theorem judge_apply (round : Nat) (result : Option Match) (further : Match → Eval (Option Match))
    (σ : Session) : call.judge round result further σ =
      if (σ.frame call.frame).reentered then (do
        let frame ← call.review round result
        match call.longer? frame result with
        | none => call.settle frame result
        | some m => further m : Eval (Option Match)) σ
      else (.ok result, σ) := by
  change (if (σ.frame call.frame).reentered then _ else _ : Eval (Option Match)) σ = _
  split <;> rfl

/-- A loop ends with the result that it begins with if the frame is not marked. -/
theorem grow_of_idle (body : Eval (Option Match)) (rounds round : Nat) (result : Option Match)
    {σ : Session} (h : ¬ (σ.frame call.frame).reentered = true) :
    call.grow body rounds round result σ = (.ok result, σ) := by
  cases rounds <;> exact (call.judge_apply ..).trans (if_neg h)

/-- A judgement that goes well has left the frame unmarked, settled for the best match, or gone
on with a longer one. -/
theorem exists_of_judge {round : Nat} {result answer : Option Match}
    {further : Match → Eval (Option Match)} {σ σ' : Session}
    (h : call.judge round result further σ = (.ok answer, σ')) :
    ((σ.frame call.frame).reentered = false ∧ answer = result ∧ σ' = σ) ∨
      (σ.frame call.frame).reentered = true ∧ ∃ frame σ₁,
        call.review round result σ = (.ok frame, σ₁) ∧
          (call.longer? frame result = none ∧ call.settle frame result σ₁ = (.ok answer, σ') ∨
            ∃ m, call.longer? frame result = some m ∧ further m σ₁ = (.ok answer, σ')) := by
  rw [judge_apply] at h
  split at h
  · next hmarked =>
    obtain ⟨frame, σ₁, hreview, h⟩ := Program.exists_of_bind h
    refine .inr ⟨hmarked, frame, σ₁, hreview, ?_⟩
    cases hl : call.longer? frame result with
    | none =>
      rw [hl] at h
      exact .inl ⟨rfl, h⟩
    | some m =>
      rw [hl] at h
      exact .inr ⟨m, rfl, h⟩
  · next hidle =>
    cases h
    exact .inl ⟨Bool.eq_false_iff.2 hidle, rfl, rfl⟩

/-- Finishing a call takes its flag and its frame off the result, unless the trace
stops it. -/
theorem finish_spec (result : Option Match) (σ : Session)
    (h : ∀ m, result = some m → ∃ width, m.rest.width = some width ∧ call.flag < width) :
    ∃ answer σ', call.finish result σ = (answer, σ') ∧ σ.SameStore σ' ∧
      ((result = none ∧ answer = .ok none) ∨
        (∃ m m', result = some m ∧ answer = .ok (some m') ∧ m'.value = m.value ∧
          m'.rest.fragment = m.rest.fragment ∧ m'.rest.place = m.rest.place ∧
          m'.rest.width = m.rest.width ∧
          ∀ q i, (m'.rest.lit q i = true ↔ m.rest.lit q i = true ∧ i ≠ call.flag) ∧
            m'.rest.frameAt q i = if i = call.flag then none else m.rest.frameAt q i) ∨
        call.verbose = true ∧ answer = .error (.fault .unwritableInteger)) := by
  obtain ⟨traced, σ', htrace, hsame, htraced⟩ := Eval.trace_spec call.verbose
    (.left call.level call.name (valueOf result)) σ
  rcases htraced with rfl | ⟨hverbose, rfl⟩
  · have hfinish : call.finish result σ = _ := Program.bind_ok htrace _
    rw [hfinish]
    cases result with
    | none => exact ⟨_, σ', rfl, hsame, .inl ⟨rfl, rfl⟩⟩
    | some m =>
      obtain ⟨width, hwidth, hlt⟩ := h m rfl
      obtain ⟨f, hf, rfl⟩ := Option.map_eq_some_iff.1 hwidth
      obtain ⟨f', hwithout, hcapacity, hview⟩ := Flags.withoutFlag_eq hlt
      have hflags := Cursor.flags?_withFlags hf f'
      have hleave : m.leave call.flag = .ok { m with rest := m.rest.withFlags f' } := by
        rw [Match.leave, Cursor.flags_eq_ok.2 hf]
        change (withoutFlag call.flag f >>= _) = _
        rw [hwithout]
        rfl
      dsimp only
      rw [hleave]
      refine ⟨_, σ', rfl, hsame, .inr (.inl ⟨m, { m with rest := m.rest.withFlags f' }, rfl, rfl,
        rfl, rfl, rfl, ?_, fun q i => ?_⟩)⟩
      · simp only [Cursor.width, hflags, hf, Option.map_some, hcapacity]
      · simpa only [Cursor.lit, Cursor.frameAt, hflags, hf, Option.any_some, Option.bind_some]
          using hview q i
  · exact ⟨_, σ', Program.bind_error htrace _, hsame, .inr (.inr ⟨hverbose, rfl⟩)⟩

end Call

end SeedGrowth
