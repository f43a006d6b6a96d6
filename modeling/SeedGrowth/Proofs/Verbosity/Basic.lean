import SeedGrowth.Proofs.Session.Steps

/-!
# Evaluations that are traced and evaluations that are not

One session is louder than another if it traces more registries and is the same otherwise,
apart from what has been traced. An evaluation in the louder session echoes that in the
other: it ends alike, or it stops at a value that cannot be written. Such a value has been
said, as it is put here of values that a trace would report. There is one rule for each way
to build evaluations.
-/
namespace SeedGrowth

variable {α α' β β' : Type} {said : Value → Prop} {first : Nat} {σ σ' τ τ' : Session}

/-- The registries are the same, but the second one may be traced where the first is not. -/
structure Registry.Louder (r r' : Registry) : Prop where
  capacity_eq : r'.capacity = r.capacity
  level_eq : r'.level = r.level
  names_eq : r'.names = r.names
  verbose : r.verbose = true → r'.verbose = true

/-- The sessions are the same, but for traces and which registries are traced. -/
structure Session.Louder (σ τ : Session) : Prop where
  size_eq : τ.registries.size = σ.registries.size
  registry : ∀ id, (σ.registry id).Louder (τ.registry id)
  current_eq : τ.current = σ.current
  frames_eq : τ.frames = σ.frames
  log_eq : τ.log = σ.log

/-- The second session is louder, and in the frames from some number on there are only matches
the values of which have been said. -/
structure Session.Echoes (said : Value → Prop) (first : Nat) (σ τ : Session) : Prop where
  louder : σ.Louder τ
  said : ∀ id, first ≤ id → ∀ m, (σ.frame id).best = some m → said m.value

theorem Registry.Louder.refl (r : Registry) : r.Louder r := ⟨rfl, rfl, rfl, id⟩

theorem Registry.Louder.withLevel {r r' : Registry} (h : r.Louder r') {level level' : Nat}
    (hlevel : level' = level) : Registry.Louder { r with level } { r' with level := level' } :=
  ⟨h.capacity_eq, hlevel, h.names_eq, h.verbose⟩

/-- Both registries give a name the same flag, or raise the same fault. -/
theorem Registry.Louder.get {r r' : Registry} (h : r.Louder r') (name : Value) :
    (∃ fault, r.get name = .error fault ∧ r'.get name = .error fault) ∨
      ∃ flag next next', r.get name = .ok (flag, next) ∧ r'.get name = .ok (flag, next') ∧
        next.Louder next' := by
  have hfind : r'.find? name = r.find? name := by rw [Registry.find?, h.names_eq, Registry.find?]
  have hsize : r'.size = r.size := by rw [Registry.size, h.names_eq, Registry.size]
  unfold Registry.get
  rw [hfind, hsize, h.capacity_eq, h.names_eq]
  by_cases hname : name.hashable = true
  · rw [if_pos hname, if_pos hname]
    cases r.find? name with
    | some flag => exact .inr ⟨flag, r, r', rfl, rfl, h⟩
    | none =>
      by_cases hlt : r.size < r.capacity.size
      · refine .inr ⟨r.size, _, _, if_pos hlt, if_pos hlt, ?_⟩
        exact ⟨rfl, h.level_eq, rfl, h.verbose⟩
      · exact .inl ⟨_, if_neg hlt, if_neg hlt⟩
  · exact .inl ⟨_, if_neg hname, if_neg hname⟩

namespace Session

namespace Louder

theorem frame_eq (h : σ.Louder τ) (id : FrameId) : τ.frame id = σ.frame id := by
  rw [frame, h.frames_eq, frame]

theorem modifyRegistry (h : σ.Louder τ) (id : RegistryId) {change change' : Registry → Registry}
    (hchange : (change (σ.registry id)).Louder (change' (τ.registry id))) :
    (σ.modifyRegistry id change).Louder (τ.modifyRegistry id change') := by
  refine ⟨?_, fun id' => ?_, h.current_eq, h.frames_eq, h.log_eq⟩
  · simp only [Session.modifyRegistry, Array.size_modify, h.size_eq]
  · rw [registry_modifyRegistry_eq, registry_modifyRegistry_eq, h.size_eq]
    by_cases hid : id' = id ∧ id < σ.registries.size
    · rw [if_pos hid, if_pos hid, hid.1]
      exact hchange
    · rw [if_neg hid, if_neg hid]
      exact h.registry id'

/-- Both sessions make the same registry the current one, or have it as that. -/
theorem currentRegistry (h : σ.Louder τ) : τ.currentRegistry.1 = σ.currentRegistry.1 ∧
    σ.currentRegistry.2.Louder τ.currentRegistry.2 := by
  unfold Session.currentRegistry
  rw [h.current_eq]
  cases σ.current with
  | some id => exact ⟨rfl, h⟩
  | none =>
    refine ⟨h.size_eq, by simp [addRegistry, h.size_eq], fun id => ?_, congrArg some h.size_eq,
      h.frames_eq, h.log_eq⟩
    change ((σ.addRegistry default).2.registry id).Louder ((τ.addRegistry default).2.registry id)
    rw [registry_addRegistry, registry_addRegistry, h.size_eq]
    by_cases hid : id = σ.registries.size
    · rw [if_pos hid, if_pos hid]
      exact .refl _
    · rw [if_neg hid, if_neg hid]
      exact h.registry id

end Louder

namespace Echoes

/-- Nothing but frames matters to what has been said. -/
theorem of_frames (h : σ.Echoes said first τ) (hlouder : σ'.Louder τ')
    (hframes : σ'.frames = σ.frames) : σ'.Echoes said first τ' := by
  refine ⟨hlouder, fun id hid m hm => h.said id hid m ?_⟩
  rwa [frame, hframes] at hm

theorem modifyRegistry (h : σ.Echoes said first τ) (id : RegistryId)
    {change change' : Registry → Registry}
    (hchange : (change (σ.registry id)).Louder (change' (τ.registry id))) :
    (σ.modifyRegistry id change).Echoes said first (τ.modifyRegistry id change') :=
  h.of_frames (h.louder.modifyRegistry id hchange) rfl

/-- The frames of both sessions may be changed alike, if what matches are in them then has
been said. -/
theorem withFrames (h : σ.Echoes said first τ) (change : Array Frame → Array Frame)
    (hsaid : ∀ id, first ≤ id → ∀ m,
      (Session.frame { σ with frames := change σ.frames } id).best = some m → said m.value) :
    Session.Echoes said first { σ with frames := change σ.frames }
      { τ with frames := change τ.frames } :=
  ⟨⟨h.louder.size_eq, h.louder.registry, h.louder.current_eq, congrArg change h.louder.frames_eq,
    h.louder.log_eq⟩, hsaid⟩

end Echoes

end Session

/-- Two evaluations end alike, or the second one stops at a value that has been said and
cannot be written. -/
inductive EndsEchoed (said : Value → Prop) (first : Nat) (related : α → β → Prop) :
    Except Stop α × Session → Except Stop β × Session → Prop where
  | answered {a b σ τ} : σ.Echoes said first τ → related a b →
      EndsEchoed said first related (.ok a, σ) (.ok b, τ)
  | stopped {stop σ τ} : σ.Louder τ →
      EndsEchoed said first related (.error stop, σ) (.error stop, τ)
  | silenced {result σ τ x} : said x → x.writable = false →
      EndsEchoed said first related (result, σ) (.error (.fault .unwritableInteger), τ)

/-- More may be taken to have been said. -/
theorem EndsEchoed.mono {said' : Value → Prop} {related : α → β → Prop}
    {x : Except Stop α × Session} {y : Except Stop β × Session}
    (h : EndsEchoed said first related x y) (hsaid : ∀ v, said v → said' v) :
    EndsEchoed said' first related x y := by
  cases h with
  | answered h hrelated => exact .answered ⟨h.louder, fun id hid m hm =>
      hsaid _ (h.said id hid m hm)⟩ hrelated
  | stopped h => exact .stopped h
  | silenced hx hwritable => exact .silenced (hsaid _ hx) hwritable

/-- An evaluation in one session is echoed by an evaluation in the other. -/
def Eval.Echoed (said : Value → Prop) (first : Nat) (σ τ : Session) (x : Eval α) (y : Eval β)
    (related : α → β → Prop) : Prop :=
  EndsEchoed said first related (x σ) (y τ)

namespace Eval.Echoed

variable {related : α → β → Prop} {related' : α' → β' → Prop}

theorem pure {a : α} {b : β} (h : σ.Echoes said first τ) (hrelated : related a b) :
    Echoed said first σ τ (Pure.pure a) (Pure.pure b) related := .answered h hrelated

theorem throw (h : σ.Echoes said first τ) (stop : Stop) :
    Echoed said first σ τ (MonadExcept.throw stop) (MonadExcept.throw stop) related :=
  .stopped h.louder

theorem bind {x : Eval α} {y : Eval β} {f : α → Eval α'} {f' : β → Eval β'}
    (hx : Echoed said first σ τ x y related)
    (hf : ∀ a b σ' τ', x σ = (.ok a, σ') → σ'.Echoes said first τ' → related a b →
      Echoed said first σ' τ' (f a) (f' b) related') :
    Echoed said first σ τ (x >>= f) (y >>= f') related' := by
  unfold Echoed at hx ⊢
  rw [Program.bind_apply, Program.bind_apply]
  generalize hxrun : x σ = runs at hx
  generalize y τ = runs' at hx
  cases hx with
  | answered h hrelated => exact hf _ _ _ _ hxrun h hrelated
  | stopped h => exact .stopped h
  | silenced hsaid hwritable => exact .silenced hsaid hwritable

theorem imp {x : Eval α} {y : Eval β} {wider : α → β → Prop}
    (hx : Echoed said first σ τ x y related) (himp : ∀ a b σ', x σ = (.ok a, σ') →
      related a b → wider a b) : Echoed said first σ τ x y wider := by
  unfold Echoed at hx ⊢
  generalize hxrun : x σ = runs at hx
  generalize y τ = runs' at hx
  cases hx with
  | answered h hrelated => exact .answered h (himp _ _ _ hxrun hrelated)
  | stopped h => exact .stopped h
  | silenced hsaid hwritable => exact .silenced hsaid hwritable

theorem lift (h : σ.Echoes said first τ) (x : Except Fault α) :
    Echoed said first σ τ (Eval.lift x) (Eval.lift x) (· = ·) := by
  unfold Echoed
  rw [lift_apply, lift_apply]
  cases x with
  | ok a => exact .answered h rfl
  | error fault => exact .stopped h.louder

theorem read (h : σ.Echoes said first τ) {f : Session → α} {f' : Session → β}
    (hrelated : related (f σ) (f' τ)) :
    Echoed said first σ τ (Eval.read f) (Eval.read f') related := .answered h hrelated

theorem deeper (h : σ.Echoes said first τ) {x : Eval α} {y : Eval β} {id : RegistryId}
    (hx : (σ.modifyRegistry id fun r => { r with level := r.level + 1 }).Echoes said first
        (τ.modifyRegistry id fun r => { r with level := r.level + 1 }) →
      Echoed said first (σ.modifyRegistry id fun r => { r with level := r.level + 1 })
        (τ.modifyRegistry id fun r => { r with level := r.level + 1 }) x y related) :
    Echoed said first σ τ (Eval.deeper id x) (Eval.deeper id y) related := by
  have hlevel := (h.louder.registry id).level_eq
  have hdown := hx (h.modifyRegistry id ((h.louder.registry id).withLevel
    (congrArg (· + 1) hlevel)))
  unfold Echoed at hdown ⊢
  unfold Eval.deeper
  generalize x (σ.modifyRegistry id fun r => { r with level := r.level + 1 }) = runs at hdown ⊢
  generalize y (τ.modifyRegistry id fun r => { r with level := r.level + 1 }) = runs' at hdown ⊢
  cases hdown with
  | answered h hrelated =>
    have hregistry := h.louder.registry id
    exact .answered (h.modifyRegistry id
      (hregistry.withLevel (congrArg (· - 1) hregistry.level_eq))) hrelated
  | stopped h =>
    have hregistry := h.registry id
    exact .stopped (h.modifyRegistry id
      (hregistry.withLevel (congrArg (· - 1) hregistry.level_eq)))
  | silenced hsaid hwritable => exact .silenced hsaid hwritable

theorem within (h : σ.Echoes said first τ) {x : Eval α} {y : Eval β} {id : RegistryId}
    (hx : Session.Echoes said first { σ with current := some id } { τ with current := some id } →
      Echoed said first { σ with current := some id } { τ with current := some id } x y related) :
    Echoed said first σ τ (Eval.within id x) (Eval.within id y) related := by
  have hback : ∀ {σ' τ' : Session}, σ'.Louder τ' →
      Session.Louder { σ' with current := σ.current } { τ' with current := τ.current } :=
    fun h' => ⟨h'.size_eq, h'.registry, h.louder.current_eq, h'.frames_eq, h'.log_eq⟩
  have hinner := hx ⟨⟨h.louder.size_eq, h.louder.registry, rfl, h.louder.frames_eq,
    h.louder.log_eq⟩, h.said⟩
  unfold Echoed at hinner ⊢
  unfold Eval.within
  generalize x { σ with current := some id } = runs at hinner ⊢
  generalize y { τ with current := some id } = runs' at hinner ⊢
  cases hinner with
  | answered h' hrelated => exact .answered ⟨hback h'.louder, h'.said⟩ hrelated
  | stopped h' => exact .stopped (hback h')
  | silenced hsaid hwritable => exact .silenced hsaid hwritable

/-- An event is traced in both sessions or in the louder one alone, and if there it cannot be
reported, that is for a value that it quotes. -/
theorem trace (h : σ.Echoes said first τ) {verbose loud : Bool}
    (hloud : verbose = true → loud = true) {event : TraceEvent}
    (hsaid : ∀ x ∈ event.values, said x) :
    Echoed said first σ τ (Eval.trace verbose event) (Eval.trace loud event) fun _ _ => True := by
  have hpushed : ∀ {trace trace' : Array TraceEvent}, Session.Echoes said first
      { σ with trace } { τ with trace := trace' } := fun {trace trace'} =>
    ⟨⟨h.louder.size_eq, h.louder.registry, h.louder.current_eq, h.louder.frames_eq,
      h.louder.log_eq⟩, h.said⟩
  unfold Echoed
  cases loud with
  | false =>
    cases verbose with
    | false => exact .answered h trivial
    | true => cases hloud rfl
  | true =>
    cases htext : event.text with
    | ok text =>
      have hrun : Eval.trace true event τ = (.ok (), { τ with trace := τ.trace.push event }) := by
        simp only [Eval.trace, htext]
        rfl
      rw [hrun]
      cases verbose with
      | false => exact .answered hpushed trivial
      | true =>
        have hquiet : Eval.trace true event σ =
            (.ok (), { σ with trace := σ.trace.push event }) := by
          simp only [Eval.trace, htext]
          rfl
        rw [hquiet]
        exact .answered hpushed trivial
    | error fault =>
      obtain ⟨x, hx, hwritable⟩ := TraceEvent.exists_of_text_error htext
      have hfault := TraceEvent.text_error htext
      have hrun : Eval.trace true event τ = (.error (.fault .unwritableInteger), τ) := by
        simp only [Eval.trace, htext, hfault]
        rfl
      rw [hrun]
      exact .silenced (hsaid x hx) hwritable

theorem registryOr (h : σ.Echoes said first τ) (bound : Option RegistryId) :
    Echoed said first σ τ (Eval.registryOr bound) (Eval.registryOr bound) (· = ·) := by
  cases bound with
  | some id => exact .answered h rfl
  | none =>
    obtain ⟨hid, hlouder⟩ := h.louder.currentRegistry
    have hframes : σ.currentRegistry.2.frames = σ.frames := by
      unfold Session.currentRegistry
      cases σ.current <;> rfl
    exact .answered (h.of_frames hlouder hframes) hid.symm

theorem flagOf (h : σ.Echoes said first τ) (id : RegistryId) (name : Value) :
    Echoed said first σ τ (Eval.flagOf id name) (Eval.flagOf id name) (· = ·) := by
  unfold Echoed
  rw [flagOf_apply, flagOf_apply]
  rcases (h.louder.registry id).get name with
    ⟨fault, hget, hget'⟩ | ⟨flag, next, next', hget, hget', hnext⟩
  · rw [hget, hget']
    exact .stopped h.louder
  · rw [hget, hget']
    exact .answered (h.modifyRegistry id hnext) rfl

end Eval.Echoed

end SeedGrowth
