import SeedGrowth.Proofs.Visit.Continuation

/-!
# Levels along the course of an evaluation

Where all guarded rules use one registry, which is verbose, evaluations leave it at its level,
and the evaluations in a call are deeper than the call.
-/
namespace SeedGrowth

variable {ρ : Type} {g : Grammar ρ} {home : RegistryId} {level : ℕ} {σ σ' : Session}

open Session

/-- Guards use the registry, which is verbose and at the level. -/
structure Session.Watches (g : Grammar ρ) (home : RegistryId) (level : ℕ) (σ : Session) : Prop where
  hosts : σ.Hosts g home
  verbose : (σ.registry home).verbose = true
  level_eq : (σ.registry home).level = level

theorem Session.Uses.restored {guard : Guard} (h : σ.Uses home guard) (hr : σ.Restored σ') :
    σ'.Uses home guard := by
  unfold Session.Uses at h ⊢
  cases hbound : guard.registry with
  | some id =>
    rw [hbound] at h
    exact ⟨h.1, h.2.trans_le hr.size_le⟩
  | none =>
    rw [hbound] at h
    rcases hr.current with ⟨hcurrent, hsize⟩ | ⟨hnone, hcurrent, hsize⟩
    · rw [hcurrent, hsize]
      exact h
    · rw [hnone] at h
      rcases h with ⟨hsome, -⟩ | ⟨-, rfl⟩
      · cases hsome
      · exact .inl ⟨hcurrent, hsize ▸ Nat.lt_succ_self _⟩

namespace Session.Watches

theorem restored (h : σ.Watches g home level) (hr : σ.Restored σ') : σ'.Watches g home level where
  hosts := fun hguard => (h.hosts hguard).restored hr
  verbose := (hr.registry home).verbose.trans h.verbose
  level_eq := (hr.registry home).level.trans h.level_eq

theorem of_registries (h : σ.Watches g home level) (hr : σ'.registries = σ.registries)
    (hc : σ'.current = σ.current) : σ'.Watches g home level :=
  h.restored (.of_registries hr hc)

theorem of_sameStore (h : σ.Watches g home level) (hs : σ.SameStore σ') :
    σ'.Watches g home level :=
  h.of_registries hs.registries hs.current

/-- A registry that is verbose is there. -/
theorem lt_size (h : σ.Watches g home level) : home < σ.registries.size := by
  by_contra hle
  have hverbose := h.verbose
  rw [registry, Array.getD_eq_getD_getElem?,
    Array.getElem?_eq_none (Nat.le_of_not_lt hle)] at hverbose
  cases hverbose

theorem relevel (h : σ.Watches g home level) {id : RegistryId} (hid : id = home)
    (change : ℕ → ℕ) :
    (σ.modifyRegistry id fun r => { r with level := change r.level }).Watches g home
      (change level) := by
  subst hid
  have hregistry := registry_modifyRegistry σ h.lt_size fun r => { r with level := change r.level }
  refine ⟨fun hguard => (h.hosts hguard).modifyRegistry _ _, ?_, ?_⟩
  · rw [hregistry]
    exact h.verbose
  · rw [hregistry]
    exact congrArg change h.level_eq

/-- A call finds the registry, at its level. -/
theorem arrive (h : σ.Watches g home level) {r : ρ} {guard : Guard} {s : Cursor}
    {arrival : Arrival} (hr : (g.rule r).guard = some guard)
    (harrive : arrive guard.name guard.registry s σ = (.ok arrival, σ')) :
    σ'.Watches g home level ∧ arrival.registry = home ∧ arrival.level = level ∧
      arrival.verbose = true := by
  have hrestored := g.respects_restored.arrive hr s σ
  rw [harrive] at hrestored
  have hwatches : σ'.Watches g home level := h.restored hrestored
  obtain ⟨hlevel, hverbose⟩ := registry_of_arrive harrive
  have hhome : arrival.registry = home := by
    obtain ⟨σ₀, hregistry, -⟩ := Eval.registryOr_spec (h.hosts hr)
    rw [arrive_apply, Program.bind_ok hregistry] at harrive
    obtain ⟨flag, σ₂, hflag, harrive⟩ := Program.exists_of_bind harrive
    obtain ⟨f, σ₃, hf, harrive⟩ := Program.exists_of_bind harrive
    obtain ⟨registry, σ₄, hread, harrive⟩ := Program.exists_of_bind harrive
    obtain ⟨active, σ₅, hactive, harrive⟩ := Program.exists_of_bind harrive
    cases harrive
    rfl
  rw [hhome] at hlevel hverbose
  exact ⟨hwatches, hhome, hlevel.trans hwatches.level_eq, hverbose.trans hwatches.verbose⟩

theorem answer (h : σ.Watches g home level) {arrival : Arrival} {result : Option Match}
    (hanswer : arrival.answer σ = (.ok result, σ')) : σ'.Watches g home level := by
  rcases Arrival.eq_of_answer hanswer with ⟨-, -, rfl⟩ | ⟨id, -, -, rfl⟩
  · exact h
  · have hmarked : (σ.marked id).Watches g home level := h.of_registries rfl rfl
    exact hmarked.of_sameStore (sameStore_recorded ..)

theorem begun (h : σ.Watches g home level) (arrival : Arrival) (s : Cursor) :
    (arrival.begun s σ).Watches g home level := by
  have hpushed : Watches g home level
      { σ with frames := σ.frames.push (.begin arrival.name arrival.flag arrival.position) } :=
    h.of_registries rfl rfl
  exact hpushed.of_sameStore (sameStore_recorded ..)

end Session.Watches

/-- Rounds leave the registry at its level if the evaluations of the body do. -/
theorem Call.Passes.watches {call : Call} {body : Eval (Option Match)} {rounds : List Round}
    {result : Option Match} (h : call.Passes body σ rounds result σ')
    (hround : ∀ round ∈ rounds,
      round.first.Watches g home level → round.last.Watches g home level)
    (hσ : σ.Watches g home level) :
    σ'.Watches g home level ∧ ∀ round ∈ rounds, round.first.Watches g home level :=
  h.keeps (fun _ _ hτ => hτ.of_sameStore (sameStore_recorded ..)) hround
    (fun _ _ _ _ _ hτ _ _ => hτ.of_registries rfl rfl) hσ

namespace Grammar.Course

variable {v w : Visit ρ} {result : Option Match}

/-- Evaluations leave the registry at its level, and lead to others that are as deep or deeper. -/
theorem watches_and_leads (h : g.Course v result σ) (hv : v.session.Watches g home level) :
    σ.Watches g home level ∧ ∀ u, g.Leads v u → ∃ l, u.session.Watches g home l := by
  induction h generalizing level with
  | still _ halone _ => exact ⟨hv, fun u hu => absurd hu (halone u)⟩
  | once _ hleads _ hsession _ _ ih =>
    rw [← hsession] at hv
    exact ⟨(ih hv).1, fun u hu => (hleads u).1 hu ▸ ⟨level, hv⟩⟩
  | twice _ hleads _ hsession _ _ hsession' _ _ ih ih' =>
    rw [← hsession] at hv
    have hv' := (ih hv).1
    rw [← hsession'] at hv'
    refine ⟨(ih' hv').1, fun u hu => ?_⟩
    rcases (hleads u).1 hu with rfl | rfl
    · exact ⟨level, hv⟩
    · exact ⟨level, hv'⟩
  | answered hr harrive hactive hanswer =>
    refine ⟨(hv.arrive hr harrive).1.answer hanswer, fun u hu => ?_⟩
    obtain ⟨hidle, -⟩ := hu.of_guarded hr harrive
    rw [hactive] at hidle
    cases hidle
  | @evaluated depth r s σ guard arrival σ₁ call s' σ₂ rounds best σ₃ result σ₄ hr harrive hidle
      hbegin hpasses hcourses hfinish ih =>
    obtain ⟨hσ₁, hhome, -⟩ := hv.arrive hr harrive
    have hregistry : call.registry = home := by
      obtain ⟨rfl, -⟩ := Arrival.eq_of_begin hbegin
      exact hhome
    obtain ⟨-, rfl⟩ := Arrival.eq_of_begin hbegin
    obtain ⟨rfl, -⟩ := Call.eq_of_finish hfinish
    have hdeeper := (hσ₁.begun arrival s).relevel hregistry (· + 1)
    obtain ⟨hσ₃, hfirsts⟩ :=
      hpasses.watches (fun round hmem hfirst => (ih round hmem hfirst).1) hdeeper
    refine ⟨(hσ₃.relevel hregistry (· - 1)).of_sameStore (sameStore_recorded ..), fun u hu => ?_⟩
    obtain ⟨round, hmem, rfl⟩ := hpasses.exists_round hr harrive hbegin hu
    exact ⟨level + 1, hfirsts round hmem⟩

/-- All that an evaluation comes to begins with the registry verbose. -/
theorem reached_watches (h : g.Course v result σ) (hv : v.session.Watches g home level)
    (hr : Relation.ReflTransGen g.Leads v w) : ∃ l, w.session.Watches g home l := by
  induction hr with
  | refl => exact ⟨level, hv⟩
  | tail hr hl ih =>
    obtain ⟨l, hw⟩ := ih
    obtain ⟨last, τ, hcourse, -⟩ := h.reached hr
    exact (hcourse.watches_and_leads hw).2 _ hl

end Grammar.Course

end SeedGrowth
