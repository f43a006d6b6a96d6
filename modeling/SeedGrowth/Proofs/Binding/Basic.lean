import SeedGrowth.Proofs.Cursor.Evaluation
import SeedGrowth.Proofs.Scope.Guarded

/-!
# Guards that use several registries

The guards of a grammar need not use one registry. Each registry serves the guards that use
it, and what is known of a session with one registry holds of each of them with the rules it
serves. The flags of open calls say what they should as long as a call that finds its flag set
is inside a call of the same rule.
-/
namespace SeedGrowth

variable {ρ : Type}

namespace Grammar

/-- The grammar with all its guards bound alike. -/
def boundTo (g : Grammar ρ) (bound : Option RegistryId) : Grammar ρ where
  rule r := ⟨(g.rule r).body, (g.rule r).guard.map fun guard => ⟨guard.name, bound⟩⟩
  names := g.names
  mem_names := g.mem_names

/-- The grammar with those guards only that use a registry. -/
def servedBy (g : Grammar ρ) (home : ρ → RegistryId) (id : RegistryId) : Grammar ρ where
  rule r := ⟨(g.rule r).body, if home r = id then (g.rule r).guard else none⟩
  names := g.names
  mem_names := g.mem_names

variable {g : Grammar ρ} {home : ρ → RegistryId} {id : RegistryId} {r : ρ} {guard : Guard}

theorem guard_of_servedBy (h : ((g.servedBy home id).rule r).guard = some guard) :
    (g.rule r).guard = some guard := by
  simp only [servedBy] at h
  split at h
  · exact h
  · cases h

theorem guard_servedBy (h : (g.rule r).guard = some guard) :
    ((g.servedBy home (home r)).rule r).guard = some guard :=
  (if_pos rfl).trans h

theorem boundTo_namesApart (h : g.NamesApart) (bound : Option RegistryId) :
    (g.boundTo bound).NamesApart := by
  intro r r' guard guard' hr hr' halike
  obtain ⟨_, hguard, rfl⟩ := Option.map_eq_some_iff.1 hr
  obtain ⟨_, hguard', rfl⟩ := Option.map_eq_some_iff.1 hr'
  exact h hguard hguard' halike

theorem boundTo_namesKnown (h : g.NamesKnown) (bound : Option RegistryId) :
    (g.boundTo bound).NamesKnown := by
  intro r guard hr
  obtain ⟨guard', hguard, rfl⟩ := Option.map_eq_some_iff.1 hr
  have hknown : guard'.name.alike guard'.name = true := h hguard
  exact hknown

theorem boundTo_namesHashable (h : g.NamesHashable) (bound : Option RegistryId) :
    (g.boundTo bound).NamesHashable := by
  intro r guard hr
  obtain ⟨guard', hguard, rfl⟩ := Option.map_eq_some_iff.1 hr
  have hhashable : guard'.name.hashable = true := h hguard
  exact hhashable

end Grammar

/-- What the cursors and sessions of an evaluation have in common in which each guard uses a
registry of its own. -/
structure Bindings (ρ : Type) where
  setting : Setting ρ
  /-- The registry that the guard of a rule uses. -/
  home : ρ → RegistryId
  apart : setting.grammar.NamesApart
  hashable : setting.grammar.NamesHashable
  /-- One of the registries is traced. -/
  traced : Prop

/-- The setting with one registry and the guards that it serves. -/
def Bindings.at (B : Bindings ρ) (id : RegistryId) : Setting ρ :=
  { B.setting with
    grammar := B.setting.grammar.servedBy B.home id
    combinators := B.setting.combinators
    known := fun h => B.setting.known (Grammar.guard_of_servedBy h)
    home := id
    hashable := fun _ _ _ h => B.hashable (Grammar.guard_of_servedBy h) }

variable {B : Bindings ρ} {calls : List (OpenCall ρ)} {σ σ' σ'' : Session} {s : Cursor}

/-- What a cursor shows does not depend on which guards there are. -/
theorem Cursor.shows_at {id : RegistryId} :
    s.Shows (B.at id) calls ↔ s.Shows B.setting calls :=
  ⟨fun h => ⟨h.behind, h.lit_iff, h.frameAt_eq, h.tidy, h.width_eq, h.remaining_le, h.total_eq⟩,
    fun h => ⟨h.behind, h.lit_iff, h.frameAt_eq, h.tidy, h.width_eq, h.remaining_le, h.total_eq⟩⟩

/-- The session agrees with the open calls, which are guarded: their seats are taken, and the
registries have room for the guards that use them. -/
structure Session.Agrees (B : Bindings ρ) (calls : List (OpenCall ρ)) (σ : Session) : Prop where
  hosts : ∀ {r guard}, (B.setting.grammar.rule r).guard = some guard → σ.Uses (B.home r) guard
  wide : ∀ {r guard}, (B.setting.grammar.rule r).guard = some guard →
    ∃ width, B.setting.width = some width ∧ (σ.registry (B.home r)).capacity.size ≤ width
  traced : ∀ {r guard}, (B.setting.grammar.rule r).guard = some guard →
    (σ.registry (B.home r)).verbose = true → B.traced
  room : ∀ id, (B.at id).grammar.HasRoom (σ.registry id)
  guarded : ∀ c ∈ calls, c.seat.isSome = true
  seated : ∀ c ∈ calls, ∀ i id, c.seat = some (i, id) → c.Seated (B.at (B.home c.rule)) σ i id

/-- A later session, which has the same frames below a number, up to marks. -/
structure Bindings.Kept (B : Bindings ρ) (older : Nat) (calls : List (OpenCall ρ))
    (σ σ' : Session) : Prop where
  size_le : σ.frames.size ≤ σ'.frames.size
  frame_eq : ∀ id < older, σ.KeepsFrame σ' id
  agrees : σ'.Agrees B calls

/-- The frames of open calls are marked that were before, or the calls of which were asked
for. -/
def Session.Marks (calls : List (OpenCall ρ)) (σ σ' : Session) (asked : List (ρ × Nat)) : Prop :=
  ∀ c ∈ calls, ∀ i id, c.seat = some (i, id) → ((σ'.frame id).reentered = true ↔
    (σ.frame id).reentered = true ∨ (c.rule, c.position) ∈ asked)

namespace Session.Marks

variable {asked asked' : List (ρ × Nat)}

/-- A step that marks no frame of an open call. -/
theorem of_frames (h : ∀ c ∈ calls, ∀ i id, c.seat = some (i, id) →
    (σ'.frame id).reentered = (σ.frame id).reentered) : Marks calls σ σ' [] := by
  intro c hc i id hseat
  rw [h c hc i id hseat]
  simp

theorem of_same (h : σ'.frames = σ.frames) : Marks calls σ σ' [] :=
  of_frames fun _ _ _ id _ => congrArg Frame.reentered (frame_of_frames h id)

theorem trans (h : Marks calls σ σ' asked) (h' : Marks calls σ' σ'' asked') :
    Marks calls σ σ'' (asked ++ asked') := by
  intro c hc i id hseat
  rw [h' c hc i id hseat, h c hc i id hseat, List.mem_append, or_assoc]

theorem of_cons {c : OpenCall ρ} (h : Marks (c :: calls) σ σ' asked) : Marks calls σ σ' asked :=
  fun d hd => h d (List.mem_cons_of_mem c hd)

end Session.Marks

namespace Session.Agrees

/-- An agreement lasts as registries and frames do. -/
theorem later (h : σ.Agrees B calls) (hl : ∀ id, σ.Later (B.at id) σ')
    (hs : σ.frames.size ≤ σ'.frames.size)
    (hf : ∀ c ∈ calls, ∀ i id, c.seat = some (i, id) → σ.KeepsFrame σ' id) :
    σ'.Agrees B calls where
  hosts {r _} hr := (hl (B.home r)).uses _ (h.hosts hr)
  wide {r _} hr := by
    have hcapacity : (σ'.registry (B.home r)).capacity = (σ.registry (B.home r)).capacity :=
      (hl (B.home r)).grown.capacity
    rw [hcapacity]
    exact h.wide hr
  traced {r _} hr hv := by
    have hverbose : (σ'.registry (B.home r)).verbose = (σ.registry (B.home r)).verbose :=
      (hl (B.home r)).grown.verbose
    exact h.traced hr (hverbose ▸ hv)
  room id := (hl id).room (h.room id)
  guarded := h.guarded
  seated c hc i id hseat := (h.seated c hc i id hseat).later (hl _) hs (hf c hc i id hseat)

theorem of_cons {c : OpenCall ρ} (h : σ.Agrees B (c :: calls)) : σ.Agrees B calls where
  hosts := h.hosts
  wide := h.wide
  traced := h.traced
  room := h.room
  guarded d hd := h.guarded d (List.mem_cons_of_mem c hd)
  seated d hd := h.seated d (List.mem_cons_of_mem c hd)

/-- A call that has taken a seat is open besides the others. -/
theorem cons {r : ρ} {position i : Nat} {id : FrameId} (h : σ.Agrees B calls)
    (hc : OpenCall.Seated (B.at (B.home r)) σ ⟨r, position, some (i, id)⟩ i id) :
    σ.Agrees B (⟨r, position, some (i, id)⟩ :: calls) where
  hosts := h.hosts
  wide := h.wide
  traced := h.traced
  room := h.room
  guarded d hd := by
    rcases List.mem_cons.1 hd with rfl | hd
    · rfl
    · exact h.guarded d hd
  seated d hd i' id' hseat := by
    rcases List.mem_cons.1 hd with rfl | hd
    · cases hseat
      exact hc
    · exact h.seated d hd i' id' hseat

end Session.Agrees

namespace Bindings.Kept

variable {older : Nat}

theorem refl (older : Nat) (h : σ.Agrees B calls) : B.Kept older calls σ σ :=
  ⟨le_rfl, fun _ _ => rfl, h⟩

theorem trans (h : B.Kept older calls σ σ') (h' : B.Kept older calls σ' σ'') :
    B.Kept older calls σ σ'' :=
  ⟨h.size_le.trans h'.size_le, fun id hid => (h.frame_eq id hid).trans (h'.frame_eq id hid),
    h'.agrees⟩

theorem weaken {older' : Nat} (h : B.Kept older calls σ σ') (hle : older' ≤ older) :
    B.Kept older' calls σ σ' :=
  ⟨h.size_le, fun id hid => h.frame_eq id (hid.trans_le hle), h.agrees⟩

/-- A later session with the same frames. -/
theorem of_same (older : Nat) (h : σ.Agrees B calls) (hl : ∀ id, σ.Later (B.at id) σ')
    (hframes : σ'.frames = σ.frames) : B.Kept older calls σ σ' := by
  have hkeeps : ∀ id, σ.KeepsFrame σ' id := .of_frames hframes
  have hsize : σ.frames.size ≤ σ'.frames.size := hframes ▸ le_rfl
  exact ⟨hsize, fun id _ => hkeeps id, h.later hl hsize fun _ _ _ id _ => hkeeps id⟩

/-- The frames of open calls are kept if all frames there are, are. -/
theorem keepsFrame (h : B.Kept σ.frames.size calls σ σ') (hσ : σ.Agrees B calls)
    {c : OpenCall ρ} (hc : c ∈ calls) {i : Nat} {id : FrameId} (hseat : c.seat = some (i, id)) :
    σ.KeepsFrame σ' id :=
  h.frame_eq id (hσ.seated c hc i id hseat).lt_size

/-- The scope still holds the open calls. -/
theorem covers (h : B.Kept σ.frames.size calls σ σ') (hσ : σ.Agrees B calls) {scope : Scope ρ}
    (hscope : scope.Covers id ⟨σ, calls, []⟩) : scope.Covers id ⟨σ', calls, []⟩ :=
  hscope.congr rfl fun _ hc _ _ hseat => (h.keepsFrame hσ hc hseat).best_eq

end Bindings.Kept

/-- Finding the registry of a guard, which may be a new one, leaves the others to their
guards. -/
theorem Eval.uses_of_registryOr {bound : Option RegistryId} {home : RegistryId}
    (h : Eval.registryOr bound σ = (.ok home, σ')) :
    (∀ id guard, σ.Uses id guard → σ'.Uses id guard) ∧
      ∀ id, σ'.registry id = σ.registry id := by
  cases bound with
  | some id =>
    cases h
    exact ⟨fun _ _ h => h, fun _ => rfl⟩
  | none =>
    have heq : Eval.registryOr none σ = (.ok σ.currentRegistry.1, σ.currentRegistry.2) := rfl
    rw [heq] at h
    cases hcurrent : σ.current with
    | some id =>
      simp only [Session.currentRegistry, hcurrent] at h
      cases h
      exact ⟨fun _ _ h => h, fun _ => rfl⟩
    | none =>
      simp only [Session.currentRegistry, hcurrent] at h
      cases h
      refine ⟨fun id guard huses => ?_, fun id => ?_⟩
      · unfold Session.Uses at huses ⊢
        have hlt : ∀ id, id ≤ σ.registries.size → id < (σ.registries.push default).size := by
          intro id hle
          rw [Array.size_push]
          exact Nat.lt_succ_of_le hle
        cases hguard : guard.registry with
        | some bound =>
          rw [hguard] at huses
          exact ⟨huses.1, hlt _ huses.2.le⟩
        | none =>
          rw [hguard, hcurrent] at huses
          rcases huses with ⟨hsome, -⟩ | ⟨-, rfl⟩
          · cases hsome
          · exact .inl ⟨rfl, hlt _ le_rfl⟩
      · have hadded := σ.registry_addRegistry default id
        split at hadded
        · next hid =>
          have hdefault : σ.registry id = default := by
            subst hid
            rw [Session.registry, Array.getD_eq_getD_getElem?, Array.getElem?_eq_none le_rfl]
            rfl
          exact hadded.trans hdefault.symm
        · exact hadded

/-- A call that arrives may name its rule in the registry that it uses, and changes nothing
about the others. -/
theorem uses_of_arrive {guard : Guard} {home : RegistryId} (hu : σ.Uses home guard)
    {arrival : Arrival} (h : arrive guard.name guard.registry s σ = (.ok arrival, σ')) :
    (∀ id guard', σ.Uses id guard' → σ'.Uses id guard') ∧
      ∀ id, id ≠ home → σ'.registry id = σ.registry id := by
  obtain ⟨σ₀, hregistry, -⟩ := Eval.registryOr_spec hu
  rw [arrive_apply] at h
  obtain ⟨id, σ₁, hid, h⟩ := Program.exists_of_bind h
  obtain ⟨flag, σ₂, hflag, h⟩ := Program.exists_of_bind h
  obtain ⟨f, σ₃, hf, h⟩ := Program.exists_of_bind h
  obtain ⟨registry, σ₄, hread, h⟩ := Program.exists_of_bind h
  obtain ⟨active, σ₅, hactive, h⟩ := Program.exists_of_bind h
  cases h
  cases hread
  obtain ⟨-, rfl⟩ := Eval.eq_of_lift hf
  obtain ⟨-, rfl⟩ := Eval.eq_of_lift hactive
  obtain ⟨huses, hsame⟩ := Eval.uses_of_registryOr hid
  rw [hregistry] at hid
  cases hid
  rw [Eval.flagOf_apply] at hflag
  cases hget : (σ₀.registry home).get guard.name with
  | error fault =>
    rw [hget] at hflag
    cases hflag
  | ok answer =>
    rw [hget] at hflag
    cases hflag
    refine ⟨fun id guard' hguard' => (huses id guard' hguard').modifyRegistry _ _, fun id hid => ?_⟩
    rw [Session.registry_modifyRegistry_eq, if_neg fun h => hid h.1, hsame]

/-- A guarded call arrives where the cursor has the flags of its registry, and what it finds
is said by the cursor. -/
theorem Session.Agrees.arrive (h : σ.Agrees B calls) {r : ρ} {guard : Guard}
    (hr : (B.setting.grammar.rule r).guard = some guard) (hw : s.width = B.setting.width) :
    ∃ arrival σ', arrive guard.name guard.registry s σ = (.ok arrival, σ') ∧
      σ'.frames = σ.frames ∧ (∀ id, σ.Later (B.at id) σ') ∧
      arrival.Faces (B.home r) (σ'.registry (B.home r)) guard.name s := by
  have huses := h.hosts hr
  have hserved : ((B.at (B.home r)).grammar.rule r).guard = some guard :=
    Grammar.guard_servedBy hr
  have hknown : (B.at (B.home r)).grammar.NamesKnown := (B.at (B.home r)).known
  obtain ⟨result, σ', harrive, hframes, -, hresult⟩ := arrive_spec huses (B.setting.known hr) s
  rcases hresult with ⟨fault, hget, -⟩ | ⟨flag, hget, hresult⟩
  · obtain ⟨flag, registry, hok⟩ := (h.room (B.home r)).get_ok
      (fun hguard => B.hashable (Grammar.guard_of_servedBy hguard)) hserved
    rw [hok] at hget
    cases hget
  obtain ⟨hgrown, hfound⟩ := Registry.get_eq_ok (B.setting.known hr) hget
  have hroom := (h.room (B.home r)).of_get hknown hserved hget
  obtain ⟨width, hwidth, hcapacity⟩ := h.wide hr
  rcases hresult with ⟨arrival, rfl, hfaces⟩ | ⟨hnone, -⟩ | ⟨f, fault, hf, hle, -⟩
  · obtain ⟨hallUse, hothers⟩ := uses_of_arrive huses harrive
    refine ⟨arrival, σ', harrive, hframes, fun id => ?_, hfaces⟩
    by_cases hid : id = B.home r
    · subst hid
      exact ⟨hallUse _, hgrown, fun _ => hroom⟩
    · have hsame := hothers id hid
      exact ⟨hallUse _, (hsame ▸ .refl _ : (σ.registry id).Grown (σ'.registry id)),
        fun hroom => (hsame ▸ hroom : (B.at id).grammar.HasRoom (σ'.registry id))⟩
  · rw [hw, hwidth] at hnone
    cases hnone
  · -- The flags of the cursor are no fewer than those that the registry gives to names.
    have hlt := Registry.find?_lt hfound
    have hsize := hroom.size_le
    rw [hgrown.capacity] at hsize
    have hcursor : some f.capacity = some width := by
      rw [← hwidth, ← hw, Cursor.width, hf, Option.map_some]
    cases hcursor
    omega

end SeedGrowth
