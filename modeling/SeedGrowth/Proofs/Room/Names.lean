import SeedGrowth.Proofs.Registry.History
import SeedGrowth.Proofs.Restoration.Basic
import SeedGrowth.Proofs.Room.Evaluation

/-!
# Room for the names of a grammar

Laws that levels do not matter to hold between a visit and the visits it leads to. So the registry
stays current, and whatever looking up names of the grammar sustains stays true of it: what
capacity it has, and that there is room for all names of guarded rules which it does not have.
With room for these no call finds it full.
-/
namespace SeedGrowth

variable {ρ : Type} {g : Grammar ρ} {law : Session → Session → Prop}

/-! ### Laws of visits -/

/-- The rounds of a call follow one another as the law says. -/
theorem Session.IsLaw.evaluates (h : Session.IsLaw law) {call : Call}
    (ht : Session.LetsTrace law call.verbose) {body : Eval (Option Match)}
    (hbody : body.Obeys law) {round : Nat} {σ σ' : Session} (he : call.Evaluates body σ round σ') :
    law σ σ' := by
  induction he with
  | first => exact h.untouched rfl rfl rfl (.refl _)
  | @again round σ₁ σ₂ σ₃ σ₄ result frame m _ hrun _ hreview _ hadopt ih =>
    have h₂ := hbody.of_eq hrun
    have h₃ := (h.review ht (round + 1) result).of_eq hreview
    have h₄ := (h.adopt call m).of_eq hadopt
    exact h.trans (h.trans (h.trans ih h₂) h₃) h₄

namespace Grammar.Respects

theorem visit (h : g.Respects law) {depth : Nat} {parser : Parser ρ} {s : Cursor} {σ σ' : Session}
    {result : Except Stop (Option Match)}
    (hv : Visit.eval g ⟨depth, parser, s, σ⟩ = (result, σ')) : law σ σ' :=
  (h.eval_obeys depth parser s).of_eq hv

/-- A law that a deeper level does not matter to holds from a visit to those it leads to. -/
theorem leads (h : g.Respects law)
    (hdeeper : ∀ σ id, law σ (σ.modifyRegistry id fun r => { r with level := r.level + 1 }))
    {v v' : Visit ρ} (hl : g.Leads v v') : law v.session v'.session := by
  cases hl with
  | branch | item | mapped | opt | many => exact h.untouched rfl rfl rfl (.refl _)
  | plain _ => exact h.untouched rfl rfl rfl (.refl _)
  | otherwise hv | after hv | further hv _ => exact h.visit hv
  | @guarded depth r s σ guard arrival σ₁ call s' σ₂ round σ₃ hr harrive _ hbegin he =>
    have h₁ := (h.arrive hr s).of_eq harrive
    rcases h.traces hr harrive with ht | hany
    · have h₂ := (h.toIsLaw.begin ht s).of_eq hbegin
      have hbody := h.eval_obeys depth (g.rule r).body s'
      have h₃ := h.toIsLaw.evaluates (Arrival.verbose_of_begin hbegin ▸ ht) hbody he
      exact h.trans (h.trans h₁ h₂) (h.trans (hdeeper σ₂ call.registry) h₃)
    · exact h.trans h₁ (hany _)

end Grammar.Respects

/-! ### The current registry -/

/-- The registry is there and current, and it is as is said. -/
structure Session.Holds (home : RegistryId) (fine : Registry → Prop) (σ : Session) : Prop where
  current : σ.current = some home
  home_lt : home < σ.registries.size
  fine : fine (σ.registry home)

/-- What is said of a registry stays true when names of guarded rules are looked up, and levels do
not matter to it. -/
structure Grammar.Sustains (g : Grammar ρ) (fine : Registry → Prop) : Prop where
  level : ∀ {registry : Registry} (level : Nat), fine registry → fine { registry with level }
  named : ∀ {r : ρ} {guard : Guard}, (g.rule r).guard = some guard →
    ∀ {registry registry' : Registry} {flag : Nat}, fine registry →
      registry.get guard.name = .ok (flag, registry') → fine registry'

namespace Session.Holds

variable {home : RegistryId} {fine : Registry → Prop} {σ : Session}

theorem of_registries {σ' : Session} (h : σ.Holds home fine)
    (hr : σ'.registries = σ.registries) (hc : σ'.current = σ.current) : σ'.Holds home fine := by
  have hregistry : σ'.registry home = σ.registry home := by
    rw [Session.registry, hr, Session.registry]
  exact ⟨hc.trans h.current, hr ▸ h.home_lt, hregistry ▸ h.fine⟩

theorem modifyRegistry (h : σ.Holds home fine) (id : RegistryId) {change : Registry → Registry}
    (hchange : id = home → fine (change (σ.registry home))) :
    (σ.modifyRegistry id change).Holds home fine := by
  refine ⟨h.current, h.home_lt.trans_eq Array.size_modify.symm, ?_⟩
  rw [registry_modifyRegistry_eq]
  split
  · next hid => exact hchange hid.1.symm
  · exact h.fine

theorem level (h : σ.Holds home fine) (hg : g.Sustains fine) (id : RegistryId)
    (change : Nat → Nat) :
    (σ.modifyRegistry id fun r => { r with level := change r.level }).Holds home fine :=
  h.modifyRegistry id fun _ => hg.level _ h.fine

end Session.Holds

namespace Grammar.Sustains

variable {home : RegistryId} {fine : Registry → Prop}

/-- Guarded calls that use the current registry keep it current and as is said. -/
theorem respects (hg : g.Sustains fine) (hu : g.Unbound) (home : RegistryId) :
    g.Respects fun σ σ' => σ.Holds home fine → σ'.Holds home fine where
  untouched hr hc _ _ h := h.of_registries hr hc
  traces := fun _ _ _ _ _ _ =>
    .inl (Session.letsTrace_of_registries (fun hr hc h => h.of_registries hr hc) _)
  trans := fun h h' hσ => h' (h hσ)
  arrives := by
    intro r guard hr σ σ' id hrun
    rw [hu hr] at hrun
    refine ⟨fun h => ?_, fun h => ?_⟩
    · rw [Eval.registryOr_of_current h.current] at hrun
      cases hrun
      exact h
    · -- What was current then is the registry that was found.
      have hid : id = home := by
        have hcurrent : σ'.current = some id := by
          cases hrun
          exact Session.current_currentRegistry σ
        exact Option.some.inj (hcurrent.symm.trans h.current)
      subst hid
      rw [Eval.flagOf_apply]
      cases hget : (σ'.registry id).get guard.name with
      | error fault => exact h
      | ok answer => exact h.modifyRegistry id fun _ => hg.named hr h.fine hget
  deeper := by
    intro σ σ' id hinner h
    exact (hinner (h.level hg id (· + 1))).level hg id (· - 1)

theorem holds_of_reached (hg : g.Sustains fine) (hu : g.Unbound) {v v' : Visit ρ}
    (h : v.session.Holds home fine) (hr : Relation.ReflTransGen g.Leads v v') :
    v'.session.Holds home fine := by
  induction hr with
  | refl => exact h
  | tail _ hl ih =>
    exact (hg.respects hu home).leads (fun σ id hσ => hσ.level hg id (· + 1)) hl ih

end Grammar.Sustains

namespace Grammar

theorem sustains_capacity (g : Grammar ρ) (capacity : Capacity) :
    g.Sustains fun registry => registry.capacity = capacity where
  level _ h := h
  named := by
    intro r guard _ registry registry' flag h hget
    have hanswers := registry.get_answers guard.name
    rw [hget] at hanswers
    cases hanswers with
    | known _ _ => exact h
    | added _ _ _ => exact h

theorem sustains_size_le (g : Grammar ρ) :
    g.Sustains fun registry => registry.size ≤ registry.capacity.size where
  level _ h := h
  named := by
    intro r guard _ registry registry' flag h hget
    have hanswers := registry.get_answers guard.name
    rw [hget] at hanswers
    cases hanswers with
    | known _ _ => exact h
    | added _ _ hlt =>
      rw [Registry.size, List.length_append]
      exact hlt

/-! ### Room for names -/

/-- The registry has room for the names of the guarded rules: as many of those as it does not
have, no two of them alike, fit in. -/
def NamesFit (g : Grammar ρ) (registry : Registry) : Prop :=
  ∀ names : List Value, names.Pairwise (fun name name' => name.alike name' = false) →
    (∀ name ∈ names, registry.find? name = none ∧
      ∃ r guard, (g.rule r).guard = some guard ∧ guard.name = name) →
    registry.size + names.length ≤ registry.capacity.size

/-- There is room if there is for a name of every rule. -/
theorem namesFit_of_le (hk : g.NamesKnown) {registry : Registry}
    (h : registry.size + g.names.length ≤ registry.capacity.size) : g.NamesFit registry := by
  intro names hapart hnames
  let key (r : ρ) : Option Value := (g.rule r).guard.map (·.name)
  have hkeys : ∀ k ∈ names.map some, ∃ r, key r = k := by
    intro k hk
    obtain ⟨name, hname, rfl⟩ := List.mem_map.1 hk
    obtain ⟨-, r, guard, hr, rfl⟩ := hnames name hname
    exact ⟨r, by simp only [key, hr, Option.map_some]⟩
  have hnodup : (names.map some).Nodup := by
    refine List.Nodup.map (Option.some_injective _)
      (hapart.imp_of_mem fun {name name'} hname _ => ?_)
    rintro hunlike rfl
    obtain ⟨-, r, guard, hr, rfl⟩ := hnames name hname
    rw [hk hr] at hunlike
    cases hunlike
  have hle := g.length_le_of_keys hnodup hkeys
  rw [List.length_map] at hle
  omega

theorem sustains_namesFit (g : Grammar ρ) : g.Sustains g.NamesFit where
  level _ h := h
  named := by
    intro r guard hr registry registry' flag h hget
    have hanswers := registry.get_answers guard.name
    rw [hget] at hanswers
    cases hanswers with
    | known _ _ => exact h
    | added _ hnew _ =>
      intro names hapart hnames
      -- The name that was added is one of those that there was room for.
      have hmore := h (guard.name :: names) ?_ ?_
      · simp only [Registry.size, List.length_append, List.length_cons, List.length_nil] at hmore ⊢
        omega
      · refine List.pairwise_cons.2 ⟨fun name hname => ?_, hapart⟩
        obtain ⟨hnone, -⟩ := hnames name hname
        have hunlike := Registry.find?_eq_none.1 hnone guard.name (by simp)
        rw [Bool.eq_false_iff] at hunlike ⊢
        exact fun halike => hunlike (Value.alike_symm halike)
      · intro name hname
        rcases List.mem_cons.1 hname with rfl | hname
        · exact ⟨hnew, r, guard, hr, rfl⟩
        · obtain ⟨hnone, hrule⟩ := hnames name hname
          refine ⟨Registry.find?_eq_none.2 fun key hkey => ?_, hrule⟩
          exact Registry.find?_eq_none.1 hnone key (List.mem_append_left _ hkey)

/-- Where there is room for the names, no call finds the registry full. -/
theorem NamesFit.not_overflows {home : RegistryId} {v : Visit ρ} {name : Value}
    (h : g.NamesFit (v.session.registry home)) : ¬ g.Overflows home v name := by
  intro hoverflows
  cases hoverflows with
  | called hr _ hnew hfull =>
    have hroom := h [_] (List.pairwise_singleton _ _) fun name hname => by
      rcases List.mem_singleton.1 hname with rfl
      exact ⟨hnew, _, _, hr, rfl⟩
    exact absurd (Nat.le_trans hroom hfull) (Nat.not_succ_le_self _)

end Grammar

end SeedGrowth
