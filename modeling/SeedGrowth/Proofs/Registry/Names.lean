import SeedGrowth.Proofs.Grammar.Combinators
import SeedGrowth.Proofs.Value.Alike

/-!
# The names of a registry

A registry only ever grows at the end of its names, so a name keeps its flag. Two
names with one flag are alike. A registry has room for the guarded rules of a grammar
if all of them that are not named yet fit into what is left, however many of them are
going to be called.
-/
namespace SeedGrowth

namespace Registry

/-- A registry has been given further names. -/
structure Grown (r r' : Registry) : Prop where
  capacity : r'.capacity = r.capacity
  verbose : r'.verbose = r.verbose
  names : r.names <+: r'.names

theorem Grown.refl (r : Registry) : r.Grown r := ⟨rfl, rfl, List.prefix_rfl⟩

/-- A name keeps its flag. -/
theorem Grown.find? {r r' : Registry} (h : r.Grown r') {name : Value} {flag : Nat}
    (hf : r.find? name = some flag) : r'.find? name = some flag := by
  obtain ⟨names, hn⟩ := h.names
  simp only [Registry.find?] at hf ⊢
  rw [← hn, List.findIdx?_append, hf, Option.some_or]

theorem find?_lt {r : Registry} {name : Value} {flag : Nat} (h : r.find? name = some flag) :
    flag < r.size := by
  obtain ⟨hlt, -⟩ := List.findIdx?_eq_some_iff_getElem.1 h
  exact hlt

/-- Names with one flag are alike. -/
theorem alike_of_find? {r : Registry} {name name' : Value} {flag : Nat}
    (h : r.find? name = some flag) (h' : r.find? name' = some flag) : name.alike name' = true := by
  obtain ⟨hl, ha, -⟩ := List.findIdx?_eq_some_iff_getElem.1 h
  obtain ⟨hl', ha', -⟩ := List.findIdx?_eq_some_iff_getElem.1 h'
  exact Value.alike_trans ha (Value.alike_symm ha')

theorem find?_eq_of_alike {name name' : Value} (h : name.alike name' = true) (r : Registry) :
    r.find? name = r.find? name' := by
  rw [Registry.find?, Registry.find?, Value.alike_eq_of_alike h]

theorem find?_append_self {r : Registry} {name : Value} (ha : name.alike name = true)
    (h : r.find? name = none) :
    ({ r with names := r.names ++ [name] } : Registry).find? name = some r.size := by
  simp only [Registry.find?] at h ⊢
  simp [List.findIdx?_append, h, ha, List.findIdx?_cons, size]

/-- The answers of a registry: the flag that the name has from then on. -/
theorem get_eq_ok {r r' : Registry} {name : Value} {flag : Nat} (ha : name.alike name = true)
    (h : r.get name = .ok (flag, r')) : r.Grown r' ∧ r'.find? name = some flag := by
  unfold get at h
  split at h
  · split at h
    · next hf =>
      cases h
      exact ⟨.refl r, hf⟩
    · next hf =>
      split at h
      · cases h
        exact ⟨⟨rfl, rfl, List.prefix_append ..⟩, find?_append_self ha hf⟩
      · cases h
  · cases h

end Registry

namespace Grammar

variable {ρ : Type} (g : Grammar ρ)

/-- Guarded rules have names that are not alike. -/
def NamesApart : Prop :=
  ∀ {r r' : ρ} {guard guard' : Guard}, (g.rule r).guard = some guard →
    (g.rule r').guard = some guard' → guard.name.alike guard'.name = true → r = r'

/-- The names of guarded rules are recognised when they are seen again. -/
def NamesKnown : Prop :=
  ∀ {r : ρ} {guard : Guard}, (g.rule r).guard = some guard → guard.name.alike guard.name = true

/-- The rules are guarded by one name. -/
def Namesakes (r r' : ρ) : Prop :=
  ∃ guard guard', (g.rule r).guard = some guard ∧ (g.rule r').guard = some guard' ∧
    guard.name.alike guard'.name = true

/-- Guarded rules have the keys of their namesakes, and of no other rules. -/
def KeysFit {κ : Type} (key : ρ → κ) : Prop :=
  ∀ {r : ρ}, (g.rule r).guard.isSome = true → ∀ r', key r = key r' ↔ g.Namesakes r r'

/-- The first rule that is guarded by the name of a rule. -/
def namesake (r : ρ) : ρ :=
  match (g.rule r).guard with
  | none => r
  | some guard =>
    (g.names.find? fun r' => (g.rule r').guard.any (guard.name.alike ·.name)).getD r

/-- The names of guarded rules can be looked up. -/
def NamesHashable : Prop :=
  ∀ {r : ρ} {guard : Guard}, (g.rule r).guard = some guard → guard.name.hashable = true

/-- The rule is guarded by a name that the registry does not have. -/
def IsNew (registry : Registry) (r : ρ) : Prop :=
  ∃ guard, (g.rule r).guard = some guard ∧ registry.find? guard.name = none

/-- The registry has room for the guarded rules of the grammar. -/
def HasRoom (registry : Registry) : Prop :=
  ∀ rules : List ρ, rules.Nodup → (∀ r ∈ rules, g.IsNew registry r) →
    registry.size + rules.length ≤ registry.capacity.size

variable {g}

/-- Rules that are told apart by their names are keys of themselves. -/
theorem keysFit_id (ha : g.NamesApart) (hk : g.NamesKnown) : g.KeysFit id := by
  intro r hr r'
  obtain ⟨guard, hguard⟩ := Option.isSome_iff_exists.1 hr
  constructor
  · intro heq
    cases heq
    exact ⟨guard, guard, hguard, hguard, hk hguard⟩
  · intro h
    obtain ⟨guard, guard', hguard, hguard', halike⟩ := h
    exact ha hguard hguard' halike

/-- Rules that are told apart by their names have themselves among other keys. -/
theorem keysFit_some (ha : g.NamesApart) (hk : g.NamesKnown) :
    g.KeysFit (some : ρ → Option ρ) := by
  intro r hr r'
  rw [Option.some_inj]
  exact keysFit_id ha hk hr r'

/-- The first rule of a name bears it. -/
theorem namesakes_namesake (hk : g.NamesKnown) {r : ρ} (hr : (g.rule r).guard.isSome = true) :
    g.Namesakes r (g.namesake r) := by
  obtain ⟨guard, hguard⟩ := Option.isSome_iff_exists.1 hr
  unfold namesake
  rw [hguard]
  dsimp only
  cases hfind : g.names.find? fun r' =>
      (g.rule r').guard.any fun guard' => guard.name.alike guard'.name with
  | none => exact ⟨guard, guard, hguard, hguard, hk hguard⟩
  | some r' =>
    have hfound := List.find?_some hfind
    obtain ⟨guard', hguard', halike⟩ := (Option.any_eq_true _ _).1 hfound
    exact ⟨guard, guard', hguard, hguard', halike⟩

theorem Namesakes.symm {r r' : ρ} (h : g.Namesakes r r') : g.Namesakes r' r := by
  obtain ⟨guard, guard', hguard, hguard', halike⟩ := h
  exact ⟨guard', guard, hguard', hguard, Value.alike_symm halike⟩

theorem Namesakes.trans {r r' r'' : ρ} (h : g.Namesakes r r') (h' : g.Namesakes r' r'') :
    g.Namesakes r r'' := by
  obtain ⟨guard, guard', hguard, hguard', halike⟩ := h
  obtain ⟨guard₁, guard'', hguard₁, hguard'', halike'⟩ := h'
  rw [hguard'] at hguard₁
  cases hguard₁
  exact ⟨guard, guard'', hguard, hguard'', Value.alike_trans halike halike'⟩

/-- Whatever the names are, the first rules that bear them are fit as keys. -/
theorem keysFit_namesake (hk : g.NamesKnown) : g.KeysFit g.namesake := by
  intro r hr r'
  have hself := namesakes_namesake hk hr
  constructor
  · intro heq
    rw [heq] at hself
    cases hguard' : (g.rule r').guard with
    | none =>
      have hplain : g.namesake r' = r' := by
        unfold namesake
        rw [hguard']
      obtain ⟨-, guard'', -, hguard'', -⟩ := hself
      rw [hplain, hguard'] at hguard''
      cases hguard''
    | some guard' =>
      have hr' : (g.rule r').guard.isSome = true := by
        rw [hguard']
        rfl
      exact hself.trans (namesakes_namesake hk hr').symm
  · intro h
    obtain ⟨guard, guard', hguard, hguard', halike⟩ := h
    unfold namesake
    rw [hguard, hguard']
    dsimp only
    rw [Value.alike_eq_of_alike halike]
    cases hfind : g.names.find? fun r' =>
        (g.rule r').guard.any fun guard => guard'.name.alike guard.name with
    | some first => rfl
    | none =>
      have hnot := List.find?_eq_none.1 hfind r' (g.mem_names r')
      rw [hguard'] at hnot
      exact absurd (hk hguard') hnot

theorem HasRoom.size_le {registry : Registry} (h : g.HasRoom registry) :
    registry.size ≤ registry.capacity.size := h [] List.nodup_nil (by simp)

/-- There is room if there is for a name of every rule. -/
theorem hasRoom_of_le {registry : Registry}
    (h : registry.size + g.names.length ≤ registry.capacity.size) : g.HasRoom registry := by
  intro rules hnodup _
  have hle := g.length_le_names hnodup
  omega

/-- There is room for the name of a guarded rule. -/
theorem HasRoom.get_ok {registry : Registry} (h : g.HasRoom registry) (hh : g.NamesHashable)
    {r : ρ} {guard : Guard} (hr : (g.rule r).guard = some guard) :
    ∃ flag registry', registry.get guard.name = .ok (flag, registry') := by
  cases hf : registry.find? guard.name with
  | some flag => exact ⟨flag, registry, Registry.get_of_find? (hh hr) hf⟩
  | none =>
    have hroom := h [r] (List.nodup_singleton r) (by simpa using ⟨guard, hr, hf⟩)
    have hlt : registry.size < registry.capacity.size := hroom
    refine ⟨registry.size, { registry with names := registry.names ++ [guard.name] }, ?_⟩
    simp [Registry.get, hh hr, hf, hlt]

/-- Naming a guarded rule leaves room for the others. -/
theorem HasRoom.of_get {registry registry' : Registry} (h : g.HasRoom registry)
    (hk : g.NamesKnown) {r : ρ} {guard : Guard} (hr : (g.rule r).guard = some guard) {flag : Nat}
    (hget : registry.get guard.name = .ok (flag, registry')) : g.HasRoom registry' := by
  obtain ⟨hgrown, hfound⟩ := Registry.get_eq_ok (hk hr) hget
  cases hf : registry.find? guard.name with
  | some old =>
    have heq : registry' = registry := by
      simp only [Registry.get, hf] at hget
      split at hget <;> cases hget
      rfl
    exact heq ▸ h
  | none =>
    have heq : registry' = { registry with names := registry.names ++ [guard.name] } := by
      simp only [Registry.get, hf] at hget
      split at hget <;> [split at hget; skip] <;> cases hget
      rfl
    subst heq
    intro rules hnodup hnew
    have hmem : r ∉ rules := fun hmem => by
      obtain ⟨guard', hr', hnone⟩ := hnew r hmem
      rw [hr] at hr'
      cases hr'
      rw [hfound] at hnone
      cases hnone
    have hnew' : ∀ r' ∈ r :: rules, g.IsNew registry r' := by
      intro r' hr'
      rcases List.mem_cons.1 hr' with rfl | hr'
      · exact ⟨guard, hr, hf⟩
      · obtain ⟨guard', hguard', hnone⟩ := hnew r' hr'
        refine ⟨guard', hguard', ?_⟩
        cases hold : registry.find? guard'.name with
        | none => rfl
        | some flag => rw [hgrown.find? hold] at hnone; cases hnone
    have hle := h (r :: rules) (hnodup.cons hmem) hnew'
    simp only [List.length_cons, Registry.size, List.length_append, List.length_nil] at hle ⊢
    omega

/-- Room does not depend on the level. -/
theorem HasRoom.level {registry : Registry} (h : g.HasRoom registry) (level : Nat) :
    g.HasRoom { registry with level } := h

end Grammar

end SeedGrowth
