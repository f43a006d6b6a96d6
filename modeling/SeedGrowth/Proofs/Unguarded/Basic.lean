import SeedGrowth.Proofs.LeftRecursion.Application

/-!
# Grammars with one rule unguarded

A rule of a grammar may be made a plain one, with the body that it has. The other rules, and
all that is asked of a grammar and the session that it lives in, stay as they are. Nothing
that does not ask for the rule is read otherwise.
-/
namespace SeedGrowth

variable {ρ κ : Type}

namespace Grammar

section

variable [DecidableEq ρ]

/-- The grammar with a rule that is not guarded any more. -/
def unguarded (g : Grammar ρ) (r : ρ) : Grammar ρ where
  rule r' := if r' = r then ⟨(g.rule r').body, none⟩ else g.rule r'
  names := g.names
  mem_names := g.mem_names

variable {g : Grammar ρ} {r r' : ρ} {guard : Guard} {home : RegistryId} {session : Session}

@[simp] theorem rule_unguarded_self :
    (g.unguarded r).rule r = ⟨(g.rule r).body, none⟩ := if_pos rfl

theorem rule_unguarded_of_ne (h : r' ≠ r) : (g.unguarded r).rule r' = g.rule r' := if_neg h

@[simp] theorem body_unguarded : ((g.unguarded r).rule r').body = (g.rule r').body := by
  rw [unguarded]
  dsimp only
  split <;> rfl

/-- Without its guard, a plain rule is what it is. -/
theorem unguarded_of_plain (h : (g.rule r).guard = none) : g.unguarded r = g := by
  have hrule : ∀ r', (g.unguarded r).rule r' = g.rule r' := by
    intro r'
    by_cases heq : r' = r
    · rw [heq, rule_unguarded_self, ← h]
    · exact rule_unguarded_of_ne heq
  obtain ⟨rule, names, mem_names⟩ := g
  exact congrArg (Grammar.mk · names mem_names) (funext hrule)

/-- The rules that stay guarded. -/
theorem guard_unguarded_eq_some :
    ((g.unguarded r).rule r').guard = some guard ↔ r' ≠ r ∧ (g.rule r').guard = some guard := by
  by_cases h : r' = r
  · rw [h, rule_unguarded_self]
    exact ⟨nofun, fun hguard => absurd rfl hguard.1⟩
  · rw [rule_unguarded_of_ne h]
    exact ⟨fun hguard => ⟨h, hguard⟩, And.right⟩

theorem namesakes_unguarded {r'' : ρ} :
    (g.unguarded r).Namesakes r' r'' ↔ r' ≠ r ∧ r'' ≠ r ∧ g.Namesakes r' r'' := by
  constructor
  · rintro ⟨guard, guard', hguard, hguard', halike⟩
    obtain ⟨hne, hguard⟩ := guard_unguarded_eq_some.1 hguard
    obtain ⟨hne', hguard'⟩ := guard_unguarded_eq_some.1 hguard'
    exact ⟨hne, hne', guard, guard', hguard, hguard', halike⟩
  · rintro ⟨hne, hne', guard, guard', hguard, hguard', halike⟩
    exact ⟨guard, guard', guard_unguarded_eq_some.2 ⟨hne, hguard⟩,
      guard_unguarded_eq_some.2 ⟨hne', hguard'⟩, halike⟩

theorem NamesApart.unguarded (h : g.NamesApart) (r : ρ) : (g.unguarded r).NamesApart :=
  fun hguard hguard' halike =>
    h (guard_unguarded_eq_some.1 hguard).2 (guard_unguarded_eq_some.1 hguard').2 halike

theorem HasRoom.unguarded {registry : Registry} (h : g.HasRoom registry) (r : ρ) :
    (g.unguarded r).HasRoom registry := by
  intro rules hnodup hnew
  refine h rules hnodup fun r' hr' => ?_
  obtain ⟨guard, hguard, hfind⟩ := hnew r' hr'
  exact ⟨guard, (guard_unguarded_eq_some.1 hguard).2, hfind⟩

theorem LivesIn.unguarded (h : g.LivesIn home session) (r : ρ) :
    (g.unguarded r).LivesIn home session where
  combinators r' := by
    rw [body_unguarded]
    exact h.combinators r'
  known hguard := h.known (guard_unguarded_eq_some.1 hguard).2
  hashable hguard := h.hashable (guard_unguarded_eq_some.1 hguard).2
  hosts hguard := h.hosts (guard_unguarded_eq_some.1 hguard).2
  room := h.room.unguarded r

/-- Rules of other names have the first of their names as before. -/
theorem namesake_unguarded (h : ¬ g.Shares r r') :
    (g.unguarded r).namesake r' = g.namesake r' := by
  have hne : r' ≠ r := fun heq => h (.inl heq)
  unfold namesake
  rw [rule_unguarded_of_ne hne]
  cases hguard : (g.rule r').guard with
  | none => rfl
  | some guard =>
    have hsame : ∀ r'', (((g.unguarded r).rule r'').guard.any (guard.name.alike ·.name)) =
        ((g.rule r'').guard.any (guard.name.alike ·.name)) := by
      intro r''
      by_cases heq : r'' = r
      · rw [heq, rule_unguarded_self]
        refine (Bool.eq_false_iff.2 fun hany => h (.inr ?_)).symm
        obtain ⟨guard', hguard', halike⟩ := (Option.any_eq_true _ _).1 hany
        exact ⟨guard', guard, hguard', hguard, Value.alike_symm halike⟩
      · rw [rule_unguarded_of_ne heq]
    change (g.names.find? _).getD r' = (g.names.find? _).getD r'
    rw [funext hsame]

end

variable [DecidableEq ρ] {g : Grammar ρ} {r : ρ} {home : RegistryId} {session : Session}
  {depth : Nat} {parser : Parser ρ} {p : Point}

/-- Without the rule a parser is read as before if it does not ask for it. -/
theorem read_unguarded (h : g.NamesKnown)
    (hasked : ∀ position, (g.namesake r, position) ∉ (g.read g.namesake depth parser p).asked) :
    (g.unguarded r).read (g.unguarded r).namesake depth parser p =
      g.read g.namesake depth parser p := by
  refine read_eq_of_rules (fun a => a.1 ≠ g.namesake r) ?_ ?_
  · intro r' _ hne
    have hshares : ¬ g.Shares r r' := by
      rintro (heq | hnamesakes)
      · exact hne (congrArg g.namesake heq)
      · have hr : (g.rule r).guard.isSome = true := by
          obtain ⟨guard, -, hguard, -⟩ := hnamesakes
          exact Option.isSome_iff_exists.2 ⟨guard, hguard⟩
        exact hne ((keysFit_namesake h hr r').2 hnamesakes).symm
    exact ⟨rule_unguarded_of_ne fun heq => hshares (.inl heq), namesake_unguarded hshares⟩
  · rintro ⟨k, position⟩ ha rfl
    exact hasked position ha

end Grammar

end SeedGrowth
