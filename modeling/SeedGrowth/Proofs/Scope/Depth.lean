import SeedGrowth.Proofs.Grammar.Combinators
import SeedGrowth.Proofs.Scope.Extension

/-!
# How deep scopes are nested

An evaluation by scopes that ends with whatever depth also ends with a depth that depends
on the number of rules and the length of the text alone. For a call that needs a depth
makes a call that needs one less, and so on; where such calls are at one position, the
guarded ones come into scope, and the plain ones between them are different, since a call
in one scope at one point cannot need two depths.
-/
namespace SeedGrowth

open Account (ExtendedBy)

variable {ρ κ : Type} [DecidableEq κ] {key : ρ → κ} {g : Grammar ρ}

namespace Grammar

/-- The call ends with the next depth, and not before. -/
structure Needs (key : ρ → κ) (g : Grammar ρ) (depth : Nat) (scope : Scope κ) (r : ρ) (s : Point) :
    Prop where
  ends : (g.readCall key (depth + 1) scope r s).Ends
  not_ends : ¬ (g.readCall key depth scope r s).Ends

/-- A call that ends with some depth ends in the same way with a greater one. -/
theorem readCall_eq_of_le {depth depth' : Nat} {scope : Scope κ} {r : ρ} {s : Point}
    (ha : scope.Advancing) (h : (g.readCall key depth scope r s).Ends) (hle : depth ≤ depth') :
    g.readCall key depth' scope r s = g.readCall key depth scope r s := by
  have hextended : ExtendedBy (fun _ => True) (g.readCall key depth scope r s)
      (g.readCall key depth' scope r s) (FoundAhead s) :=
    g.readCall_extended key hle (.refl scope) ha r s
  exact (hextended h fun _ _ => trivial).1

theorem Needs.le_of_ends {depth depth' : Nat} {scope : Scope κ} {r : ρ} {s : Point}
    (h : g.Needs key depth scope r s) (ha : scope.Advancing)
    (hends : (g.readCall key depth' scope r s).Ends) : depth < depth' := by
  by_contra hlt
  have heq := readCall_eq_of_le ha hends (Nat.le_of_not_lt hlt)
  exact h.not_ends (heq ▸ hends)

/-- A call that ends needs a depth. -/
theorem exists_needs {depth : Nat} {scope : Scope κ} {r : ρ} {s : Point}
    (h : (g.readCall key depth scope r s).Ends) : ∃ needed, g.Needs key needed scope r s := by
  induction depth with
  | zero => exact absurd rfl h
  | succ depth ih =>
    by_cases hends : (g.readCall key depth scope r s).Ends
    · exact ih hends
    · exact ⟨depth, h, hends⟩

theorem readCall_movedTo (depth : Nat) (scope : Scope κ) (r : ρ) (s : Point) :
    g.readCall key depth (scope.movedTo s.remaining) r s = g.readCall key depth scope r s := by
  cases depth with
  | zero => rfl
  | succ depth =>
    rw [readCall, readCall, readRule, readRule, Scope.movedTo_movedTo]

theorem Needs.movedTo {depth : Nat} {scope : Scope κ} {r : ρ} {s : Point}
    (h : g.Needs key depth scope r s) : g.Needs key depth (scope.movedTo s.remaining) r s := by
  refine ⟨?_, ?_⟩
  · rw [readCall_movedTo]
    exact h.ends
  · rw [readCall_movedTo]
    exact h.not_ends

/-- A call that needs a depth makes one that needs one less: in its own scope if its rule
is plain, else with its rule in scope. -/
theorem Needs.exists_inner {depth : Nat} {scope : Scope κ} {r : ρ} {s : Point}
    (h : g.Needs key (depth + 1) scope r s) (ha : scope.Advancing)
    (hp : scope.position = s.remaining) :
    ∃ r' s', s'.Ahead s ∧
      ((g.rule r).guard = none ∧ g.Needs key depth scope r' s' ∨
        scope.best (key r) = none ∧ ∃ best, (scope.add (key r) best).Advancing ∧
          g.Needs key depth (scope.add (key r) best) r' s') := by
  by_contra hnone
  have hall : ∀ r' s', s'.Ahead s → ¬ ((g.rule r).guard = none ∧ g.Needs key depth scope r' s' ∨
      scope.best (key r) = none ∧ ∃ best, (scope.add (key r) best).Advancing ∧
        g.Needs key depth (scope.add (key r) best) r' s') :=
    fun r' s' hs' hneeds => hnone ⟨r', s', hs', hneeds⟩
  -- If every call that ends did so with one less, this call would as well.
  have hless : ∀ (scope' : Scope κ) (r' : ρ) (s' : Point), scope'.Advancing →
      ¬ g.Needs key depth scope' r' s' →
      ExtendedBy (fun _ => True) (g.readCall key (depth + 1) scope' r' s')
        (g.readCall key depth scope' r' s') (FoundAhead s') := by
    intro scope' r' s' ha' hneeds hends hallowed
    have hends' : (g.readCall key depth scope' r' s').Ends := by
      by_contra hnot
      exact hneeds ⟨hends, hnot⟩
    have hahead := (g.readCall_extended key le_rfl (.refl scope') ha' r' s' hends hallowed).2
    exact ⟨(readCall_eq_of_le ha' hends' (Nat.le_succ depth)).symm, hahead⟩
  have hmoved : scope.movedTo s.remaining = scope := Scope.movedTo_self hp
  have hextended : ExtendedBy (fun _ => True)
      (g.readRule key (g.readCall key (depth + 1)) scope r s)
      (g.readRule key (g.readCall key depth) scope r s) (FoundAhead s) := by
    refine g.readRule_extended key (.refl scope) ha ?_ ?_
    · intro hplain r' s' hs'
      rw [hmoved]
      refine hless scope r' s' ha fun hneeds => ?_
      exact hall r' s' hs' (.inl ⟨hplain, hneeds⟩)
    · intro _ hbest best hb r' s' hs'
      rw [hmoved] at hbest ⊢
      have ha' : (scope.add (key r) best).Advancing := ha.add (key r) (hp ▸ hb)
      refine hless _ r' s' ha' fun hneeds => ?_
      exact hall r' s' hs' (.inr ⟨hbest, best, ha', hneeds⟩)
  have heq : g.readCall key (depth + 1) scope r s = g.readCall key (depth + 1 + 1) scope r s :=
    (hextended h.ends fun _ _ => trivial).1
  exact h.not_ends (heq ▸ h.ends)

/-- The depth that a call needs, counted together with the guarded rules in scope and the
plain rules that were called since the last of them. -/
theorem Needs.count_lt {depth : Nat} {scope : Scope κ} {r : ρ} {s : Point}
    (h : g.Needs key depth scope r s) (ha : scope.Advancing) (hp : scope.position = s.remaining)
    {guards : List κ} {chain : List ρ} (hguards : guards.Nodup)
    (hscope : ∀ k ∈ guards, (scope.best k).isSome = true) (hkeys : ∀ k ∈ guards, ∃ r, key r = k)
    (hchain : chain.Nodup)
    (hneeds : ∀ r ∈ chain, ¬ (g.readCall key (depth + 1) scope r s).Ends) :
    depth + guards.length * (g.names.length + 1) + chain.length < g.callBound s.remaining := by
  induction depth generalizing scope r s guards chain with
  | zero =>
    have hshare := g.share_lt (g.length_le_of_keys hguards hkeys) (g.length_le_names hchain)
    have hle : (g.names.length + 1) * (g.names.length + 1) ≤ g.callBound s.remaining :=
      Nat.le_mul_of_pos_left _ (Nat.succ_pos _)
    omega
  | succ depth ih =>
    obtain ⟨r', s', hs', hinner⟩ := h.exists_inner ha hp
    rcases hs' with rfl | hfurther
    · rcases hinner with ⟨-, hinner⟩ | ⟨hnew, best, ha', hinner⟩
      · -- The rules of the chain need more than the rule, and this more than the next one.
        have hmem : r ∉ chain := fun hr => hneeds r hr h.ends
        have hcons : (r :: chain).Nodup := hchain.cons hmem
        have hlt := ih hinner ha hp hguards hscope hkeys hcons ?_
        · rw [List.length_cons] at hlt
          omega
        · intro r₁ hr₁ hends
          rcases List.mem_cons.1 hr₁ with rfl | hr₁
          · exact h.not_ends hends
          · have heq := readCall_eq_of_le ha hends (Nat.le_succ (depth + 1))
            exact hneeds r₁ hr₁ (heq ▸ hends)
      · have hmem : key r ∉ guards := by
          intro hr
          have hsome := hscope (key r) hr
          rw [hnew] at hsome
          cases hsome
        have hcons : (key r :: guards).Nodup := hguards.cons hmem
        have hkeys' : ∀ k ∈ key r :: guards, ∃ r, key r = k := by
          intro k hk
          rcases List.mem_cons.1 hk with rfl | hk
          · exact ⟨r, rfl⟩
          · exact hkeys k hk
        have hlt := ih hinner ha' hp hcons ?_ hkeys' List.nodup_nil (by simp)
        · have hlength := g.length_le_names hchain
          rw [List.length_cons, List.length_nil, Nat.add_mul] at hlt
          omega
        · intro k hk
          rw [Scope.add]
          dsimp only
          split
          · rfl
          · next hne => exact hscope k (List.mem_of_ne_of_mem hne hk)
    · -- Further on the count begins anew, and there is less text left.
      have hfresh : ∀ scope' : Scope κ, scope'.Advancing → g.Needs key depth scope' r' s' →
          depth < g.callBound s'.remaining := by
        intro scope' ha' hneeds'
        have hlt := ih hneeds'.movedTo (ha'.movedTo _) (scope'.position_movedTo _)
          List.nodup_nil (by simp) (by simp) List.nodup_nil (by simp)
        simpa using hlt
      have hdepth : depth < g.callBound s'.remaining := by
        rcases hinner with ⟨-, hinner⟩ | ⟨-, best, ha', hinner⟩
        · exact hfresh scope ha hinner
        · exact hfresh _ ha' hinner
      have hmono : g.callBound s'.remaining + (g.names.length + 1) * (g.names.length + 1) ≤
          g.callBound s.remaining := by
        rw [callBound, callBound, ← Nat.succ_mul]
        exact Nat.mul_le_mul_right _ (by omega)
      have hshare := g.share_lt (g.length_le_of_keys hguards hkeys) (g.length_le_names hchain)
      omega

/-- A call that ends with some depth ends in the same way with every depth from the bound on. -/
theorem readCall_eq_of_ends {depth depth' : Nat} {scope : Scope κ} {r : ρ} {s : Point}
    (ha : scope.Advancing) (h : (g.readCall key depth scope r s).Ends)
    (hle : g.callBound s.remaining ≤ depth') :
    g.readCall key depth' scope r s = g.readCall key depth scope r s := by
  obtain ⟨needed, hneeds⟩ := exists_needs h
  have hneeded := hneeds.le_of_ends ha h
  have hcount : needed < g.callBound s.remaining := by
    simpa using hneeds.movedTo.count_lt (ha.movedTo _) (scope.position_movedTo _)
      List.nodup_nil (by simp) (by simp) List.nodup_nil (by simp)
  have hbound : needed + 1 ≤ depth' := by omega
  rw [readCall_eq_of_le ha hneeds.ends hbound, readCall_eq_of_le ha hneeds.ends hneeded]

/-- An evaluation that ends with some depth ends in the same way with the depth that an
application allows for. -/
theorem read_eq_of_ends {depth depth' : Nat} {parser : Parser ρ} {s : Point}
    (h : (g.read key depth parser s).Ends) (hle : g.callBound s.remaining ≤ depth') :
    g.read key depth' parser s = g.read key depth parser s := by
  have hcalls : ∀ r s', s'.Ahead s → ExtendedBy (fun _ => True)
      (g.readCall key depth (.empty s.remaining) r s')
      (g.readCall key depth' (.empty s.remaining) r s')
      (FoundAhead s') := by
    intro r s' hs' hends hallowed
    have ha : (Scope.empty s.remaining : Scope κ).Advancing := Scope.advancing_empty _
    refine ⟨readCall_eq_of_ends ha hends ((g.callBound_le hs'.le).trans hle), ?_⟩
    exact (g.readCall_extended key le_rfl (.refl _) ha r s' hends hallowed).2
  exact (Parser.read_extended hcalls parser s (.refl s) h fun _ _ => trivial).1

end Grammar

end SeedGrowth
