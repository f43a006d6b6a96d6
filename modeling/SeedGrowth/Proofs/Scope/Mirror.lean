import SeedGrowth.Proofs.Run.Yields
import SeedGrowth.Proofs.Scope.Extension

/-!
# Runs and accounts

A part of a run mirrors an account if it comes out the same, unless it is hindered, and if
the frames that it marks are those of the open calls that the account asked for. One rule
for each way to build programs, and how scopes go along with the open calls of a run.
-/
namespace SeedGrowth

variable {ρ κ α α' β β' : Type} {key : ρ → κ}

/-- The point where a cursor stands. -/
def Cursor.point (s : Cursor) : Point := ⟨s.fragment, s.place⟩

/-- A match without what its cursor takes along. -/
def Match.found (m : Match) : Found := ⟨m.rest.point, m.value⟩

/-- The result is a fault that does not come from the parsers of the grammar. -/
def Setting.Hindered (S : Setting ρ) (result : Except Stop α) : Prop :=
  ∃ fault, result = .error (.fault fault) ∧ S.Hinders fault

/-- A rule was called with that much text left. -/
def Run.HasCalled (run : Run ρ) (r : ρ) (position : Nat) : Prop :=
  ∃ m ∈ run.moments, ∃ s, m.happening = .handed (.ref r) s ∧ s.remaining = position

/-- A rule was called with that much text left, inside these calls. -/
def CalledInside (calls : List (OpenCall ρ)) (moments : List (Moment ρ)) (r : ρ) (position : Nat) :
    Prop :=
  ∃ m ∈ moments, (∃ s, m.happening = .handed (.ref r) s ∧ s.remaining = position) ∧
    calls <:+ m.calls

theorem CalledInside.later {calls : List (OpenCall ρ)} {moments moments' : List (Moment ρ)} {r : ρ}
    {position : Nat} (h : CalledInside calls moments r position) (hm : moments <:+ moments') :
    CalledInside calls moments' r position := by
  obtain ⟨m, hmem, hm'⟩ := h
  exact ⟨m, hm.subset hmem, hm'⟩

/-- What an account that asks for something inside open calls tells of the history of the run:
of a call of the rule where that is asked for by its key. -/
structure Told (key : ρ → κ) where
  tells : List (OpenCall ρ) → List (Moment ρ) → κ → Nat → Prop
  later : ∀ {calls moments moments' k position}, moments <:+ moments' →
    tells calls moments k position → tells calls moments' k position
  outward : ∀ {c calls moments k position}, tells (c :: calls) moments k position →
    tells calls moments k position
  called : ∀ {calls moments r position}, CalledInside calls moments r position →
    tells calls moments (key r) position

/-- Nothing else than calls is told of. -/
def Told.calls (key : ρ → κ) : Told key where
  tells calls moments k position := ∃ r, key r = k ∧ CalledInside calls moments r position
  later hm h := by
    obtain ⟨r, hr, hcalled⟩ := h
    exact ⟨r, hr, hcalled.later hm⟩
  outward h := by
    obtain ⟨r, hr, m, hm, hhanded, hinside⟩ := h
    exact ⟨r, hr, m, hm, hhanded, (List.suffix_cons _ _).trans hinside⟩
  called h := ⟨_, rfl, h⟩

variable {told : Told key}

/-- The history of the later run tells of what was asked for, and the frames of the open calls
that were asked for are marked. -/
structure Run.Records (told : Told key) (run run' : Run ρ) (asked : List (κ × Nat)) : Prop where
  marks : ∀ c ∈ run.calls, ∀ i id, c.seat = some (i, id) →
    ((run'.session.frame id).reentered = true ↔
      (run.session.frame id).reentered = true ∨ (key c.rule, c.position) ∈ asked)
  tells : ∀ k position, (k, position) ∈ asked → told.tells run.calls run'.moments k position
  suffix : run.moments <:+ run'.moments

namespace Run.Records

variable {run run' run'' : Run ρ} {asked asked' : List (κ × Nat)}

/-- A step that marks no frame of an open call. -/
theorem of_frames {σ : Session} (h : ∀ c ∈ run.calls, ∀ i id, c.seat = some (i, id) →
    (σ.frame id).reentered = (run.session.frame id).reentered) :
    run.Records told { run with session := σ } [] := by
  refine ⟨fun c hc i id hseat => ?_, fun k position hmem => ?_, List.suffix_rfl⟩
  · rw [h c hc i id hseat]
    simp
  · cases hmem

theorem of_same {σ : Session} (h : σ.frames = run.session.frames) :
    run.Records told { run with session := σ } [] :=
  of_frames fun _ _ _ id _ => congrArg Frame.reentered (Session.frame_of_frames h id)

theorem refl (run : Run ρ) : run.Records told run [] := of_same rfl

theorem trans (h : run.Records told run' asked) (h' : run'.Records told run'' asked')
    (hcalls : run'.calls = run.calls) : run.Records told run'' (asked ++ asked') := by
  refine ⟨fun c hc i id hseat => ?_, fun k position hmem => ?_, h.suffix.trans h'.suffix⟩
  · rw [h'.marks c (hcalls ▸ hc) i id hseat, h.marks c hc i id hseat, List.mem_append, or_assoc]
  · rcases List.mem_append.1 hmem with hmem | hmem
    · exact told.later h'.suffix (h.tells k position hmem)
    · exact hcalls ▸ h'.tells k position hmem

/-- What was asked for was called. -/
theorem called {run run' : Run ρ} {asked : List (κ × Nat)}
    (h : run.Records (Told.calls key) run' asked) (k : κ) (position : Nat)
    (hmem : (k, position) ∈ asked) : ∃ r, key r = k ∧ run'.HasCalled r position := by
  obtain ⟨r, hr, m, hm, ⟨s, hhanded⟩, -⟩ := h.tells k position hmem
  exact ⟨r, hr, m, hm, s, hhanded⟩

end Run.Records

/-- The program comes out as the account says, or it is hindered. -/
def Mirrors (told : Told key) (S : Setting ρ) (run : Run ρ) (x : Followed ρ α)
    (account : Account κ β) (view : α → β) : Prop :=
  ∃ result run', x run = (result, run') ∧ (S.Hindered result ∨
    run.Records told run' account.asked ∧ result.map view = account.outcome)

namespace Mirrors

variable {S : Setting ρ} {older : Nat} {run : Run ρ}

theorem pure {a : α} {b : β} {view : α → β} (h : view a = b) :
    Mirrors told S run (Pure.pure a : Followed ρ α) (Pure.pure b) view := by
  refine ⟨.ok a, run, rfl, .inr ⟨.refl run, ?_⟩⟩
  exact congrArg Except.ok h

theorem exhausted {view : α → β} :
    Mirrors told S run (throw .exhausted : Followed ρ α) .exhausted view :=
  ⟨.error .exhausted, run, rfl, .inr ⟨.refl run, rfl⟩⟩

theorem lift (x : Except Fault α) :
    Mirrors told S run (Followed.plain (Eval.lift x)) (Account.lift x) id := by
  refine ⟨x.mapError .fault, run, ?_, .inr ⟨.refl run, ?_⟩⟩
  · simp only [Followed.plain, Eval.lift_apply]
  · cases x <;> rfl

theorem bind {x : Followed ρ α} {f : α → Followed ρ α'} {X : Account κ β} {F : β → Account κ β'}
    {view : α → β} {view' : α' → β'} {mid : α → Run ρ → Prop} (hy : Yields S older run x mid)
    (hx : Mirrors told S run x X view)
    (hf : ∀ a run', Kept S older run run' → mid a run' → run.Records told run' X.asked →
      Mirrors told S run' (f a) (F (view a)) view') :
    Mirrors told S run (x >>= f) (X >>= F) view' := by
  obtain ⟨result, run', hrun, hresult⟩ := hx
  obtain ⟨_, _, hrun', hkept, -, hmid⟩ := hy
  rw [hrun] at hrun'
  cases hrun'
  cases result with
  | ok a =>
    rcases hresult with ⟨fault, hfault, -⟩ | ⟨hrecords, houtcome⟩
    · cases hfault
    · obtain ⟨result', run'', hrun', hresult'⟩ := hf a run' hkept (hmid a rfl) hrecords
      refine ⟨result', run'', by rw [Program.bind_ok hrun, hrun'], ?_⟩
      rw [Account.bind_ok houtcome.symm]
      exact hresult'.imp_right fun h => ⟨hrecords.trans h.1 hkept.calls_eq, h.2⟩
  | error stop =>
    refine ⟨.error stop, run', Program.bind_error hrun f, ?_⟩
    rcases hresult with ⟨fault, ⟨⟩, hhinders⟩ | ⟨hrecords, houtcome⟩
    · exact .inl ⟨fault, rfl, hhinders⟩
    · rw [Account.bind_error houtcome.symm]
      exact .inr ⟨hrecords, rfl⟩

theorem listen {x : Followed ρ α} {X : Account κ β} {view : α → β}
    (h : Mirrors told S run x X view) :
    Mirrors told S run x X.listen fun a => (view a, X.asked) := by
  obtain ⟨result, run', hrun, hresult⟩ := h
  refine ⟨result, run', hrun, hresult.imp_right fun h => ⟨h.1, ?_⟩⟩
  rw [Account.listen, ← h.2]
  cases result <;> rfl

theorem note {x : Followed ρ α} {X : Account κ β} {view : α → β} {happening : Happening ρ}
    (h : Mirrors told S (run.noted happening) x X view) :
    Mirrors told S run (Followed.note happening >>= fun _ => x) X view := by
  obtain ⟨result, run', hrun, hresult⟩ := h
  refine ⟨result, run', hrun, hresult.imp_right fun h => ⟨⟨h.1.marks, h.1.tells, ?_⟩, h.2⟩⟩
  exact (List.suffix_cons _ _).trans h.1.suffix

/-- A step of which the account knows nothing. -/
theorem step {y : Eval α} {f : α → Followed ρ α'} {X : Account κ β} {view : α' → β}
    {mid : α → Session → Prop} (h : Steps S older run y mid)
    (hmarks : ∀ a σ, mid a σ → run.Records told { run with session := σ } [])
    (hf : ∀ a σ, Kept S older run { run with session := σ } → mid a σ →
      Mirrors told S { run with session := σ } (f a) X view) :
    Mirrors told S run (Followed.plain y >>= f) X view := by
  obtain ⟨result, σ, hy, hkept, hresult⟩ := h
  have hplain : Followed.plain y run = (result, { run with session := σ }) := by
    simp only [Followed.plain, hy]
  rcases hresult with ⟨a, rfl, hmid⟩ | ⟨fault, rfl, hhinders⟩
  · obtain ⟨result', run'', hrun, hresult'⟩ := hf a σ hkept hmid
    refine ⟨result', run'', by rw [Program.bind_ok hplain, hrun], hresult'.imp_right fun h => ?_⟩
    exact ⟨(hmarks a σ hmid).trans h.1 rfl, h.2⟩
  · exact ⟨_, _, Program.bind_error hplain f, .inl ⟨fault, rfl, hhinders⟩⟩

/-- A last step, of which the account knows the answer. -/
theorem last {y : Eval α} {b : β} {view : α → β} {mid : α → Session → Prop}
    (h : Steps S older run y mid)
    (hmarks : ∀ a σ, mid a σ → run.Records told { run with session := σ } [])
    (hview : ∀ a σ, mid a σ → view a = b) :
    Mirrors told S run (Followed.plain y) (Pure.pure b) view := by
  obtain ⟨result, σ, hy, -, hresult⟩ := h
  refine ⟨result, { run with session := σ }, by simp only [Followed.plain, hy], ?_⟩
  rcases hresult with ⟨a, rfl, hmid⟩ | ⟨fault, rfl, hhinders⟩
  · exact .inr ⟨hmarks a σ hmid, congrArg Except.ok (hview a σ hmid)⟩
  · exact .inl ⟨fault, rfl, hhinders⟩

/-- An account asks for something of which it tells, and that is no key of an open guarded
call. -/
theorem tell {x : Followed ρ α} {X : Account κ β} {view : α → β} {k : κ} {position : Nat}
    (htold : ∀ run', run.Records told run' X.asked → told.tells run.calls run'.moments k position)
    (hidle : ∀ c ∈ run.calls, key c.rule = k → c.position = position → c.seat = none)
    (h : Mirrors told S run x X view) :
    Mirrors told S run x (Account.ask k position >>= fun _ => X) view := by
  obtain ⟨result, run', hrun, hresult⟩ := h
  refine ⟨result, run', hrun, hresult.imp_right fun h => ⟨⟨?_, ?_, h.1.suffix⟩, h.2⟩⟩
  · intro c hc i id hseat
    have hne : (key c.rule, c.position) ≠ (k, position) := by
      intro heq
      obtain ⟨hkey, hposition⟩ := Prod.mk.inj heq
      rw [hidle c hc hkey hposition] at hseat
      cases hseat
    rw [h.1.marks c hc i id hseat]
    refine or_congr_right ⟨List.mem_cons_of_mem _, fun hmem => ?_⟩
    exact (List.mem_cons.1 hmem).resolve_left hne
  · intro k' position' hmem
    rcases List.mem_cons.1 hmem with heq | hmem
    · cases heq
      exact htold run' h.1
    · exact h.1.tells k' position' hmem

/-- A call of a rule of which no guarded call is open. -/
theorem ask {x : Followed ρ α} {X : Account κ β} {view : α → β} {r : ρ} {position : Nat}
    (hcalled : CalledInside run.calls run.moments r position)
    (hidle : ∀ c ∈ run.calls, key c.rule = key r → c.position = position → c.seat = none)
    (h : Mirrors told S run x X view) :
    Mirrors told S run x (Account.ask (key r) position >>= fun _ => X) view :=
  h.tell (fun _ hrecords => told.called (hcalled.later hrecords.suffix)) hidle

/-- A program inside a further call. -/
theorem inside {c : OpenCall ρ} {x : Followed ρ α} {X : Account κ β} {view : α → β}
    (h : Mirrors told S { run with calls := c :: run.calls } x X view) :
    Mirrors told S run (Followed.inside c x) X view := by
  obtain ⟨result, run', hrun, hresult⟩ := h
  refine ⟨result, { run' with calls := run.calls }, by simp only [Followed.inside, hrun], ?_⟩
  refine hresult.imp_right fun h => ⟨⟨fun d hd => ?_, ?_, h.1.suffix⟩, h.2⟩
  · exact h.1.marks d (List.mem_cons_of_mem _ hd)
  · exact fun k position hmem => told.outward (h.1.tells k position hmem)

/-- A program one level deeper in a registry. -/
theorem deeper {id : RegistryId} {x : Followed ρ α} {X : Account κ β} {view : α → β}
    (h : run.Sound S) (hx : ∀ run', run'.Sound S → run'.calls = run.calls →
      run'.session.frames = run.session.frames → Mirrors told S run' x X view) :
    Mirrors told S run (Followed.deeper id x) X view := by
  have hdown : Kept S 0 run { run with
      session := run.session.modifyRegistry id fun r => { r with level := r.level + 1 } } :=
    .session_same 0 h (.level _ _ fun r => r.level + 1) rfl
  obtain ⟨result, run', hrun, hresult⟩ := hx _ hdown.sound rfl rfl
  refine ⟨result, _, by simp only [Followed.deeper, hrun]; rfl, ?_⟩
  exact hresult.imp_right fun h => ⟨⟨h.1.marks, h.1.tells, h.1.suffix⟩, h.2⟩

end Mirrors

/-- The scope holds the guarded calls that are open at its position, with their best
results. -/
structure Scope.Covers (key : ρ → κ) (scope : Scope κ) (run : Run ρ) : Prop where
  behind : ∀ c ∈ run.calls, scope.position ≤ c.position
  best_iff : ∀ k best, scope.best k = some best ↔ ∃ c ∈ run.calls, ∃ i id, key c.rule = k ∧
    c.position = scope.position ∧ c.seat = some (i, id) ∧
    (run.session.frame id).best.map Match.found = best

namespace Scope.Covers

variable {scope : Scope κ} {run run' : Run ρ}

/-- No call is open where a run begins. -/
theorem start (session : Session) (position : Nat) :
    (Scope.empty position : Scope κ).Covers key ⟨session, [], []⟩ := by
  refine ⟨?_, fun k best => ⟨?_, ?_⟩⟩
  · intro c hc
    cases hc
  · intro hbest
    cases hbest
  · intro hopen
    obtain ⟨c, hc, -⟩ := hopen
    cases hc

/-- A rule is not in scope if no guarded call of its key is open there. -/
theorem best_eq_none (h : scope.Covers key run) {k : κ}
    (hidle : ∀ c ∈ run.calls, key c.rule = k → c.position = scope.position → c.seat = none) :
    scope.best k = none := by
  cases hbest : scope.best k with
  | none => rfl
  | some best =>
    obtain ⟨c, hc, i, id, hrule, hposition, hseat, -⟩ := (h.best_iff k best).1 hbest
    rw [hidle c hc hrule hposition] at hseat
    cases hseat

/-- Only open calls and the best results in their frames matter. -/
theorem congr (h : scope.Covers key run) (hcalls : run'.calls = run.calls)
    (hbest : ∀ c ∈ run.calls, ∀ i id, c.seat = some (i, id) →
      (run'.session.frame id).best = (run.session.frame id).best) : scope.Covers key run' := by
  refine ⟨hcalls ▸ h.behind, fun k best => ?_⟩
  rw [h.best_iff, hcalls]
  constructor
  · intro hopen
    obtain ⟨c, hc, i, id, hr, hp, hseat, hb⟩ := hopen
    exact ⟨c, hc, i, id, hr, hp, hseat, hbest c hc i id hseat ▸ hb⟩
  · intro hopen
    obtain ⟨c, hc, i, id, hr, hp, hseat, hb⟩ := hopen
    exact ⟨c, hc, i, id, hr, hp, hseat, hbest c hc i id hseat ▸ hb⟩

theorem kept {S : Setting ρ} (h : scope.Covers key run) (hs : run.Sound S)
    (hk : Kept S run.session.frames.size run run') : scope.Covers key run' := by
  refine h.congr hk.calls_eq fun c hc i id hseat => ?_
  exact (hk.frame_eq id (hs.seated c hc i id hseat).lt_size).best_eq

theorem noted (h : scope.Covers key run) (happening : Happening ρ) :
    scope.Covers key (run.noted happening) :=
  h.congr rfl fun _ _ _ _ _ => rfl

/-- Further on no guarded call is open. -/
theorem movedTo (h : scope.Covers key run) {position : Nat} (hle : position ≤ scope.position) :
    (scope.movedTo position).Covers key run := by
  unfold Scope.movedTo
  split
  · exact h
  · next hne =>
    have hlt : ∀ c ∈ run.calls, position < c.position := by
      intro c hc
      have := h.behind c hc
      omega
    refine ⟨fun c hc => (hlt c hc).le, fun k best => ?_⟩
    constructor
    · intro hbest
      cases hbest
    · intro hopen
      obtain ⟨c, hc, i, id, -, hp, -⟩ := hopen
      exact absurd hp (hlt c hc).ne'

/-- Calls of plain rules are not in scope. -/
theorem plain (h : scope.Covers key run) (r : ρ) {position : Nat}
    (hle : scope.position ≤ position) :
    scope.Covers key { run with calls := ⟨r, position, none⟩ :: run.calls } := by
  refine ⟨fun c hc => ?_, fun r' best => ?_⟩
  · rcases List.mem_cons.1 hc with rfl | hc
    · exact hle
    · exact h.behind c hc
  · rw [h.best_iff]
    simp

/-- A guarded call that begins comes into scope. -/
theorem add [DecidableEq κ] {outer : List (OpenCall ρ)}
    (h : scope.Covers key { run with calls := outer })
    {r : ρ} {flag : Nat} {id : FrameId} (hnew : scope.best (key r) = none)
    (hcalls : run.calls = ⟨r, scope.position, some (flag, id)⟩ :: outer) :
    (scope.add (key r) ((run.session.frame id).best.map Match.found)).Covers key run := by
  refine ⟨fun c hc => ?_, fun k best => ?_⟩
  · rw [hcalls] at hc
    rcases List.mem_cons.1 hc with rfl | hc
    · exact le_rfl
    · exact h.behind c hc
  · simp only [Scope.add]
    rw [hcalls]
    by_cases hk : k = key r
    · subst hk
      rw [if_pos rfl]
      constructor
      · intro heq
        cases heq
        exact ⟨_, List.mem_cons_self, flag, id, rfl, rfl, rfl, rfl⟩
      · intro hopen
        obtain ⟨c, hc, i, id', hrule, hp, hseat, hb⟩ := hopen
        rcases List.mem_cons.1 hc with rfl | hc
        · cases hseat
          exact congrArg some hb
        · have hsome := (h.best_iff _ best).2 ⟨c, hc, i, id', hrule, hp, hseat, hb⟩
          rw [hnew] at hsome
          cases hsome
    · rw [if_neg hk, h.best_iff]
      constructor
      · intro hopen
        obtain ⟨c, hc, hrest⟩ := hopen
        exact ⟨c, List.mem_cons_of_mem _ hc, hrest⟩
      · intro hopen
        obtain ⟨c, hc, i, id', hrule, hrest⟩ := hopen
        rcases List.mem_cons.1 hc with rfl | hc
        · exact absurd hrule.symm hk
        · exact ⟨c, hc, i, id', hrule, hrest⟩

end Scope.Covers

end SeedGrowth
