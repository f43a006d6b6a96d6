import SeedGrowth.Proofs.Run.Invariant
import SeedGrowth.Proofs.Scope.Guarded

/-!
# Runs mirror evaluations by scopes

Every combinator mirrors its reading if calls of rules do, by induction over parsers;
calls of rules do by induction over how deep they may be nested.
-/
namespace SeedGrowth

variable {ρ κ : Type} {key : ρ → κ} {told : Told key} {S : Setting ρ}

/-- Calls of rules mirror their readings in the scopes of the open calls. -/
def CallsMirror (told : Told key) (S : Setting ρ) (depth : Nat)
    (call : ρ → Cursor → Followed ρ (Option Match))
    (reading : Scope κ → ρ → Point → Account κ (Option Found)) : Prop :=
  ∀ {run : Run ρ} {r : ρ} {s : Cursor} {scope : Scope κ}, run.Sound S →
    depth + run.calls.length = S.depth → s.Shows S run.calls → run.Asks r s → scope.Covers key run →
    s.remaining ≤ scope.position →
    Mirrors told S run (call r s) (reading scope r s.point) (Option.map Match.found)

/-- A parser is given a cursor. -/
theorem Run.Sound.handed {run : Run ρ} (h : run.Sound S) {parser : Parser ρ} {s : Cursor}
    (hs : s.Shows S run.calls) (hr : Heads S run.calls s parser.heads) :
    (run.noted (.handed parser s)).Sound S :=
  h.note ⟨h.orderly, hs, hr⟩

namespace Parser

variable {depth : Nat} {call : ρ → Cursor → Followed ρ (Option Match)}
  {reading : Scope κ → ρ → Point → Account κ (Option Found)}

/-- Repetition mirrors its reading: offsets agree if and only if as much text is left. -/
theorem followRepeat_mirrors {parser : Cursor → Followed ρ (Option Match)}
    {parser' : Point → Account κ (Option Found)} {calls : List (OpenCall ρ)} {scope : Scope κ}
    {position : Nat}
    (hp : ∀ {older : Nat} {run : Run ρ} {s : Cursor}, older ≤ run.session.frames.size →
      run.Sound S → run.calls = calls → s.Shows S calls → s.remaining ≤ position →
      Yields S older run (parser s) fun result _ => Shown S calls s.remaining result)
    (hm : ∀ {run : Run ρ} {s : Cursor}, run.Sound S → run.calls = calls → s.Shows S calls →
      s.remaining ≤ position → scope.Covers key run →
      Mirrors told S run (parser s) (parser' s.point) (Option.map Match.found)) :
    ∀ (rounds : Nat) {run : Run ρ} {s : Cursor}, run.Sound S → run.calls = calls →
      s.Shows S calls → s.remaining ≤ position → s.remaining < rounds → scope.Covers key run →
      Mirrors told S run (followRepeat parser rounds s) (readRepeat parser' rounds s.point)
        fun (rest, values) => (rest.point, values) := by
  intro rounds
  induction rounds with
  | zero =>
    intro run s _ _ _ _ hlt _
    omega
  | succ rounds ih =>
    intro run s h hcalls hs hle hlt hscope
    rw [followRepeat, readRepeat]
    refine .bind (hp le_rfl h hcalls hs hle) (hm h hcalls hs hle hscope) ?_
    intro result run' hk hshown _
    have hscope' := hscope.kept h hk
    cases result with
    | none => exact .pure rfl
    | some m =>
      obtain ⟨hrest, hrestle⟩ := hshown m rfl
      have htotal := hs.total_eq
      have htotal' := hrest.total_eq
      have hiff : m.rest.place.offset = s.place.offset ↔
          m.found.rest.remaining = s.point.remaining := by
        change _ ↔ m.rest.remaining = s.remaining
        omega
      dsimp only [Option.map_some]
      by_cases hoffset : m.rest.place.offset = s.place.offset
      · rw [if_pos hoffset, if_pos (hiff.1 hoffset)]
        exact .pure rfl
      · rw [if_neg hoffset, if_neg fun heq => hoffset (hiff.2 heq)]
        have hcalls' := hk.calls_eq.trans hcalls
        have hyields := followRepeat_yields hp rounds le_rfl hk.sound hcalls' hrest (by omega)
          (by omega)
        refine .bind hyields (ih hk.sound hcalls' hrest (by omega) (by omega) hscope') ?_
        rintro ⟨rest, values⟩ run'' - - -
        exact .pure rfl

mutual

/-- Combinators mirror their readings if calls of rules do. -/
theorem follow_mirrors (hcall : CallsYield S depth call)
    (hreading : CallsMirror told S depth call reading) :
    ∀ (parser : Parser ρ), parser.isCombinator = true → ∀ {run : Run ρ} {s : Cursor}
      {scope : Scope κ}, run.Sound S → depth + run.calls.length = S.depth → s.Shows S run.calls →
      Heads S run.calls s parser.heads → scope.Covers key run → s.remaining ≤ scope.position →
      Mirrors told S run (parser.follow call s) (parser.read (reading scope) s.point)
        (Option.map Match.found)
  | tag text, _, run, s, scope, h, hd, hs, hr, hc, hle => by
    refine .note (.pure ?_)
    change Option.map Match.found (if text.isPrefixOf s.fragment then _ else _) =
      if text.isPrefixOf s.fragment then _ else _
    split <;> rfl
  | scanner rule, _, run, s, scope, h, hd, hs, hr, hc, hle => by
    refine .note (.pure ?_)
    rw [Option.map_map]
    rfl
  | eof, _, run, s, scope, h, hd, hs, hr, hc, hle => by
    refine .note (.pure ?_)
    change Option.map Match.found (if s.fragment.isEmpty then _ else _) =
      if s.fragment.isEmpty then _ else _
    split <;> rfl
  | alt branches, hp, run, s, scope, h, hd, hs, hr, hc, hle => by
    have hn := h.handed hs hr
    exact .note (followFirst_mirrors hcall hreading branches hp hn hd hs hr (hc.noted _) hle)
  | sequence items, hp, run, s, scope, h, hd, hs, hr, hc, hle => by
    have hn := h.handed hs hr
    refine .note (.bind (followAll_yields hcall items hp le_rfl hn hd hs hr)
      (followAll_mirrors hcall hreading items hp hn hd hs hr (hc.noted _) hle) ?_)
    intro result run' _ _ _
    refine .pure ?_
    cases result <;> rfl
  | mapped parser change, hp, run, s, scope, h, hd, hs, hr, hc, hle => by
    have hn := h.handed hs hr
    refine .note (.bind (follow_yields hcall parser hp le_rfl hn hd hs hr)
      (follow_mirrors hcall hreading parser hp hn hd hs hr (hc.noted _) hle) ?_)
    intro result run' hk _ _
    cases result with
    | none => exact .pure rfl
    | some m =>
      have hyields : Yields S 0 run' (Followed.plain (Eval.lift (change m.value))) fun a run'' =>
        change m.value = .ok a ∧ run'' = run' := .lift hk.sound _
      refine .bind hyields (.lift (change m.value)) ?_
      intro value run'' _ _ _
      exact .pure rfl
  | opt parser, hp, run, s, scope, h, hd, hs, hr, hc, hle => by
    have hn := h.handed hs hr
    refine .note (.bind (follow_yields hcall parser hp le_rfl hn hd hs hr)
      (follow_mirrors hcall hreading parser hp hn hd hs hr (hc.noted _) hle) ?_)
    intro result run' _ _ _
    cases result <;> exact .pure rfl
  | many parser, hp, run, s, scope, h, hd, hs, hr, hc, hle => by
    have hn := h.handed hs hr
    have hyields : ∀ {older : Nat} {run' : Run ρ} {s' : Cursor}, older ≤ run'.session.frames.size →
        run'.Sound S → run'.calls = run.calls → s'.Shows S run.calls → s'.remaining ≤ s.remaining →
        Yields S older run' (parser.follow call s') fun result _ =>
          Shown S run.calls s'.remaining result := by
      intro older run' s' ho h' hcalls hs' hle'
      have hr' : Heads S run.calls s' parser.heads := .further hs (fun _ => hr) hle'
      have hyields := follow_yields hcall parser hp ho h' (hcalls ▸ hd) (hcalls ▸ hs')
        (hcalls ▸ hr')
      rw [hcalls] at hyields
      exact hyields.imp fun _ _ _ htaken => htaken.shown
    have hmirrors : ∀ {run' : Run ρ} {s' : Cursor}, run'.Sound S → run'.calls = run.calls →
        s'.Shows S run.calls → s'.remaining ≤ s.remaining → scope.Covers key run' →
        Mirrors told S run' (parser.follow call s') (parser.read (reading scope) s'.point)
          (Option.map Match.found) := by
      intro run' s' h' hcalls hs' hle' hc'
      have hr' : Heads S run.calls s' parser.heads := .further hs (fun _ => hr) hle'
      exact follow_mirrors hcall hreading parser hp h' (hcalls ▸ hd) (hcalls ▸ hs') (hcalls ▸ hr')
        hc' (hle'.trans hle)
    refine .note (.bind (followRepeat_yields hyields _ le_rfl hn rfl hs le_rfl (Nat.lt_succ_self _))
      (followRepeat_mirrors hyields hmirrors _ hn rfl hs le_rfl (Nat.lt_succ_self _)
        (hc.noted _)) ?_)
    rintro ⟨rest, values⟩ run' - - -
    exact .pure rfl
  | ref rule, _, run, s, scope, h, hd, hs, hr, hc, hle => by
    have hn := h.handed hs hr
    exact .note (hreading hn hd hs ⟨_, List.mem_cons_self, rfl, rfl⟩ (hc.noted _) hle)
  | peek _, hp, _, _, _, _, _, _, _, _, _ | absent _, hp, _, _, _, _, _, _, _, _, _
  | .edit _, hp, _, _, _, _, _, _, _, _, _ | reveal, hp, _, _, _, _, _, _, _, _, _
  | probe _, hp, _, _, _, _, _, _, _, _, _ | .watch _ _, hp, _, _, _, _, _, _, _, _, _ =>
    absurd hp Bool.false_ne_true

theorem followFirst_mirrors (hcall : CallsYield S depth call)
    (hreading : CallsMirror told S depth call reading) :
    ∀ (branches : List (Parser ρ)), areCombinators branches = true → ∀ {run : Run ρ} {s : Cursor}
      {scope : Scope κ}, run.Sound S → depth + run.calls.length = S.depth → s.Shows S run.calls →
      Heads S run.calls s (headsFirst branches) → scope.Covers key run →
        s.remaining ≤ scope.position →
      Mirrors told S run (followFirst call branches s) (readFirst (reading scope) branches s.point)
        (Option.map Match.found)
  | [], _, run, s, scope, h, hd, hs, hr, hc, hle => .pure rfl
  | parser :: rest, hp, run, s, scope, h, hd, hs, hr, hc, hle => by
    obtain ⟨hparser, hrest⟩ := Bool.and_eq_true_iff.1 hp
    have hr₁ : Heads S run.calls s parser.heads := hr.mono (List.subset_append_left _ _)
    refine .bind (follow_yields hcall parser hparser le_rfl h hd hs hr₁)
      (follow_mirrors hcall hreading parser hparser h hd hs hr₁ hc hle) ?_
    intro result run' hk _ _
    have hcalls := hk.calls_eq
    cases result with
    | none =>
      have hr₂ : Heads S run.calls s (headsFirst rest) := hr.mono (List.subset_append_right _ _)
      exact followFirst_mirrors hcall hreading rest hrest hk.sound (hcalls ▸ hd) (hcalls ▸ hs)
        (hcalls ▸ hr₂) (hc.kept h hk) hle
    | some m => exact .pure rfl

theorem followAll_mirrors (hcall : CallsYield S depth call)
    (hreading : CallsMirror told S depth call reading) :
    ∀ (items : List (Parser ρ)), areCombinators items = true → ∀ {run : Run ρ} {s : Cursor}
      {scope : Scope κ}, run.Sound S → depth + run.calls.length = S.depth → s.Shows S run.calls →
      Heads S run.calls s (headsAll items) → scope.Covers key run → s.remaining ≤ scope.position →
      Mirrors told S run (followAll call items s) (readAll (reading scope) items s.point)
        (Option.map fun (rest, values) => (rest.point, values))
  | [], _, run, s, scope, h, hd, hs, hr, hc, hle => .pure rfl
  | parser :: rest, hp, run, s, scope, h, hd, hs, hr, hc, hle => by
    obtain ⟨hparser, hrest⟩ := Bool.and_eq_true_iff.1 hp
    have hr₁ : Heads S run.calls s parser.heads := hr.mono (List.subset_append_left _ _)
    refine .bind (follow_yields hcall parser hparser le_rfl h hd hs hr₁)
      (follow_mirrors hcall hreading parser hparser h hd hs hr₁ hc hle) ?_
    intro result run' hk hresult _
    cases result with
    | none => exact .pure rfl
    | some m =>
      obtain ⟨hm, hmle⟩ := hresult m rfl
      have hcalls := hk.calls_eq
      have hr₂ : Heads S run.calls m.rest (headsAll rest) := hr.after hs hmle
      refine .bind (followAll_yields hcall rest hrest le_rfl hk.sound (hcalls ▸ hd) (hcalls ▸ hm)
        (hcalls ▸ hr₂)) (followAll_mirrors hcall hreading rest hrest hk.sound (hcalls ▸ hd)
        (hcalls ▸ hm) (hcalls ▸ hr₂) (hc.kept h hk) (by omega)) ?_
      intro answer run'' _ _ _
      refine .pure ?_
      cases answer <;> rfl

end

end Parser

namespace Grammar

section

variable {depth : Nat} {reading : Scope κ → ρ → Point → Account κ (Option Found)}
  (hreading : CallsMirror told S depth (S.grammar.followCall depth) reading)

include hreading

/-- The body of a rule mirrors its reading if calls do. -/
theorem ruleMirrors {outer : List (OpenCall ρ)} (hd : depth + 1 + outer.length = S.depth) (r : ρ)
    (s : Cursor) :
    RuleMirrors told S outer r s ((S.grammar.rule r).body.follow (S.grammar.followCall depth))
      fun scope => (S.grammar.rule r).body.read (reading scope) s.point := by
  intro s' run scope hpoint h hs hinside hc hp
  obtain ⟨c, hrule, hcalls⟩ := hinside
  have hlength : depth + run.calls.length = S.depth := by
    rw [hcalls, List.length_cons]
    omega
  have hheads : Heads S run.calls s' (S.grammar.rule r).body.heads := hcalls ▸ Heads.of_rule hrule
  have hle : s'.remaining ≤ scope.position := by
    rw [hp]
    exact (congrArg Point.remaining hpoint).le
  rw [← hpoint]
  exact Parser.follow_mirrors (followCall_yields S depth) hreading _ (S.combinators r) h hlength hs
    hheads hc hle

/-- A call of a rule mirrors its reading if the calls in its body do, and if the evaluation of
the body does where the rule is guarded and not in scope. -/
theorem followRule_mirrors (hkey : S.grammar.KeysFit key) {run : Run ρ} {r : ρ} {s : Cursor}
    {scope : Scope κ} (h : run.Sound S) (hd : depth + 1 + run.calls.length = S.depth)
    (hs : s.Shows S run.calls) (hc : run.Asks r s) (hscope : scope.Covers key run)
    (hle : s.remaining ≤ scope.position) {account : Account κ (Option Found)}
    (hevaluation : (scope.movedTo s.remaining).best (key r) = none →
      EvaluationMirrors told S run.calls r s
        ((S.grammar.rule r).body.follow (S.grammar.followCall depth)) (scope.movedTo s.remaining)
        account) :
    Mirrors told S run (S.grammar.followCall (depth + 1) r s)
      (Account.ask (key r) s.remaining >>= fun _ =>
        match (S.grammar.rule r).guard with
        | none => (S.grammar.rule r).body.read (reading (scope.movedTo s.remaining)) s.point
        | some _ =>
          match (scope.movedTo s.remaining).best (key r) with
          | some best => return best
          | none => account) (Option.map Match.found) := by
  have hbody := ruleMirrors hreading hd r s
  rw [followCall]
  cases hr : (S.grammar.rule r).guard with
  | none =>
    have hopen := h.begin_plain hs hc hr
    obtain ⟨m, hm, hcall⟩ := hc
    refine .ask ⟨m, hm, ⟨s, hcall.1, rfl⟩, hcall.2 ▸ List.suffix_rfl⟩ ?_ (.inside ?_)
    · -- An open call with the key of the rule has no seat, because the rule is plain.
      intro c hmem hrule _
      cases hseat : c.seat with
      | none => rfl
      | some seat =>
        obtain ⟨guard, hguard, -⟩ := (h.seated c hmem seat.1 seat.2 hseat).named
        have hsome : (S.grammar.rule c.rule).guard.isSome = true := by
          rw [hguard]
          rfl
        obtain ⟨-, guard', -, hguard', -⟩ := (hkey hsome r).1 hrule
        rw [hr] at hguard'
        cases hguard'
    · exact hbody s _ _ rfl hopen (hs.cons_plain le_rfl) ⟨_, rfl, rfl⟩
        ((hscope.movedTo hle).plain r (by simp)) (scope.position_movedTo _)
  | some guard =>
    exact followGuarded_mirrors h hkey hr hs hc hscope hle
      (ruleYields (followCall_yields S depth) hd r s) hevaluation

/-- The body of a guarded rule that is not in scope is evaluated there. -/
theorem evaluation_mirrors [DecidableEq κ] {outer : List (OpenCall ρ)}
    (hd : depth + 1 + outer.length = S.depth) (r : ρ) (s : Cursor) {scope : Scope κ}
    (hp : scope.position = s.remaining) (hnew : scope.best (key r) = none) :
    EvaluationMirrors told S outer r s
      ((S.grammar.rule r).body.follow (S.grammar.followCall depth)) scope
      (Scope.evaluate (key r) s.remaining fun best =>
        (S.grammar.rule r).body.read (reading (scope.add (key r) best)) s.point) :=
  (ruleMirrors hreading hd r s).evaluation hnew hp
    (ruleYields (followCall_yields S depth) hd r s)

end

/-- Calls of rules mirror their readings. -/
theorem followCall_mirrors [DecidableEq κ] (hkey : S.grammar.KeysFit key) (depth : Nat) :
    CallsMirror told S depth (S.grammar.followCall depth) (S.grammar.readCall key depth) := by
  induction depth with
  | zero =>
    intro run r s scope _ _ _ _ _ _
    exact .exhausted
  | succ depth ih =>
    intro run r s scope h hd hs hc hscope hle
    exact followRule_mirrors ih hkey h hd hs hc hscope hle
      (evaluation_mirrors ih hd r s (scope.position_movedTo _))

section

variable {g : Grammar ρ} (hg : g.OfCombinators) (hk : g.NamesKnown) {home : RegistryId}
  {session : Session} (hh : session.Hosts g home) {s : Cursor} (hs : s.Dark) (depth : Nat)
  {parser : Parser ρ} (hp : parser.isCombinator = true)

include hh hs hp

/-- Runs that begin with no flag lit mirror a reading if calls of rules do. -/
theorem start_mirrors {reading : Scope κ → ρ → Point → Account κ (Option Found)}
    (hreading : CallsMirror told (.start g hg hk home session s depth) depth (g.followCall depth)
      reading) :
    Mirrors told (.start g hg hk home session s depth) ⟨session, [], []⟩
      (parser.follow (g.followCall depth) s) (parser.read (reading (.empty s.remaining)) s.point)
      (Option.map Match.found) := by
  let S : Setting ρ := .start g hg hk home session s depth
  refine Parser.follow_mirrors (followCall_yields S depth) hreading parser hp
    (Setting.start_sound hh) rfl (Setting.start_shows hs) ?_ (.start _ _) le_rfl
  intro c hc
  cases hc

/-- Runs that begin with no flag lit mirror evaluations by scopes. -/
theorem run_mirrors [DecidableEq κ] (told : Told key) (hkey : g.KeysFit key) :
    Mirrors told (.start g hg hk home session s depth) ⟨session, [], []⟩
      (parser.follow (g.followCall depth) s) (g.read key depth parser s.point)
      (Option.map Match.found) := by
  let S : Setting ρ := .start g hg hk home session s depth
  have hcall : CallsMirror told S depth (S.grammar.followCall depth)
      (S.grammar.readCall key depth) := followCall_mirrors hkey depth
  exact start_mirrors hg hk hh hs depth hp hcall

end

end Grammar

end SeedGrowth
