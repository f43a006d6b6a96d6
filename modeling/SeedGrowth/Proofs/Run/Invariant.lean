import SeedGrowth.Proofs.Run.Guarded

/-!
# Runs are coherent

Every combinator keeps a run coherent if calls of rules do, by induction over parsers;
calls of rules do by induction over how deep they may be nested. A parser matches the
text ahead of it, so that cursors only ever move on; repetition is thereby bound by the
length of the text and never ends exhausted.
-/
namespace SeedGrowth

variable {ρ : Type} {S : Setting ρ}

/-- Calls of rules keep a run coherent, where they can be nested as much deeper as a
bound says. -/
def CallsYield (S : Setting ρ) (depth : Nat) (call : ρ → Cursor → Followed ρ (Option Match)) :
    Prop :=
  ∀ {older : Nat} {run : Run ρ} {r : ρ} {s : Cursor}, older ≤ run.session.frames.size →
    run.Sound S → depth + run.calls.length = S.depth → s.Shows S run.calls → run.Asks r s →
    Yields S older run (call r s) fun result _ => Shown S run.calls s.remaining result

/-- The match, if there is one, shows the open calls and takes up that much at least. -/
def Taken (S : Setting ρ) (calls : List (OpenCall ρ)) (s : Cursor) (least : Nat)
    (result : Option Match) : Prop :=
  ∀ m, result = some m → m.rest.Shows S calls ∧ m.rest.remaining + least ≤ s.remaining

theorem Taken.none (S : Setting ρ) (calls : List (OpenCall ρ)) (s : Cursor) (least : Nat) :
    Taken S calls s least none := by
  intro m hm
  cases hm

theorem Taken.some {calls : List (OpenCall ρ)} {s : Cursor} {least : Nat} {m : Match}
    (h : m.rest.Shows S calls) (hle : m.rest.remaining + least ≤ s.remaining) :
    Taken S calls s least (some m) := by
  intro m' hm
  cases hm
  exact ⟨h, hle⟩

theorem Taken.mono {calls : List (OpenCall ρ)} {s : Cursor} {least least' : Nat}
    {result : Option Match} (h : Taken S calls s least result) (hle : least' ≤ least) :
    Taken S calls s least' result :=
  fun m hm => ⟨(h m hm).1, (Nat.add_le_add_left hle _).trans (h m hm).2⟩

theorem Taken.shown {calls : List (OpenCall ρ)} {s : Cursor} {least : Nat}
    {result : Option Match} (h : Taken S calls s least result) : Shown S calls s.remaining result :=
  h.mono (Nat.zero_le _)

namespace Heads

variable {calls : List (OpenCall ρ)} {s s' : Cursor} {rules rules' : List ρ}

theorem mono (h : Heads S calls s rules) (hr : rules' ⊆ rules) : Heads S calls s rules' :=
  fun c hc hp => List.Subset.trans hr (h c hc hp)

/-- Further on other calls than those of the beginning may follow. -/
theorem further (hs : s.Shows S calls) (h : s'.remaining = s.remaining → Heads S calls s rules)
    (hle : s'.remaining ≤ s.remaining) : Heads S calls s' rules := by
  intro c hc hp
  have hbehind := hs.behind c (List.mem_of_mem_head? hc)
  exact h (by omega) c hc (by omega)

/-- The rest of a row makes calls at the same position only if its first may read nothing. -/
theorem after {parser : Parser ρ} {rest : List (Parser ρ)}
    (h : Heads S calls s (Parser.headsAll (parser :: rest))) (hs : s.Shows S calls)
    (hle : s'.remaining + parser.least ≤ s.remaining) :
    Heads S calls s' (Parser.headsAll rest) := by
  refine .further hs (fun heq => h.mono ?_) (by omega)
  have hleast : parser.least = 0 := by omega
  rw [Parser.headsAll, if_pos hleast]
  exact List.subset_append_right _ _

end Heads

namespace Parser

variable {depth older : Nat} {call : ρ → Cursor → Followed ρ (Option Match)}

/-- A match of the next characters shows what the cursor did. -/
theorem matchNext_taken {calls : List (OpenCall ρ)} {s : Cursor} (hs : s.Shows S calls)
    {count : Nat} (hc : count ≤ s.remaining) :
    Taken S calls s count (some (matchNext s count)) := by
  refine .some (hs.advance hc) ?_
  change (s.advance count).remaining + count ≤ s.remaining
  rw [Cursor.remaining_advance]
  omega

/-- Repetition ends before its rounds are used up, because every further round begins
further on. -/
theorem followRepeat_yields {parser : Cursor → Followed ρ (Option Match)}
    {calls : List (OpenCall ρ)}
    {position : Nat}
    (hp : ∀ {run : Run ρ} {s : Cursor}, older ≤ run.session.frames.size → run.Sound S →
      run.calls = calls → s.Shows S calls → s.remaining ≤ position →
      Yields S older run (parser s) fun result _ => Shown S calls s.remaining result) :
    ∀ (rounds : Nat) {run : Run ρ} {s : Cursor}, older ≤ run.session.frames.size → run.Sound S →
      run.calls = calls → s.Shows S calls → s.remaining ≤ position → s.remaining < rounds →
      Yields S older run (followRepeat parser rounds s) fun (rest, _) _ =>
        rest.Shows S calls ∧ rest.remaining ≤ s.remaining := by
  intro rounds
  induction rounds with
  | zero =>
    intro run s _ _ _ _ _ hlt
    omega
  | succ rounds ih =>
    intro run s ho h hcalls hs hle hlt
    rw [followRepeat]
    refine .bind (hp ho h hcalls hs hle) ?_
    intro result run' hk hshown
    cases result with
    | none => exact .pure hk.sound ⟨hs, le_rfl⟩
    | some m =>
      obtain ⟨hm, hmle⟩ := hshown m rfl
      dsimp only
      split
      · exact .pure hk.sound ⟨hs, le_rfl⟩
      · next hoffset =>
        have htotal := hs.total_eq
        have htotal' := hm.total_eq
        have hshorter : m.rest.remaining < s.remaining := by omega
        have hrest := ih (ho.trans hk.size_le) hk.sound (hk.calls_eq.trans hcalls) hm (by omega)
          (by omega)
        refine .bind hrest ?_
        intro (rest, values) run'' hk' hpost
        obtain ⟨hshows, hrestle⟩ := hpost
        exact .pure hk'.sound ⟨hshows, hrestle.trans hmle⟩

mutual

/-- Combinators keep a run coherent if calls of rules do. -/
theorem follow_yields (hcall : CallsYield S depth call) :
    ∀ (parser : Parser ρ), parser.isCombinator = true → ∀ {older : Nat} {run : Run ρ} {s : Cursor},
      older ≤ run.session.frames.size → run.Sound S → depth + run.calls.length = S.depth →
      s.Shows S run.calls → Heads S run.calls s parser.heads →
      Yields S older run (parser.follow call s) fun result _ =>
        Taken S run.calls s parser.least result
  | tag text, _, older, run, s, ho, h, hd, hs, hr => by
    refine .note h ⟨h.orderly, hs, hr⟩ fun hn => .imp (.lift hn (.ok _)) ?_
    intro result run' _ hresult
    obtain ⟨⟨rfl⟩, -⟩ := hresult
    split
    · next hp => exact matchNext_taken hs (List.isPrefixOf_iff_prefix.1 hp).length_le
    · exact .none S _ _ _
  | scanner rule, _, older, run, s, ho, h, hd, hs, hr => by
    refine .note h ⟨h.orderly, hs, hr⟩ fun hn => .imp (.lift hn (.ok _)) ?_
    intro result run' _ hresult
    obtain ⟨⟨rfl⟩, -⟩ := hresult
    cases hscan : rule.scan s.fragment with
    | none => exact .none S _ _ _
    | some count => exact (matchNext_taken hs (rule.scan_le hscan)).mono (Nat.zero_le _)
  | eof, _, older, run, s, ho, h, hd, hs, hr => by
    refine .note h ⟨h.orderly, hs, hr⟩ fun hn => .imp (.lift hn (.ok _)) ?_
    intro result run' _ hresult
    obtain ⟨⟨rfl⟩, -⟩ := hresult
    split
    · exact .some hs le_rfl
    · exact .none S _ _ _
  | alt branches, hp, older, run, s, ho, h, hd, hs, hr =>
    .note h ⟨h.orderly, hs, hr⟩ fun hn => followFirst_yields hcall branches hp ho hn hd hs hr
  | sequence items, hp, older, run, s, ho, h, hd, hs, hr => by
    refine .note h ⟨h.orderly, hs, hr⟩ fun hn => ?_
    refine .bind (followAll_yields hcall items hp ho hn hd hs hr) ?_
    intro result run' hk hresult
    refine .pure hk.sound ?_
    cases result with
    | none => exact .none S _ _ _
    | some pair => exact .some (hresult pair rfl).1 (hresult pair rfl).2
  | mapped parser change, hp, older, run, s, ho, h, hd, hs, hr => by
    refine .note h ⟨h.orderly, hs, hr⟩ fun hn => ?_
    refine .bind (follow_yields hcall parser hp ho hn hd hs hr) ?_
    intro result run' hk hresult
    cases result with
    | none => exact .pure hk.sound (.none S _ _ _)
    | some m =>
      refine .bind (.lift hk.sound (change m.value)) ?_
      intro value run'' _ hvalue
      obtain ⟨-, rfl⟩ := hvalue
      exact .pure hk.sound (.some (hresult m rfl).1 (hresult m rfl).2)
  | opt parser, hp, older, run, s, ho, h, hd, hs, hr => by
    refine .note h ⟨h.orderly, hs, hr⟩ fun hn => ?_
    refine .bind (follow_yields hcall parser hp ho hn hd hs hr) ?_
    intro result run' hk hresult
    cases result with
    | none => exact .pure hk.sound (.some hs le_rfl)
    | some m => exact .pure hk.sound (hresult.mono (Nat.zero_le _))
  | many parser, hp, older, run, s, ho, h, hd, hs, hr => by
    refine .note h ⟨h.orderly, hs, hr⟩ fun hn => ?_
    refine .bind (followRepeat_yields (fun ho' h' hcalls' hs' hle => ?_) (s.remaining + 1) ho hn rfl
      hs le_rfl (Nat.lt_succ_self _)) ?_
    · have hr' : Heads S run.calls _ parser.heads := .further hs (fun _ => hr) hle
      have hyields := follow_yields hcall parser hp ho' h' (hcalls' ▸ hd) (hcalls' ▸ hs')
        (hcalls' ▸ hr')
      rw [hcalls'] at hyields
      exact hyields.imp fun _ _ _ htaken => htaken.shown
    · intro (rest, values) run' hk hpost
      exact .pure hk.sound (.some hpost.1 hpost.2)
  | ref rule, _, older, run, s, ho, h, hd, hs, hr =>
    .note h ⟨h.orderly, hs, hr⟩ fun hn => hcall ho hn hd hs ⟨_, List.mem_cons_self, rfl, rfl⟩
  | peek _, hp, _, _, _, _, _, _, _, _ | absent _, hp, _, _, _, _, _, _, _, _
  | .edit _, hp, _, _, _, _, _, _, _, _ | reveal, hp, _, _, _, _, _, _, _, _
  | probe _, hp, _, _, _, _, _, _, _, _ | .watch _ _, hp, _, _, _, _, _, _, _, _ =>
    absurd hp Bool.false_ne_true

theorem followFirst_yields (hcall : CallsYield S depth call) :
    ∀ (branches : List (Parser ρ)), areCombinators branches = true →
      ∀ {older : Nat} {run : Run ρ} {s : Cursor}, older ≤ run.session.frames.size → run.Sound S →
      depth + run.calls.length = S.depth → s.Shows S run.calls →
      Heads S run.calls s (headsFirst branches) →
      Yields S older run (followFirst call branches s) fun result _ =>
        Taken S run.calls s (leastFirst branches) result
  | [], _, older, run, s, ho, h, hd, hs, hr => .pure h (.none S _ _ _)
  | parser :: rest, hp, older, run, s, ho, h, hd, hs, hr => by
    obtain ⟨hparser, hrest⟩ := Bool.and_eq_true_iff.1 hp
    refine .bind (follow_yields hcall parser hparser ho h hd hs
      (hr.mono (List.subset_append_left _ _))) ?_
    intro result run' hk hresult
    have hcalls := hk.calls_eq
    cases result with
    | none =>
      cases rest with
      | nil => exact .pure hk.sound (.none S _ _ _)
      | cons next rest =>
        have hr' : Heads S run.calls s (headsFirst (next :: rest)) :=
          hr.mono (List.subset_append_right _ _)
        have hyields := followFirst_yields hcall (next :: rest) hrest (ho.trans hk.size_le) hk.sound
          (hcalls ▸ hd) (hcalls ▸ hs) (hcalls ▸ hr')
        rw [hcalls] at hyields
        exact hyields.imp fun answer run'' _ hanswer => hanswer.mono (Nat.min_le_right _ _)
    | some m =>
      refine .pure hk.sound (hresult.mono ?_)
      unfold leastFirst
      split
      · exact le_rfl
      · exact Nat.min_le_left _ _

theorem followAll_yields (hcall : CallsYield S depth call) :
    ∀ (items : List (Parser ρ)), areCombinators items = true →
      ∀ {older : Nat} {run : Run ρ} {s : Cursor}, older ≤ run.session.frames.size → run.Sound S →
      depth + run.calls.length = S.depth → s.Shows S run.calls →
      Heads S run.calls s (headsAll items) →
      Yields S older run (followAll call items s) fun result _ => ∀ pair, result = some pair →
        pair.1.Shows S run.calls ∧ pair.1.remaining + leastAll items ≤ s.remaining
  | [], _, older, run, s, ho, h, hd, hs, hr => by
    refine .pure h ?_
    intro pair hpair
    cases hpair
    exact ⟨hs, le_rfl⟩
  | parser :: rest, hp, older, run, s, ho, h, hd, hs, hr => by
    obtain ⟨hparser, hrest⟩ := Bool.and_eq_true_iff.1 hp
    refine .bind (follow_yields hcall parser hparser ho h hd hs
      (hr.mono (List.subset_append_left _ _))) ?_
    intro result run' hk hresult
    cases result with
    | none =>
      refine .pure hk.sound ?_
      intro pair hpair
      cases hpair
    | some m =>
      obtain ⟨hm, hle⟩ := hresult m rfl
      have hcalls := hk.calls_eq
      have hr' : Heads S run.calls m.rest (headsAll rest) := hr.after hs hle
      have hyields := followAll_yields hcall rest hrest (ho.trans hk.size_le) hk.sound
        (hcalls ▸ hd) (hcalls ▸ hm) (hcalls ▸ hr')
      rw [hcalls] at hyields
      refine .bind hyields ?_
      intro answer run'' hk' hanswer
      refine .pure hk'.sound ?_
      cases answer with
      | none =>
        intro pair hpair
        cases hpair
      | some pair =>
        intro pair' hpair
        cases hpair
        obtain ⟨hshows, hle'⟩ := hanswer pair rfl
        refine ⟨hshows, ?_⟩
        rw [leastAll]
        dsimp only
        omega

end

end Parser

/-- A body may call first what it may call first. -/
theorem Heads.of_rule {c : OpenCall ρ} {calls : List (OpenCall ρ)} {s : Cursor} {r : ρ}
    (hc : c.rule = r) : Heads S (c :: calls) s (S.grammar.rule r).body.heads := by
  intro d hd _
  cases hd
  rw [hc]
  exact List.Subset.refl _

/-- A call of a plain rule begins. -/
theorem Run.Sound.begin_plain {run : Run ρ} (h : run.Sound S) {r : ρ} {s : Cursor}
    (hs : s.Shows S run.calls) (hc : run.Asks r s) (hr : (S.grammar.rule r).guard = none) :
    Run.Sound S { run with calls := ⟨r, s.remaining, none⟩ :: run.calls } := by
  refine h.begin hs hc none (by rw [hr]; rfl) ?_
  intro i id hseat
  cases hseat

namespace Grammar

/-- The body of a rule keeps a run coherent if calls do. -/
theorem ruleYields {depth : Nat} (hcall : CallsYield S depth (S.grammar.followCall depth))
    {outer : List (OpenCall ρ)} (hd : depth + 1 + outer.length = S.depth) (r : ρ) (s : Cursor) :
    RuleYields S outer r s ((S.grammar.rule r).body.follow (S.grammar.followCall depth)) := by
  intro s' run older _ ho h hs hinside
  obtain ⟨c, hc, hcalls⟩ := hinside
  have hlength : depth + run.calls.length = S.depth := by
    rw [hcalls, List.length_cons]
    omega
  have hheads : Heads S run.calls s' (S.grammar.rule r).body.heads := hcalls ▸ Heads.of_rule hc
  have hbody := Parser.follow_yields hcall _ (S.combinators r) ho h hlength hs hheads
  exact hbody.imp fun _ _ _ htaken => htaken.shown

/-- Calls of rules keep a run coherent. -/
theorem followCall_yields (S : Setting ρ) (depth : Nat) :
    CallsYield S depth (S.grammar.followCall depth) := by
  induction depth with
  | zero =>
    intro older run r s _ h hd _ hc
    obtain ⟨m, hm, -, hcalls⟩ := hc
    refine ⟨.error .exhausted, run, rfl, .refl older h, fun _ => ⟨m, hm, ?_⟩, ?_⟩
    · rw [hcalls]
      omega
    · intro a ha
      cases ha
  | succ depth ih =>
    intro older run r s ho h hd hs hc
    have hbody := ruleYields ih hd r s
    rw [followCall]
    cases hr : (S.grammar.rule r).guard with
    | none =>
      have hopen := h.begin_plain hs hc hr
      refine .inside (.imp (hbody s _ older rfl ho hopen (hs.cons_plain le_rfl) ⟨_, rfl, rfl⟩) ?_)
        fun _ _ hresult => hresult
      intro result run' _ hshown m hm
      obtain ⟨hshows, hle⟩ := hshown m hm
      exact ⟨hshows.of_cons_plain, hle⟩
    | some guard => exact followGuarded_yields ho h hr hs hc hbody

end Grammar

/-- Nothing has happened in a session that agrees with the setting. -/
theorem Run.Sound.start {session : Session} (hh : session.Hosts S.grammar S.home)
    (hc : (session.registry S.home).capacity = S.capacity)
    (hv : (session.registry S.home).verbose = S.verbose)
    (hr : S.roomy → S.grammar.HasRoom (session.registry S.home)) :
    Run.Sound S ⟨session, [], []⟩ where
  hosts := hh
  capacity_eq := hc
  verbose_eq := hv
  room := hr
  seated c hc := by cases hc
  apart := .nil
  orderly := trivial
  moments m hm := by cases hm

/-- The setting of the runs of a grammar from a cursor in a session. -/
def Setting.start (g : Grammar ρ) (combinators : g.OfCombinators) (known : g.NamesKnown)
    (home : RegistryId) (session : Session) (s : Cursor) (depth : Nat) : Setting ρ where
  grammar := g
  combinators := combinators
  known := known
  home := home
  capacity := (session.registry home).capacity
  verbose := (session.registry home).verbose
  width := s.width
  length := s.remaining
  total := s.place.offset + s.remaining
  depth := depth
  tidy := ∀ p i, (s.frameAt p i).isSome = true → s.lit p i = true
  roomy := g.HasRoom (session.registry home) ∧ g.NamesHashable
  hashable h := h.2

namespace Setting

variable {g : Grammar ρ} {hg : g.OfCombinators} {hk : g.NamesKnown} {home : RegistryId}
  {session : Session} {s : Cursor} {depth : Nat}

theorem start_sound (hh : session.Hosts g home) :
    Run.Sound (start g hg hk home session s depth) ⟨session, [], []⟩ :=
  .start hh rfl rfl And.left

theorem start_shows (hs : s.Dark) : s.Shows (start g hg hk home session s depth) [] where
  behind c hc := by cases hc
  lit_iff p hp i := by simp [hs p hp i]
  frameAt_eq p _ c hc := by cases hc
  tidy ht p _ i hi := ht p i hi
  width_eq := rfl
  remaining_le := le_rfl
  total_eq := rfl

end Setting

/-- Runs that begin with no flag lit are coherent. -/
theorem Grammar.run_yields {g : Grammar ρ} (hg : g.OfCombinators) (hk : g.NamesKnown)
    {home : RegistryId} {session : Session} (hh : session.Hosts g home) {s : Cursor} (hs : s.Dark)
    (depth : Nat) {parser : Parser ρ} (hp : parser.isCombinator = true) :
    Yields (.start g hg hk home session s depth) 0 ⟨session, [], []⟩
      (parser.follow (g.followCall depth) s) fun result _ =>
        Taken (.start g hg hk home session s depth) [] s parser.least result := by
  have hcall := @followCall_yields ρ (.start g hg hk home session s depth) depth
  refine Parser.follow_yields hcall parser hp (Nat.zero_le _) (Setting.start_sound hh) rfl
    (Setting.start_shows hs) ?_
  intro c hc
  cases hc

end SeedGrowth
