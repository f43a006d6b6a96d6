import SeedGrowth.Proofs.Scope.Asking
import SeedGrowth.Proofs.Seeds.Outcome
import SeedGrowth.Proofs.Visit.Calls

/-!
# What the seeds of a call are by scopes

Inside a call that has adopted seeds its frame holds the last one, and the calls around it
are those of a scope: at first, and again after every adoption. So each evaluation of the
body comes out as its reading does with the last seed in scope, and the seeds that are
adopted are the results that grow there.
-/
namespace SeedGrowth

variable {ρ κ : Type} {key : ρ → κ} {told : Told key} {S : Setting ρ}

namespace Call

variable {call : Call} {r : ρ} {outer : List (OpenCall ρ)} {scope : Scope κ} {seeds : List Match}

/-- The state of a run inside a call that has adopted seeds. -/
structure Growing (key : ρ → κ) (S : Setting ρ) (call : Call) (r : ρ) (outer : List (OpenCall ρ))
    (scope : Scope κ) (seeds : List Match) (run : Run ρ) : Prop where
  sound : run.Sound S
  calls_eq : run.calls = call.opened r :: outer
  covers : scope.Covers key { run with calls := outer }
  holds : call.Holds seeds run.session
  ascends : call.Ascends seeds

/-- The result of an evaluation of the body is the one that is read with the last seed in
scope, and the run is left inside the call. -/
structure Growing.Read (reading : Option Found → Account κ (Option Found)) (key : ρ → κ)
    (S : Setting ρ) (call : Call) (r : ρ) (outer : List (OpenCall ρ)) (scope : Scope κ)
    (seeds : List Match) (result : Option Match) (run : Run ρ) : Prop where
  growing : Growing key S call r outer scope seeds run
  shown : Shown S (call.opened r :: outer) call.position result
  outcome_eq : (reading (seeds.head?.map Match.found)).outcome = .ok (result.map Match.found)

variable {body : Eval (Option Match)} {followed : Followed ρ (Option Match)}
  {reading : Option Found → Account κ (Option Found)} {run : Run ρ}

/-- An evaluation of the body that goes well. -/
theorem Growing.evaluated (h : Growing key S call r outer scope seeds run)
    (hfollows : Follows followed body)
    (hyields : call.BodyYields S (call.opened r :: outer) followed)
    (hmirrors : call.BodyMirrors told S r outer scope followed reading) {result : Option Match}
    {σ : Session} (hbody : body run.session = (.ok result, σ)) :
    ∃ run', run'.session = σ ∧
      Growing.Read reading key S call r outer scope seeds result run' := by
  obtain ⟨answer, run', hrun, hresult⟩ := hmirrors h.sound h.calls_eq h.covers
  obtain ⟨_, _, hrun', hkept, -, hshown⟩ :=
    hyields.keeping le_rfl h.sound h.calls_eq h.holds.frame_lt
  rw [hrun] at hrun'
  cases hrun'
  have heval := hfollows.eq_of_eq hrun
  rw [hbody] at heval
  cases heval
  obtain ⟨hshown, hkeeps⟩ := hshown result rfl
  refine ⟨run', rfl, ⟨hkept.sound, hkept.calls_eq.trans h.calls_eq,
    covers_outer h.sound h.calls_eq hkept h.covers,
    h.holds.keeps (h.holds.frame_lt.trans_le hkept.size_le) hkeeps, h.ascends⟩, hshown, ?_⟩
  rcases hresult with ⟨fault, hfault, -⟩ | ⟨-, houtcome⟩
  · cases hfault
  · rw [← h.holds.best_eq]
    exact houtcome.symm

/-- A result that is longer than the last seed is adopted. -/
theorem Growing.Read.adopted (hv : call.verbose = S.verbose) {result : Option Match}
    (h : Growing.Read reading key S call r outer scope seeds result run) {round : Nat}
    {frame : Frame} {σ σ' : Session} {m : Match}
    (hreview : call.review round result run.session = (.ok frame, σ))
    (hlonger : call.longer? frame result = some m) (hadopt : call.adopt m σ = (.ok (), σ')) :
    result = some m ∧ ∃ run', run'.session = σ' ∧
      Growing key S call r outer scope (m :: seeds) run' := by
  obtain ⟨hgrowing, hshown, -⟩ := h
  cases frame_of_review hreview
  obtain ⟨rfl, hlt⟩ := hgrowing.holds.lt_of_longer? hlonger
  obtain ⟨-, -, hfurther⟩ := of_longer? hlonger
  obtain ⟨hkept, -⟩ := (review_step call.frame hgrowing.sound hv round (some m)).of_ok hreview
  have hseed : m.rest.Shows S [] := (hshown m rfl).1.further
    (fun c hc => lt_of_lt_of_le hfurther (behind_opened hgrowing.sound hgrowing.calls_eq c hc))
    (by simp)
  obtain ⟨hkept', -⟩ :=
    (adopt_step le_rfl hkept.sound hgrowing.calls_eq hseed hfurther).of_ok hadopt
  refine ⟨rfl, _, rfl, hkept'.sound, hgrowing.calls_eq, ?_, ?_, hgrowing.ascends.cons hlt⟩
  · exact covers_outer hgrowing.sound hgrowing.calls_eq (hkept.trans hkept') hgrowing.covers
  · exact (hgrowing.holds.same (sameStore_of_review hreview)).adopt hadopt

/-- Wherever a call has adopted seeds, it is inside the run. -/
theorem Adopts.growing (hv : call.verbose = S.verbose) (hfollows : Follows followed body)
    (hyields : call.BodyYields S (call.opened r :: outer) followed)
    (hmirrors : call.BodyMirrors told S r outer scope followed reading)
    (hstart : Growing key S call r outer scope [] run) {σ : Session}
    (h : call.Adopts body run.session seeds σ) :
    ∃ run', run'.session = σ ∧ Growing key S call r outer scope seeds run' := by
  induction h with
  | first => exact ⟨run, rfl, hstart⟩
  | further _ hbody _ hreview hlonger hadopt ih =>
    obtain ⟨run₁, rfl, hgrowing⟩ := ih
    obtain ⟨run₂, rfl, hread⟩ := hgrowing.evaluated hfollows hyields hmirrors hbody
    exact (hread.adopted hv hreview hlonger hadopt).2

/-- A seed is the result of the evaluation before it. -/
theorem Adopts.exists_read (hv : call.verbose = S.verbose) (hfollows : Follows followed body)
    (hyields : call.BodyYields S (call.opened r :: outer) followed)
    (hmirrors : call.BodyMirrors told S r outer scope followed reading)
    (hstart : Growing key S call r outer scope [] run) {m : Match} {σ : Session}
    (h : call.Adopts body run.session (m :: seeds) σ) :
    (reading (seeds.head?.map Match.found)).outcome = .ok (some m.found) := by
  cases h with
  | further h₀ hbody _ hreview hlonger hadopt =>
    obtain ⟨run₁, rfl, hgrowing⟩ := h₀.growing hv hfollows hyields hmirrors hstart
    obtain ⟨run₂, rfl, hread⟩ := hgrowing.evaluated hfollows hyields hmirrors hbody
    obtain ⟨rfl, -⟩ := hread.adopted hv hreview hlonger hadopt
    exact hread.outcome_eq

/-- Inside a call that has just begun there are no seeds. -/
theorem Begun.growing {s s' : Cursor} {σ : Session} (hb : call.Begun S run r s s' σ)
    (h : run.Sound S) (hscope : scope.Covers key run) :
    Growing key S call r run.calls scope [] { run with
      session := σ.modifyRegistry call.registry fun r => { r with level := r.level + 1 },
      calls := call.opened r :: run.calls } where
  sound := (Kept.session_same 0 hb.sound (.level _ _ fun r => r.level + 1) rfl).sound
  calls_eq := rfl
  covers := hscope.congr rfl fun c hc i id hseat =>
    congrArg Frame.best (hb.frame_of_lt (h.seated c hc i id hseat).lt_size)
  holds := by
    have hlt : call.frame < σ.frames.size := frame_lt hb.sound rfl
    exact ⟨hlt, hb.fresh.best_eq, hb.fresh.length_eq⟩
  ascends := ⟨.nil, fun m hm => by cases hm⟩

variable [DecidableEq κ] {g : Grammar ρ} {home : RegistryId} {session σ σ' : Session}
  {s s' : Cursor} {guard : Guard} {depth : Nat}

/-- The seeds of a call at a cursor that shows no open call ascend, and each of them is what
is read with the one before in scope. -/
theorem Enters.reads (h : call.Enters guard.name guard.registry s session s' σ)
    (hlives : g.LivesIn home session) (hkey : g.KeysFit key) (hr : (g.rule r).guard = some guard)
    (hs : s.Dark) (hadopts : call.Adopts ((g.rule r).body.eval (g.call depth) s') σ seeds σ') :
    call.Ascends seeds ∧ ∀ m earlier, seeds = m :: earlier →
      (g.readBody key depth r s.point (earlier.head?.map Match.found)).outcome =
        .ok (some m.found) := by
  obtain ⟨arrival, σ₁, σ₂, harrive, hidle, hbegin, rfl⟩ := h
  let S : Setting ρ :=
    .start g hlives.combinators hlives.known home session s (depth + 1)
  let run : Run ρ := Run.noted ⟨session, [], []⟩ (.handed (.ref r) s)
  have hstart : Run.Sound S ⟨session, [], []⟩ := Setting.start_sound hlives.hosts
  have hshows : s.Shows S [] := Setting.start_shows hs
  have hsound : run.Sound S := hstart.handed hshows fun c hc => by cases hc
  have hseeded : run.Seeded := fun c outer hsuffix => by cases List.suffix_nil.1 hsuffix
  have hcalling : run.Calling S depth r s :=
    ⟨hsound, hseeded, hshows, ⟨_, List.mem_cons_self, rfl, rfl⟩, rfl⟩
  obtain ⟨hcalling₁, hfaces⟩ := hcalling.arrived hr harrive
  have hb := hcalling₁.begun hr hfaces hidle hbegin
  have hscope : (Scope.empty s.remaining : Scope κ).Covers key { run with session := σ₁ } :=
    (Scope.Covers.start σ₁ _).congr rfl fun c hc => by cases hc
  have hfollows := Parser.follows_follow (g.follows_followCall depth) (g.rule r).body s'
  have hyields : call.BodyYields S (call.opened r :: run.calls)
      ((g.rule r).body.follow (g.followCall depth) s') :=
    hb.bodyYields (Grammar.ruleYields (Grammar.followCall_yields S depth) rfl r s)
  have hmirrors : call.BodyMirrors (.calls key) S r run.calls (.empty s.remaining)
      ((g.rule r).body.follow (g.followCall depth) s') (g.readBody key depth r s.point) :=
    hb.bodyMirrors rfl rfl (Grammar.ruleMirrors (Grammar.followCall_mirrors hkey depth) rfl r s)
  have hgrowing := hb.growing hcalling₁.sound hscope
  obtain ⟨run', rfl, hgrown⟩ :=
    hadopts.growing hb.verbose_eq hfollows hyields hmirrors hgrowing
  refine ⟨hgrown.ascends, ?_⟩
  rintro m earlier rfl
  exact hadopts.exists_read hb.verbose_eq hfollows hyields hmirrors hgrowing

end Call

end SeedGrowth
