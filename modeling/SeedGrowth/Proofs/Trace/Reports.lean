import SeedGrowth.Proofs.Seeds.Outcome
import SeedGrowth.Proofs.Trace.Levels
import SeedGrowth.Proofs.Trace.Nesting
import SeedGrowth.Proofs.Visit.Anchors

/-!
# What traces tell of calls

A report is about a call if it has what each evaluation of the body of the call traces and comes
to, and says that they are reported if and only if the call was asked for during the first of
them. The rounds of a call make up such a report, and what they trace is what it has inside of
it.
-/
namespace SeedGrowth

variable {ρ : Type} {g : Grammar ρ} {home : RegistryId} {level n : ℕ} {σ σ' : Session}

open Session TraceEvent

/-! ### What reports are about -/

/-- In what a visit leads to, a call finds the flag of an unfinished call set, at its position.
The event of that is traced after the events before. -/
def Grammar.Seeds (g : Grammar ρ) (call : Call) (v : Visit ρ) (before : List TraceEvent)
    (event : TraceEvent) : Prop :=
  ∃ u arrival τ best, Relation.ReflTransGen g.Leads v u ∧ g.Answers u arrival τ ∧
    arrival.registry = call.registry ∧ arrival.flag = call.flag ∧
    arrival.position = call.position ∧ event = .seeded arrival.level arrival.name best ∧
    u.session.trace.toList = v.session.trace.toList ++ before ∧
    τ.trace.toList = u.session.trace.toList ++ [event]

/-- The report is about a call that evaluates its body for the first time in a visit. It has what
each evaluation of the body traces and comes to, and says that they are reported if and only if
the call was asked for during the first of them. -/
structure Report.Recounts (report : Report) (g : Grammar ρ) (call : Call) (v : Visit ρ) : Prop where
  name_eq : report.name = call.name
  position_eq : report.position = call.position
  length_iff : ∀ k, (∃ σ, call.Evaluates (v.parser.eval (g.call v.depth) v.cursor) v.session k σ) ↔
    k < report.rounds.length
  round : ∀ k σ, call.Evaluates (v.parser.eval (g.call v.depth) v.cursor) v.session k σ →
    ∃ events result τ, v.parser.eval (g.call v.depth) v.cursor σ = (.ok result, τ) ∧
      τ.trace.toList = σ.trace.toList ++ events ∧
      report.rounds[k]? = some (events, Call.valueOf result)
  grown_iff : report.grown = true ↔ ∃ before event after value,
    report.rounds[0]? = some (before ++ event :: after, value) ∧ g.Seeds call v before event

/-- In a run a guarded rule is called, and the call begins: it evaluates the body of the rule for
the first time in a visit. -/
inductive Grammar.Opens (g : Grammar ρ) (start : Visit ρ) :
    Call → Cursor → Session → Visit ρ → Prop where
  | called {depth r s σ guard call s' σ'} :
      Relation.ReflTransGen g.Leads start ⟨depth + 1, .ref r, s, σ⟩ →
      (g.rule r).guard = some guard → Call.Enters call guard.name guard.registry s σ s' σ' →
      Opens g start call s σ ⟨depth, (g.rule r).body, s', σ'⟩

/-- A call that begins in the run, at the level and after so many events, is what the report is
about. -/
def Grammar.Tells (g : Grammar ρ) (start : Visit ρ) (index level : ℕ) (report : Report) : Prop :=
  ∃ call s σ v, g.Opens start call s σ v ∧ σ.trace.size = index ∧ call.level = level ∧
    report.ahead = s.fragment ∧ report.Recounts g call v

/-! ### The trace of the rounds of a call -/

namespace Call

variable {call : Call} {body : Eval (Option Match)} {rounds : List Round} {best : Option Match}

/-- What is traced in a round. -/
def Round.events (round : Round) : List TraceEvent :=
  round.last.trace.toList.drop round.first.trace.size

/-- What is traced in a round, and the value of its result. -/
def Round.entry (round : Round) : List TraceEvent × Option Value :=
  (round.events, valueOf round.result)

theorem Round.events_eq {round : Round} {events : List TraceEvent}
    (h : round.last.trace.toList = round.first.trace.toList ++ events) : round.events = events := by
  rw [Round.events, h, ← Array.length_toList, List.drop_left]

theorem Round.trace_eq {round : Round} (h : round.first.Continues round.last) :
    round.last.trace.toList = round.first.trace.toList ++ round.events := by
  obtain ⟨events, hevents⟩ := h.trace
  rw [Round.events_eq hevents.symm, hevents]

/-- What the trace tells of a call with such rounds. -/
def report (call : Call) (ahead : List Char) (rounds : List Round) (best : Option Match) :
    Report where
  name := call.name
  ahead := ahead
  position := call.position
  rounds := rounds.map Round.entry
  grown := rounds.head?.any fun round => (round.last.frame call.frame).reentered
  result := valueOf best

theorem closing_eq {report : Report} (h : report.result = valueOf best) (result : Option Match) :
    report.closing call.level (valueOf result) = call.closing (valueOf best) result := by
  cases result
  · exact congrArg (TraceEvent.failed call.level) h
  · exact congrArg (TraceEvent.bailed call.level) h

theorem toList_trace_reviewed (hv : call.verbose = true) (number : ℕ) (result : Option Match)
    (σ : Session) : (call.reviewed number result σ).trace.toList = σ.trace.toList ++
      [.evaluated call.level call.name call.position number (valueOf result)] := by
  rw [reviewed, hv, toList_trace_recorded]

/-- The rounds of a loop are traced one after the other, each with a report, and at the end why
there is no other one. -/
theorem Grows.traced {Tells : ℕ → ℕ → Report → Prop} {report : Report} {number : ℕ}
    (h : call.Grows body number σ rounds best σ') (hv : call.verbose = true)
    (hname : report.name = call.name) (hposition : report.position = call.position)
    (hresult : report.result = valueOf best)
    (hround : ∀ round ∈ rounds, round.first.Continues round.last ∧
      Nested Tells round.first.trace.size level round.events) :
    σ'.trace.toList = σ.trace.toList ++
        report.growth call.level number (rounds.map Round.entry) ∧
      Nested Tells σ.trace.size level
        (report.growth call.level number (rounds.map Round.entry)) := by
  induction h with
  | @settle number σ result σ₁ _ _ _ =>
    obtain ⟨hcontinues, hnested⟩ := hround _ List.mem_cons_self
    have htrace := Round.trace_eq hcontinues
    have hevaluated : Report.growth report call.level number
        [Round.entry ⟨σ, result, σ₁⟩] = Round.events ⟨σ, result, σ₁⟩ ++
          ([.evaluated call.level call.name call.position number (valueOf result)] ++
            [call.closing (σ₁.frame call.frame).bestValue result]) := by
      rw [← hname, ← hposition]
      exact congrArg (fun event => _ ++ [_, event]) (closing_eq hresult result)
    rw [List.map_singleton, hevaluated]
    constructor
    · rw [hv, toList_trace_recorded, call.toList_trace_reviewed hv, htrace]
      simp only [List.append_assoc]
    · refine hnested.append ((Nested.single rfl).append (Nested.single ?_))
      cases result <;> rfl
  | @adopt number σ result σ₁ m rounds best σ₂ _ _ _ _ hgrows ih =>
    obtain ⟨hcontinues, hnested⟩ := hround _ List.mem_cons_self
    have htrace := Round.trace_eq hcontinues
    have hreviewed : (call.adopted m (call.reviewed number result σ₁)).trace.toList = _ :=
      call.toList_trace_reviewed hv number result σ₁
    have hsize : (call.adopted m (call.reviewed number result σ₁)).trace.size =
        σ.trace.size + (Round.events ⟨σ, result, σ₁⟩).length + 1 := by
      rw [size_trace_eq hreviewed, size_trace_eq htrace]
      rfl
    obtain ⟨hend, hrest⟩ := ih hresult fun round hmem => hround round (List.mem_cons_of_mem _ hmem)
    have hne : rounds.map Round.entry ≠ [] := by
      obtain ⟨first, hfirst, -⟩ := hgrows.exists_first
      intro hnil
      rw [List.map_eq_nil_iff.1 hnil] at hfirst
      cases hfirst
    rw [List.map_cons, report.growth_cons call.level number _ hne, hname, hposition]
    constructor
    · rw [hend, hreviewed, htrace]
      simp only [List.append_assoc, List.cons_append, List.nil_append]
      rfl
    · rw [hsize] at hrest
      exact hnested.append ((Nested.single rfl).append hrest)

/-- What a call traces while it is evaluated is what its report has inside of it. -/
theorem Passes.traced {Tells : ℕ → ℕ → Report → Prop} (h : call.Passes body σ rounds best σ')
    (hv : call.verbose = true) (ahead : List Char)
    (hround : ∀ round ∈ rounds, round.first.Continues round.last ∧
      Nested Tells round.first.trace.size level round.events) :
    σ'.trace.toList = σ.trace.toList ++ (call.report ahead rounds best).inside call.level ∧
      Nested Tells σ.trace.size level ((call.report ahead rounds best).inside call.level) := by
  cases h with
  | @once _ _ hbody hidle =>
    obtain ⟨hcontinues, hnested⟩ := hround _ List.mem_cons_self
    have hinside : (call.report ahead [⟨σ, best, σ'⟩] best).inside call.level =
        Round.events ⟨σ, best, σ'⟩ := by
      simp [Report.inside, report, hidle, Round.entry]
    rw [hinside]
    exact ⟨Round.trace_eq hcontinues, hnested⟩
  | grown hgrows =>
    have hinside : (call.report ahead rounds best).inside call.level =
        (call.report ahead rounds best).growth call.level 1 (rounds.map Round.entry) := by
      obtain ⟨round, hround, -⟩ := hgrows.exists_first
      have hmarked := hgrows.marked round (List.mem_of_getElem? hround)
      have hgrown : (call.report ahead rounds best).grown = true := by
        simp only [report, List.head?_eq_getElem?, hround, Option.any_some, hmarked]
      rw [Report.inside, if_pos hgrown]
      rfl
    rw [hinside]
    exact hgrows.traced hv rfl rfl rfl hround

end Call

/-! ### What is told of a call -/

namespace Grammar

/-- A call that is answered from a frame leaves that in the trace. -/
theorem Answers.trace_eq {u : Visit ρ} {arrival : Arrival} {τ : Session} {id : FrameId}
    (h : g.Answers u arrival τ) (hu : u.session.Watches g home level)
    (hfound : arrival.anchor.frame? arrival.flag = some id) :
    arrival.registry = home ∧ ∃ best,
      τ.trace.toList = u.session.trace.toList ++ [.seeded arrival.level arrival.name best] := by
  cases h with
  | @called _ _ _ _ _ _ σ₁ _ _ hr harrive _ hanswer =>
    obtain ⟨-, hhome, -, hverbose⟩ := hu.arrive hr harrive
    rcases Arrival.eq_of_answer hanswer with ⟨hnone, -⟩ | ⟨id', -, -, rfl⟩
    · rw [hfound] at hnone
      cases hnone
    · refine ⟨hhome, ((σ₁.marked id').frame id').bestValue, ?_⟩
      rw [hverbose, toList_trace_recorded]
      exact congrArg (fun trace => trace.toList ++ _) (trace_of_arrive harrive)

/-- A call is answered from the frame of a call at its position and with its flag. -/
theorem Answers.frame_eq {u : Visit ρ} {arrival : Arrival} {τ : Session} {id : FrameId}
    {pins : List Pin} (h : g.Answers u arrival τ) (hu : u.Anchored n pins)
    (hfound : arrival.anchor.frame? arrival.flag = some id) :
    arrival.position = (u.session.frame id).position ∧
      arrival.flag = (u.session.frame id).flag := by
  cases h with
  | called hr harrive _ hanswer =>
    obtain ⟨-, hmeets⟩ := meets_of_arrive harrive
    rw [hmeets.frame?_eq] at hfound
    obtain ⟨-, -, hposition, hflag⟩ := hu.cursor.tied _ _ id le_rfl hfound
    exact ⟨hmeets.position_eq.trans hposition.symm, hflag.symm⟩

end Grammar

/-- The frame of a call is marked in the first evaluation of its body if and only if that has
traced that the call was asked for. -/
theorem Call.Starts.marked_iff {call : Call} {s : Cursor} {v : Visit ρ} {result : Option Match}
    (h : call.Starts n [] s v.cursor v.session) (hv : v.session.Watches g home level)
    (hhome : call.registry = home) (hcourse : g.Course v result σ) :
    (σ.frame call.frame).reentered = true ↔ ∃ before event after,
      σ.trace.toList = v.session.trace.toList ++ (before ++ event :: after) ∧
        g.Seeds call v before event := by
  have hanchored : v.Anchored n [⟨call.position, call.flag, call.frame⟩] := ⟨h.session, h.cursor⟩
  constructor
  · intro hmarked
    rcases hcourse.exists_answers h.seated.frame_lt hmarked with
      hbefore | ⟨u, arrival, τ, hu, hanswers, hfound⟩
    · rw [h.unmarked] at hbefore
      cases hbefore
    · obtain ⟨_, hwatches⟩ := hcourse.reached_watches hv hu
      obtain ⟨last, σ', hlast, hcontinues, hafter⟩ := hcourse.reached hu
      obtain rfl := hanswers.eq_of_course hlast
      obtain ⟨hregistry, best, htrace⟩ := hanswers.trace_eq hwatches hfound
      obtain ⟨hposition, hflag⟩ :=
        hanswers.frame_eq (hcourse.reached_anchored hanchored hu) hfound
      have hseated := h.seated.mono hcontinues
      obtain ⟨before, hbefore⟩ := hcontinues.trace
      obtain ⟨after, hafter⟩ := hafter.trace
      refine ⟨before, _, after, ?_, u, arrival, _, best, hu, hanswers, hregistry.trans hhome.symm,
        hflag.trans hseated.flag_eq, hposition.trans hseated.position_eq, rfl, hbefore.symm,
        htrace⟩
      rw [← hafter, htrace, ← hbefore]
      simp only [List.append_assoc, List.cons_append, List.nil_append]
  · rintro ⟨before, event, after, -, u, arrival, τ, best, hu, hanswers, -, hflag, hposition, -⟩
    exact hcourse.marked_of_answers hanchored List.mem_cons_self hu hanswers hflag hposition

/-- The report of a call is about it. -/
theorem Call.Passes.recounts {call : Call} {s : Cursor} {v : Visit ρ} {rounds : List Call.Round}
    {best : Option Match} (h : call.Passes (v.parser.eval (g.call v.depth) v.cursor) v.session
      rounds best σ) (hstarts : call.Starts n [] s v.cursor v.session)
    (hv : v.session.Watches g home level) (hhome : call.registry = home)
    (hcourses : ∀ round ∈ rounds,
      g.Course { v with session := round.first } round.result round.last) (ahead : List Char) :
    (call.report ahead rounds best).Recounts g call v where
  name_eq := rfl
  position_eq := rfl
  length_iff k := by
    simp only [h.evaluates_iff, Call.report, List.length_map]
    constructor
    · rintro ⟨_, round, hround, -⟩
      exact (List.getElem?_eq_some_iff.1 hround).1
    · intro hk
      exact ⟨_, _, List.getElem?_eq_getElem hk, rfl⟩
  round k τ hτ := by
    obtain ⟨round, hround, rfl⟩ := h.evaluates_iff.1 hτ
    have hmem := List.mem_of_getElem? hround
    refine ⟨round.events, round.result, round.last, h.body_eq round hmem,
      Call.Round.trace_eq (hcourses round hmem).continues, ?_⟩
    rw [Call.report, List.getElem?_map, hround]
    rfl
  grown_iff := by
    obtain ⟨first, hfirst, heq⟩ := h.exists_first
    have hcourse := hcourses first (List.mem_of_getElem? hfirst)
    rw [heq] at hcourse
    have hgrown : (call.report ahead rounds best).grown =
        (first.last.frame call.frame).reentered := by
      simp only [Call.report, List.head?_eq_getElem?, hfirst, Option.any_some]
    have hround : (call.report ahead rounds best).rounds[0]? = some first.entry := by
      rw [Call.report, List.getElem?_map, hfirst]
      rfl
    have htrace : first.last.trace.toList = v.session.trace.toList ++ first.events := by
      rw [← heq]
      exact Call.Round.trace_eq (heq ▸ hcourse.continues)
    rw [hgrown, hstarts.marked_iff hv hhome hcourse, hround, htrace]
    simp only [List.append_cancel_left_eq]
    constructor
    · rintro ⟨before, event, after, hevents, hseeds⟩
      refine ⟨before, event, after, Call.valueOf first.result, ?_, hseeds⟩
      rw [Call.Round.entry, hevents]
    · rintro ⟨before, event, after, value, hentry, hseeds⟩
      exact ⟨before, event, after, congrArg Prod.fst (Option.some.inj hentry), hseeds⟩

end SeedGrowth
