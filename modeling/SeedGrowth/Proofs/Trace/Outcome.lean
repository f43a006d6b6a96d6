import SeedGrowth.Proofs.Trace.Lines
import SeedGrowth.Proofs.Trace.Reports
import SeedGrowth.Proofs.Unguarded.Outcome

/-!
# The trace of a run is nested

Where all guarded rules use one registry, which is verbose, a run that goes well traces a
bracketing. Every call that begins ends, at its level and around all that it traces, and its
evaluations are reported, from the first to the last, if and only if the best match so far was
asked for at its position during the first of them. All of that is printed, with the events shown
by what stands in the lines.
-/
namespace SeedGrowth

variable {ρ : Type} {g : Grammar ρ} {home : RegistryId} {level n : ℕ} {σ σ' σ'' : Session}

open Session TraceEvent
open CommandLine.Job (traceText)

/-- From the one session to the other there is a nested trace at the level. -/
def Session.Adds (Tells : ℕ → ℕ → Report → Prop) (level : ℕ) (σ σ' : Session) : Prop :=
  ∃ events, σ'.trace.toList = σ.trace.toList ++ events ∧
    Nested Tells σ.trace.size level events ∧ ∀ event ∈ events, level ≤ event.level

namespace Session.Adds

variable {Tells : ℕ → ℕ → Report → Prop}

theorem of_trace (h : σ'.trace = σ.trace) : σ.Adds Tells level σ' :=
  ⟨[], by simp [h], .nil, by simp⟩

theorem recorded (σ : Session) {event : TraceEvent} (hchange : event.change = 0)
    (hlevel : event.level = level) : σ.Adds Tells level (σ.recorded true event) := by
  refine ⟨[event], toList_trace_recorded σ event, .single hchange, fun event' hevent => ?_⟩
  rw [List.mem_singleton.1 hevent, hlevel]

theorem trans (h : σ.Adds Tells level σ') (h' : σ'.Adds Tells level σ'') :
    σ.Adds Tells level σ'' := by
  obtain ⟨events, htrace, hnested, hlevel⟩ := h
  obtain ⟨events', htrace', hnested', hlevel'⟩ := h'
  rw [size_trace_eq htrace] at hnested'
  refine ⟨events ++ events', ?_, hnested.append hnested', fun event hevent => ?_⟩
  · rw [htrace', htrace, List.append_assoc]
  · rcases List.mem_append.1 hevent with hevent | hevent
    · exact hlevel event hevent
    · exact hlevel' event hevent

/-- A round adds its events. -/
theorem of_round {round : Call.Round} (h : round.first.Adds Tells level round.last) :
    Nested Tells round.first.trace.size level round.events ∧
      ∀ event ∈ round.events, level ≤ event.level := by
  obtain ⟨events, htrace, hnested, hlevel⟩ := h
  rw [Call.Round.events_eq htrace]
  exact ⟨hnested, hlevel⟩

end Session.Adds

/-- A call whose rounds add nested traces one level deeper adds what its report says. -/
theorem Call.Passes.adds {Tells : ℕ → ℕ → Report → Prop} {call : Call}
    {body : Eval (Option Match)} {rounds : List Call.Round} {best : Option Match}
    {s : Cursor} {σ₁ σ₂ : Session} (h : call.Passes body σ₁ rounds best σ₂)
    (hv : call.verbose = true) (hlevel : call.level = level)
    (hround : ∀ round ∈ rounds, round.first.Continues round.last ∧
      round.first.Adds Tells (level + 1) round.last)
    (htells : Tells σ.trace.size level (call.report s.fragment rounds best))
    (hbegun : σ₁.trace.toList = σ.trace.toList ++ [.entered call.level call.name s.fragment])
    (hended : σ'.trace.toList = σ₂.trace.toList ++ [.left call.level call.name (valueOf best)]) :
    σ.Adds Tells level σ' := by
  subst hlevel
  have hdeepens : (call.report s.fragment rounds best).Deepens call.level := by
    intro round hround' event hevent
    obtain ⟨round, hmem, rfl⟩ := List.mem_map.1 hround'
    exact (hround round hmem).2.of_round.2 event hevent
  obtain ⟨hinside, hnested⟩ := h.traced hv s.fragment fun round hmem =>
    ⟨(hround round hmem).1, (hround round hmem).2.of_round.1⟩
  rw [size_trace_eq hbegun] at hnested
  refine ⟨_, ?_, hnested.called htells hdeepens, fun event hevent => ?_⟩
  · rw [hended, hinside, hbegun]
    simp only [Report.events, Call.report, List.append_assoc, List.cons_append, List.nil_append]
  · rw [Report.events, List.mem_cons, List.mem_append, List.mem_singleton] at hevent
    rcases hevent with rfl | hevent | rfl
    · exact le_rfl
    · exact hdeepens.enclosed.le_level event hevent
    · exact le_rfl

namespace Grammar.Course

variable {start v : Visit ρ} {result : Option Match}

/-- An evaluation that is come to in the run adds a nested trace, at the level where it
begins. -/
theorem adds (h : g.Course v result σ) (hr : Relation.ReflTransGen g.Leads start v)
    (hv : v.Anchored n []) (hw : v.session.Watches g home level) :
    v.session.Adds (g.Tells start) level σ := by
  induction h generalizing level with
  | still => exact .of_trace rfl
  | @once v w last result σ _ hleads hcursor hsession hcourse _ ih =>
    have hl := (hleads w).2 rfl
    rw [← hsession] at hw ⊢
    exact ih (hr.tail hl) ⟨hsession ▸ hv.session, hcursor ▸ hsession ▸ hv.cursor⟩ hw
  | @twice v w w' first last result σ σ' hplain hleads hcursor hsession hcourse hcursor' hsession'
      hcourse' hrest ih ih' =>
    have hl := (hleads w).2 (.inl rfl)
    have hl' := (hleads w').2 (.inr rfl)
    have hwhole := Grammar.Course.twice hplain hleads hcursor hsession hcourse hcursor' hsession'
      hcourse' hrest
    obtain ⟨-, hanchored⟩ := hwhole.anchored_and_leads hv
    rw [← hsession] at hw ⊢
    have hw' := (hcourse.watches_and_leads hw).1
    rw [← hsession'] at hw'
    have hfirst := ih (hr.tail hl) (hanchored w hl) hw
    have hlast := ih' (hr.tail hl') (hanchored w' hl') hw'
    rw [hsession'] at hlast
    exact hfirst.trans hlast
  | @answered depth r s σ guard arrival σ₁ result σ₂ hguard harrive hactive hanswer =>
    obtain ⟨-, -, hlevel, hverbose⟩ := hw.arrive hguard harrive
    have hfound : σ.Adds (g.Tells start) level σ₁ := .of_trace (trace_of_arrive harrive)
    rcases Arrival.eq_of_answer hanswer with ⟨-, -, rfl⟩ | ⟨id, -, -, rfl⟩
    · exact hfound
    · have hmarked : σ₁.Adds (g.Tells start) level (σ₁.marked id) := .of_trace rfl
      rw [hverbose]
      exact hfound.trans (hmarked.trans (.recorded _ rfl hlevel))
  | @evaluated depth r s σ guard arrival σ₁ call s' σ₂ rounds best σ₃ result σ₄ hguard harrive
      hidle hbegin hpasses hcourses hfinish ih =>
    have hwhole := Grammar.Course.evaluated hguard harrive hidle hbegin hpasses hcourses hfinish
    have hstarts := Call.starts_of_begin hv.session hv.cursor harrive hidle hbegin
    obtain ⟨-, hanchored⟩ := hwhole.anchored_and_leads hv
    obtain ⟨hσ₁, hhome, hlevel, hverbose⟩ := hw.arrive hguard harrive
    have hcall := (Arrival.eq_of_begin hbegin).1
    have hregistry : call.registry = home := hcall ▸ hhome
    have hcalllevel : call.level = level := hcall ▸ hlevel
    have hcallverbose : call.verbose = true := hcall ▸ hverbose
    have hbegun : σ₂ = arrival.begun s σ₁ := (Arrival.eq_of_begin hbegin).2
    -- Each round finds the registry one level deeper, and adds what it traces there.
    have hdeeper := (hσ₁.begun arrival s).relevel hregistry (· + 1)
    rw [← hbegun] at hdeeper
    have hopens : g.Opens start call s σ _ :=
      .called hr hguard ⟨arrival, σ₁, σ₂, harrive, hidle, hbegin, rfl⟩
    have hround : ∀ round ∈ rounds, round.first.Continues round.last ∧
        round.first.Adds (g.Tells start) (level + 1) round.last := by
      intro round hmem
      have hl := hpasses.leads_round hguard harrive hidle hbegin hmem
      have hfirst := (hpasses.watches
        (fun round hmem hfirst => ((hcourses round hmem).watches_and_leads hfirst).1)
        hdeeper).2 round hmem
      exact ⟨(hcourses round hmem).continues, ih round hmem (hr.tail hl) (hanchored _ hl) hfirst⟩
    have htells : g.Tells start σ.trace.size level (call.report s.fragment rounds best) :=
      ⟨call, s, σ, _, hopens, rfl, hcalllevel, rfl,
        hpasses.recounts hstarts hdeeper hregistry hcourses s.fragment⟩
    refine hpasses.adds hcallverbose hcalllevel hround htells ?_ ?_
    · change σ₂.trace.toList = _
      rw [hbegun, hcall]
      exact Arrival.toList_trace_begun harrive hverbose
    · rw [(Call.eq_of_finish hfinish).1, hcallverbose, toList_trace_recorded]
      rfl

end Grammar.Course

end SeedGrowth
