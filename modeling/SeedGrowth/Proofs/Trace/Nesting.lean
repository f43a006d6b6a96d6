import Mathlib.Data.Int.Notation
import Mathlib.Data.Nat.Notation
import SeedGrowth.Grammar.Trace

/-!
# Nested traces

A trace is a bracketing: a call opens a bracket where it begins and closes it where it ends.
Between the two stands what the evaluations of its body trace, which is deeper, and what is
reported of these evaluations at the level of the call: nothing if it was not asked for again,
and otherwise each of them, by its number, and why there is not another one. Traces that are
nested stay so one after the other, and inside a call.
-/
namespace SeedGrowth

namespace TraceEvent

/-- How many calls are unfinished more after the event than before. -/
def change : TraceEvent → ℤ
  | entered .. => 1
  | left .. => -1
  | seeded .. | evaluated .. | failed .. | bailed .. => 0

/-- The event is about the evaluations of the body of a call at the level. -/
def IsGrowth (level : ℕ) : TraceEvent → Prop
  | evaluated l .. | failed l _ | bailed l _ => l = level
  | entered .. | seeded .. | left .. => False

/-- How many calls are begun and not finished. -/
def unfinished : List TraceEvent → ℤ
  | [] => 0
  | event :: events => event.change + unfinished events

/-- The events may stand between the beginning and the end of a call at the level. -/
def Enclosed (level : ℕ) (events : List TraceEvent) : Prop :=
  ∀ event ∈ events, level < event.level ∨ event.IsGrowth level

@[simp] theorem unfinished_nil : unfinished [] = 0 := rfl

@[simp] theorem unfinished_cons (event : TraceEvent) (events : List TraceEvent) :
    unfinished (event :: events) = event.change + unfinished events := rfl

@[simp] theorem unfinished_append (events events' : List TraceEvent) :
    unfinished (events ++ events') = unfinished events + unfinished events' := by
  induction events with
  | nil => simp
  | cons event events ih =>
    rw [List.cons_append, unfinished_cons, unfinished_cons, ih]
    omega

end TraceEvent

open TraceEvent

/-- What a trace tells of a call of a guarded rule. -/
structure Report where
  name : Value
  /-- The text ahead where the call begins. -/
  ahead : List Char
  position : ℕ
  /-- What is traced in each evaluation of the body, and the value of its result. -/
  rounds : List (List TraceEvent × Option Value)
  /-- The evaluations are reported. -/
  grown : Bool
  result : Option Value

namespace Report

/-- Why there is no further evaluation after a result. -/
def closing (report : Report) (level : ℕ) : Option Value → TraceEvent
  | none => .failed level report.result
  | some _ => .bailed level report.result

/-- Evaluations with what is reported of them, numbered from the given number on. -/
def growth (report : Report) (level : ℕ) :
    ℕ → List (List TraceEvent × Option Value) → List TraceEvent
  | _, [] => []
  | number, [(events, value)] =>
    events ++ [.evaluated level report.name report.position number value,
      report.closing level value]
  | number, (events, value) :: rest =>
    events ++ .evaluated level report.name report.position number value ::
      report.growth level (number + 1) rest

/-- The trace between the beginning and the end of the call. -/
def inside (report : Report) (level : ℕ) : List TraceEvent :=
  if report.grown then report.growth level 1 report.rounds
  else report.rounds.flatMap Prod.fst

/-- The trace of the call. -/
def events (report : Report) (level : ℕ) : List TraceEvent :=
  .entered level report.name report.ahead ::
    (report.inside level ++ [.left level report.name report.result])

/-- What the evaluations of the body trace is deeper than the call. -/
def Deepens (report : Report) (level : ℕ) : Prop :=
  ∀ round ∈ report.rounds, ∀ event ∈ round.1, level < event.level

/-- After the beginning of the call the trace goes on with what is inside of the call and with
its end, and there is no other end that it could have. -/
structure Closes (report : Report) (level : ℕ) (after : List TraceEvent) : Prop where
  deepens : report.Deepens level
  ends : ∃ rest, after = report.inside level ++ .left level report.name report.result :: rest
  once : ∀ inside name result rest, after = inside ++ .left level name result :: rest →
    Enclosed level inside → inside = report.inside level

variable {report : Report} {level : ℕ}

theorem growth_cons (report : Report) (level number : ℕ) (round : List TraceEvent × Option Value)
    {rest : List (List TraceEvent × Option Value)} (h : rest ≠ []) :
    report.growth level number (round :: rest) =
      round.1 ++ .evaluated level report.name report.position number round.2 ::
        report.growth level (number + 1) rest := by
  cases rest with
  | nil => exact absurd rfl h
  | cons next rest => rfl

theorem isGrowth_closing (report : Report) (level : ℕ) (value : Option Value) :
    (report.closing level value).IsGrowth level := by
  cases value <;> rfl

/-- Evaluations that are reported are enclosed if they are deeper. -/
theorem enclosed_growth (report : Report) (level : ℕ) :
    ∀ (rounds : List (List TraceEvent × Option Value)) (number : ℕ),
      (∀ round ∈ rounds, ∀ event ∈ round.1, level < event.level) →
      Enclosed level (report.growth level number rounds) := by
  intro rounds
  induction rounds with
  | nil =>
    intro number _ event hevent
    cases hevent
  | cons round rest ih =>
    intro number h event hevent
    have hround := h round List.mem_cons_self
    cases rest with
    | nil =>
      simp only [growth, List.mem_append, List.mem_cons, List.not_mem_nil, or_false] at hevent
      rcases hevent with hevent | rfl | rfl
      · exact .inl (hround event hevent)
      · exact .inr rfl
      · exact .inr (report.isGrowth_closing level round.2)
    | cons next rest =>
      rw [report.growth_cons level number round (List.cons_ne_nil _ _), List.mem_append,
        List.mem_cons] at hevent
      rcases hevent with hevent | rfl | hevent
      · exact .inl (hround event hevent)
      · exact .inr rfl
      · exact ih (number + 1) (fun round hround => h round (List.mem_cons_of_mem _ hround)) event
          hevent

theorem Deepens.enclosed (h : report.Deepens level) : Enclosed level (report.inside level) := by
  unfold inside
  split
  · exact report.enclosed_growth level report.rounds 1 h
  · intro event hevent
    obtain ⟨round, hround, hmem⟩ := List.mem_flatMap.1 hevent
    exact .inl (h round hround event hmem)

end Report

/-- The end of a call at the level is not enclosed by it. -/
theorem TraceEvent.Enclosed.left_not_mem {level : ℕ} {events : List TraceEvent}
    (h : Enclosed level events) {name : Value} {result : Option Value} :
    TraceEvent.left level name result ∉ events := by
  intro hmem
  rcases h _ hmem with hlt | hgrowth
  · exact Nat.lt_irrefl level hlt
  · exact hgrowth

/-- What is enclosed is at the level or deeper. -/
theorem TraceEvent.Enclosed.le_level {level : ℕ} {events : List TraceEvent}
    (h : Enclosed level events) : ∀ event ∈ events, level ≤ event.level := by
  intro event hevent
  rcases h event hevent with hlt | hgrowth
  · exact Nat.le_of_lt hlt
  · cases event with
    | evaluated | failed | bailed => exact Nat.le_of_eq hgrowth.symm
    | entered | seeded | left => exact hgrowth.elim

/-- The first end of a call at the level closes it. -/
theorem TraceEvent.Enclosed.eq_of_append {level : ℕ} {events events' rest rest' : List TraceEvent}
    {name name' : Value} {result result' : Option Value} (h : Enclosed level events)
    (h' : Enclosed level events')
    (heq : events ++ .left level name result :: rest =
      events' ++ .left level name' result' :: rest') : events = events' := by
  induction events generalizing events' with
  | nil =>
    cases events' with
    | nil => rfl
    | cons event events' =>
      obtain ⟨rfl, -⟩ := List.cons_eq_cons.1 heq
      exact absurd List.mem_cons_self h'.left_not_mem
  | cons event events ih =>
    cases events' with
    | nil =>
      obtain ⟨rfl, -⟩ := List.cons_eq_cons.1 heq
      exact absurd List.mem_cons_self h.left_not_mem
    | cons event' events' =>
      obtain ⟨rfl, htail⟩ := List.cons_eq_cons.1 heq
      rw [ih (fun e he => h e (List.mem_cons_of_mem _ he))
        (fun e he => h' e (List.mem_cons_of_mem _ he)) htail]

/-- Where what is inside of a call is deeper, its end closes it. -/
theorem Report.Deepens.closes {report : Report} {level : ℕ} (h : report.Deepens level)
    (rest : List TraceEvent) :
    report.Closes level
      (report.inside level ++ .left level report.name report.result :: rest) where
  deepens := h
  ends := ⟨rest, rfl⟩
  once := fun _ _ _ _ heq henclosed => henclosed.eq_of_append h.enclosed heq.symm

theorem Report.Closes.append {report : Report} {level : ℕ} {after : List TraceEvent}
    (h : report.Closes level after) (rest : List TraceEvent) :
    report.Closes level (after ++ rest) := by
  obtain ⟨rest', rfl⟩ := h.ends
  rw [List.append_assoc]
  exact h.deepens.closes (rest' ++ rest)

/-- Where an element stands in two lists, one after the other. -/
theorem exists_of_append_eq {α : Type} {xs ys before after : List α} {a : α}
    (h : xs ++ ys = before ++ a :: after) :
    (∃ rest, xs = before ++ a :: rest ∧ after = rest ++ ys) ∨
      ∃ rest, before = xs ++ rest ∧ ys = rest ++ a :: after := by
  rcases List.append_eq_append_iff.1 h with ⟨rest, hbefore, hys⟩ | ⟨rest, hxs, hafter⟩
  · exact .inr ⟨rest, hbefore, hys⟩
  · cases rest with
    | nil =>
      rw [List.append_nil] at hxs
      exact .inr ⟨[], by simp [hxs], hafter.symm⟩
    | cons b rest =>
      obtain ⟨rfl, rfl⟩ := List.cons_eq_cons.1 hafter
      exact .inl ⟨rest, hxs, rfl⟩

theorem eq_of_singleton_eq_append {α : Type} {before after : List α} {a b : α}
    (h : [b] = before ++ a :: after) : before = [] ∧ a = b := by
  cases before with
  | nil =>
    cases h
    exact ⟨rfl, rfl⟩
  | cons c before =>
    obtain ⟨-, h⟩ := List.cons_eq_cons.1 h
    simp at h

/-- The trace is a bracketing: no call ends that has not begun, and all that begin end. A call
begins at the level of the trace and of the calls that are unfinished then, it is told of by a
report, and it ends as that says; and where a call ends, it began. What is told of a call may
depend on how many events there are before it, in the trace and before the trace. -/
structure Nested (Tells : ℕ → ℕ → Report → Prop) (first level : ℕ) (events : List TraceEvent) :
    Prop where
  settled : unfinished events = 0
  sane : ∀ before after, events = before ++ after → 0 ≤ unfinished before
  level_eq : ∀ (before : List TraceEvent) (l : ℕ) (name : Value) (ahead : List Char) after,
    events = before ++ .entered l name ahead :: after → (l : ℤ) = level + unfinished before
  told : ∀ before l name ahead after, events = before ++ .entered l name ahead :: after →
    ∃ report, Tells (first + before.length) l report ∧ report.name = name ∧
      report.ahead = ahead ∧ report.Closes l after
  opened : ∀ before l name result after, events = before ++ .left l name result :: after →
    ∃ start ahead inside, before = start ++ .entered l name ahead :: inside ∧ Enclosed l inside

namespace Nested

variable {Tells : ℕ → ℕ → Report → Prop} {first level : ℕ} {events events' : List TraceEvent}

theorem nil : Nested Tells first level [] where
  settled := rfl
  sane := by
    intro before after h
    obtain ⟨rfl, -⟩ := List.append_eq_nil_iff.1 h.symm
    exact Int.le_refl 0
  level_eq := by simp
  told := by simp
  opened := by simp

/-- An event that neither begins nor ends a call. -/
theorem single {event : TraceEvent} (h : event.change = 0) : Nested Tells first level [event] where
  settled := by simp [h]
  sane := by
    intro before after heq
    rcases List.cons_eq_append_iff.1 heq with ⟨rfl, -⟩ | ⟨rest, rfl, hrest⟩
    · exact Int.le_refl 0
    · obtain ⟨rfl, -⟩ := List.append_eq_nil_iff.1 hrest.symm
      simp [h]
  level_eq := by
    intro before l name ahead after heq
    obtain ⟨-, rfl⟩ := eq_of_singleton_eq_append heq
    cases h
  told := by
    intro before l name ahead after heq
    obtain ⟨-, rfl⟩ := eq_of_singleton_eq_append heq
    cases h
  opened := by
    intro before l name result after heq
    obtain ⟨-, rfl⟩ := eq_of_singleton_eq_append heq
    cases h

/-- One trace after the other. -/
theorem append (h : Nested Tells first level events)
    (h' : Nested Tells (first + events.length) level events') :
    Nested Tells first level (events ++ events') where
  settled := by rw [unfinished_append, h.settled, h'.settled, Int.add_zero]
  sane := by
    intro before after heq
    rcases List.append_eq_append_iff.1 heq with ⟨rest, rfl, hrest⟩ | ⟨rest, hevents, -⟩
    · rw [unfinished_append, h.settled, Int.zero_add]
      exact h'.sane rest after hrest
    · exact h.sane before rest hevents
  level_eq := by
    intro before l name ahead after heq
    rcases exists_of_append_eq heq with ⟨rest, hevents, -⟩ | ⟨rest, rfl, hevents⟩
    · exact h.level_eq before l name ahead rest hevents
    · rw [unfinished_append, h.settled, Int.zero_add]
      exact h'.level_eq rest l name ahead after hevents
  told := by
    intro before l name ahead after heq
    rcases exists_of_append_eq heq with ⟨rest, hevents, rfl⟩ | ⟨rest, rfl, hevents⟩
    · obtain ⟨report, htells, hname, hahead, hcloses⟩ := h.told before l name ahead rest hevents
      exact ⟨report, htells, hname, hahead, hcloses.append _⟩
    · rw [List.length_append, ← Nat.add_assoc]
      exact h'.told rest l name ahead after hevents
  opened := by
    intro before l name result after heq
    rcases exists_of_append_eq heq with ⟨rest, hevents, -⟩ | ⟨rest, rfl, hevents⟩
    · exact h.opened before l name result rest hevents
    · obtain ⟨start, ahead, inside, rfl, henclosed⟩ := h'.opened rest l name result after hevents
      exact ⟨events ++ start, ahead, inside, (List.append_assoc ..).symm, henclosed⟩

/-- A call around a trace that is one level deeper. -/
theorem called {report : Report} (htells : Tells first level report)
    (hdeepens : report.Deepens level)
    (h : Nested Tells (first + 1) (level + 1) (report.inside level)) :
    Nested Tells first level (report.events level) where
  settled := by simp [Report.events, h.settled, change]
  sane := by
    intro before after heq
    rcases List.cons_eq_append_iff.1 heq with ⟨rfl, -⟩ | ⟨rest, rfl, hrest⟩
    · exact Int.le_refl 0
    · rw [unfinished_cons, change]
      rcases List.append_eq_append_iff.1 hrest with ⟨rest', rfl, hend⟩ | ⟨rest', hinside, -⟩
      · -- The call may have ended, too.
        rw [unfinished_append, h.settled]
        rcases List.cons_eq_append_iff.1 hend with ⟨rfl, -⟩ | ⟨last, rfl, hlast⟩
        · simp
        · obtain ⟨rfl, -⟩ := List.append_eq_nil_iff.1 hlast.symm
          simp [change]
      · have := h.sane rest rest' hinside
        omega
  level_eq := by
    intro before l name ahead after heq
    rw [Report.events, List.cons_eq_append_iff] at heq
    rcases heq with ⟨rfl, heq⟩ | ⟨rest, rfl, heq⟩
    · cases heq
      simp
    · rcases exists_of_append_eq heq with ⟨rest', hinside, -⟩ | ⟨rest', rfl, hend⟩
      · have := h.level_eq rest l name ahead rest' hinside
        rw [unfinished_cons, change]
        push_cast at this
        omega
      · obtain ⟨-, hend⟩ := eq_of_singleton_eq_append hend
        cases hend
  told := by
    intro before l name ahead after heq
    rw [Report.events, List.cons_eq_append_iff] at heq
    rcases heq with ⟨rfl, heq⟩ | ⟨rest, rfl, heq⟩
    · cases heq
      exact ⟨report, htells, rfl, rfl, hdeepens.closes []⟩
    · rcases exists_of_append_eq heq with ⟨rest', hinside, rfl⟩ | ⟨rest', rfl, hend⟩
      · obtain ⟨report', htells', hname, hahead, hcloses⟩ :=
          h.told rest l name ahead rest' hinside
        refine ⟨report', ?_, hname, hahead, hcloses.append _⟩
        rw [List.length_cons, Nat.add_comm rest.length, ← Nat.add_assoc]
        exact htells'
      · obtain ⟨-, hend⟩ := eq_of_singleton_eq_append hend
        cases hend
  opened := by
    intro before l name result after heq
    rw [Report.events, List.cons_eq_append_iff] at heq
    rcases heq with ⟨rfl, heq⟩ | ⟨rest, rfl, heq⟩
    · cases heq
    · rcases exists_of_append_eq heq with ⟨rest', hinside, -⟩ | ⟨rest', rfl, hend⟩
      · obtain ⟨start, ahead, inside, rfl, henclosed⟩ :=
          h.opened rest l name result rest' hinside
        exact ⟨_ :: start, ahead, inside, rfl, henclosed⟩
      · obtain ⟨rfl, hend⟩ := eq_of_singleton_eq_append hend
        cases hend
        refine ⟨[], report.ahead, report.inside level, ?_, hdeepens.enclosed⟩
        rw [List.append_nil, List.nil_append]

end Nested

end SeedGrowth
