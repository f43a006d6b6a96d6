import SeedGrowth.Proofs.Restoration.Basic
import SeedGrowth.Proofs.Visit.Basic

/-!
# The rounds of a call

What the steps of a guarded call do to a session if they go well, and the evaluations of the body
that a call is made up of then: a single one, or those of a loop, each with the session before
and the session after it. They are the evaluations that there are, and what they keep, like the
steps between them, a call keeps.
-/
namespace SeedGrowth

/-! ### Steps that go well -/

/-- The session after an event, which a verbose registry has added to the trace. -/
def Session.recorded (σ : Session) (verbose : Bool) (event : TraceEvent) : Session :=
  if verbose then { σ with trace := σ.trace.push event } else σ

/-- The session after a frame has been marked. -/
def Session.marked (σ : Session) (id : FrameId) : Session :=
  { σ with frames := σ.frames.modify id fun frame => { frame with reentered := true } }

theorem Session.sameStore_recorded (σ : Session) (verbose : Bool) (event : TraceEvent) :
    σ.SameStore (σ.recorded verbose event) := by
  unfold recorded
  split <;> exact ⟨rfl, rfl, rfl⟩

theorem Eval.eq_of_trace {verbose : Bool} {event : TraceEvent} {σ σ' : Session}
    (h : Eval.trace verbose event σ = (.ok (), σ')) : σ' = σ.recorded verbose event := by
  cases verbose with
  | false =>
    cases h
    rfl
  | true =>
    cases htext : event.text with
    | ok text =>
      simp only [trace, htext] at h
      cases h
      rfl
    | error fault =>
      simp only [trace, htext] at h
      cases h

/-- The answer to a call that finds its flag set. -/
theorem Arrival.eq_of_answer {arrival : Arrival} {σ σ' : Session} {result : Option Match}
    (h : arrival.answer σ = (.ok result, σ')) :
    (arrival.anchor.frame? arrival.flag = none ∧ result = none ∧ σ' = σ) ∨
      ∃ id, arrival.anchor.frame? arrival.flag = some id ∧
        result = ((σ.marked id).frame id).best ∧
        σ' = (σ.marked id).recorded arrival.verbose
          (.seeded arrival.level arrival.name ((σ.marked id).frame id).bestValue) := by
  unfold answer at h
  cases hframe : arrival.anchor.frame? arrival.flag with
  | none =>
    rw [hframe] at h
    cases h
    exact .inl ⟨rfl, rfl, rfl⟩
  | some id =>
    rw [hframe] at h
    obtain ⟨_, σ₁, hmark, h⟩ := Program.exists_of_bind h
    cases hmark
    obtain ⟨frame, σ₂, hread, h⟩ := Program.exists_of_bind h
    cases hread
    obtain ⟨_, σ₃, htrace, h⟩ := Program.exists_of_bind h
    cases h
    exact .inr ⟨id, rfl, rfl, Eval.eq_of_trace htrace⟩

/-- The session after a call has entered its frame. -/
def Arrival.begun (arrival : Arrival) (s : Cursor) (σ : Session) : Session :=
  { σ with frames := σ.frames.push (.begin arrival.name arrival.flag arrival.position) }.recorded
    arrival.verbose (.entered arrival.level arrival.name s.fragment)

theorem Arrival.frames_begun (arrival : Arrival) (s : Cursor) (σ : Session) :
    (arrival.begun s σ).frames =
      σ.frames.push (.begin arrival.name arrival.flag arrival.position) :=
  (Session.sameStore_recorded ..).frames

theorem Arrival.eq_of_begin {arrival : Arrival} {s s' : Cursor} {σ σ' : Session} {call : Call}
    (h : arrival.begin s σ = (.ok (call, s'), σ')) :
    call = arrival.call σ.frames.size ∧ σ' = arrival.begun s σ := by
  obtain ⟨frame, σ₁, hnew, h⟩ := Program.exists_of_bind h
  cases hnew
  obtain ⟨flags, σ₂, hset, h⟩ := Program.exists_of_bind h
  obtain ⟨-, rfl⟩ := Eval.eq_of_lift hset
  obtain ⟨_, σ₃, htrace, h⟩ := Program.exists_of_bind h
  cases h
  exact ⟨rfl, Eval.eq_of_trace htrace⟩

/-! ### Rounds -/

namespace Call

/-- The session after a round has been reported. -/
def reviewed (call : Call) (number : ℕ) (result : Option Match) (σ : Session) : Session :=
  σ.recorded call.verbose (.evaluated call.level call.name call.position number (valueOf result))

/-- Why there is no round after a result. -/
def closing (call : Call) (best : Option Value) : Option Match → TraceEvent
  | none => .failed call.level best
  | some _ => .bailed call.level best

/-- The session after a match has been adopted. -/
def adopted (call : Call) (m : Match) (σ : Session) : Session :=
  { σ with frames := σ.frames.modify call.frame fun frame =>
      { frame with best := some m, length := m.consumed call.position } }

/-- An evaluation of the body of a call. -/
structure Round where
  first : Session
  result : Option Match
  last : Session

/-- The rounds of a call from one on, all of which leave its frame marked, until a result is not
longer than the best match. -/
inductive Grows (call : Call) (body : Eval (Option Match)) :
    ℕ → Session → List Round → Option Match → Session → Prop where
  | settle {number σ result σ₁} : body σ = (.ok result, σ₁) →
      (σ₁.frame call.frame).reentered = true →
      call.longer? (σ₁.frame call.frame) result = none →
      Grows call body number σ [⟨σ, result, σ₁⟩] (σ₁.frame call.frame).best
        ((call.reviewed number result σ₁).recorded call.verbose
          (call.closing (σ₁.frame call.frame).bestValue result))
  | adopt {number σ result σ₁ m rounds best σ₂} : body σ = (.ok result, σ₁) →
      (σ₁.frame call.frame).reentered = true →
      call.review number result σ₁ =
        (.ok (σ₁.frame call.frame), call.reviewed number result σ₁) →
      call.longer? (σ₁.frame call.frame) result = some m →
      Grows call body (number + 1) (call.adopted m (call.reviewed number result σ₁)) rounds best
        σ₂ →
      Grows call body number σ (⟨σ, result, σ₁⟩ :: rounds) best σ₂

/-- All rounds of a call: a single one if the rule was not asked for again. -/
inductive Passes (call : Call) (body : Eval (Option Match)) (σ : Session) :
    List Round → Option Match → Session → Prop where
  | once {result σ₁} : body σ = (.ok result, σ₁) → (σ₁.frame call.frame).reentered = false →
      Passes call body σ [⟨σ, result, σ₁⟩] result σ₁
  | grown {rounds best σ₁} : Grows call body 1 σ rounds best σ₁ → Passes call body σ rounds best σ₁

variable {call : Call} {body : Eval (Option Match)} {σ σ' σ₁ : Session} {result : Option Match}
  {number : ℕ}

theorem eq_of_review {frame : Frame} (h : call.review number result σ = (.ok frame, σ')) :
    frame = σ.frame call.frame ∧ σ' = call.reviewed number result σ := by
  obtain ⟨_, σ₁, htrace, h⟩ := Program.exists_of_bind h
  cases h
  cases Eval.eq_of_trace htrace
  exact ⟨(Session.sameStore_recorded σ _ _).frame _, rfl⟩

theorem eq_of_adopt {m : Match} (h : call.adopt m σ = (.ok (), σ')) : σ' = call.adopted m σ := by
  cases h
  rfl

theorem eq_of_finish {answer : Option Match} (h : call.finish result σ = (.ok answer, σ')) :
    σ' = σ.recorded call.verbose (.left call.level call.name (valueOf result)) ∧
      ∀ m, answer = some m → ∃ m', result = some m' ∧ m'.leave call.flag = .ok m := by
  obtain ⟨_, σ₁, htrace, hrest⟩ := Program.exists_of_bind h
  cases Eval.eq_of_trace htrace
  constructor
  · cases result with
    | none =>
      cases hrest
      rfl
    | some m =>
      dsimp only at hrest
      cases hleave : m.leave call.flag with
      | error fault =>
        rw [hleave] at hrest
        cases hrest
      | ok m' =>
        rw [hleave] at hrest
        cases hrest
        rfl
  · rintro m rfl
    exact exists_of_finish h

theorem keepsMarks_adopted (call : Call) (m : Match) (σ : Session) :
    σ.KeepsMarks (call.adopted m σ) :=
  .modify σ call.frame fun _ hmark => hmark

namespace Grows

variable {rounds : List Round} {best : Option Match} {round : Round} {k : ℕ}

theorem body_eq (h : call.Grows body number σ rounds best σ') :
    ∀ round ∈ rounds, body round.first = (.ok round.result, round.last) := by
  induction h with
  | settle hbody _ _ =>
    intro round hround
    cases List.mem_singleton.1 hround
    exact hbody
  | adopt hbody _ _ _ _ ih =>
    intro round hround
    rcases List.mem_cons.1 hround with rfl | hround
    · exact hbody
    · exact ih round hround

theorem marked (h : call.Grows body number σ rounds best σ') :
    ∀ round ∈ rounds, (round.last.frame call.frame).reentered = true := by
  induction h with
  | settle _ hmarked _ =>
    intro round hround
    cases List.mem_singleton.1 hround
    exact hmarked
  | adopt _ hmarked _ _ _ ih =>
    intro round hround
    rcases List.mem_cons.1 hround with rfl | hround
    · exact hmarked
    · exact ih round hround

theorem best_eq (h : call.Grows body number σ rounds best σ') :
    best = (σ'.frame call.frame).best := by
  induction h with
  | settle _ _ _ =>
    rw [(Session.sameStore_recorded _ _ _).frame, reviewed,
      (Session.sameStore_recorded _ _ _).frame]
  | adopt _ _ _ _ _ ih => exact ih

theorem exists_first (h : call.Grows body number σ rounds best σ') :
    ∃ round, rounds[0]? = some round ∧ round.first = σ := by
  cases h with
  | settle => exact ⟨_, rfl, rfl⟩
  | adopt => exact ⟨_, rfl, rfl⟩

/-- After a round whose result is longer there is another one. -/
theorem exists_next (h : call.Grows body number σ rounds best σ') {m : Match}
    (hround : rounds[k]? = some round)
    (hlonger : call.longer? (round.last.frame call.frame) round.result = some m) :
    ∃ next, rounds[k + 1]? = some next ∧
      next.first = call.adopted m (call.reviewed (number + k) round.result round.last) := by
  induction h generalizing k with
  | settle _ _ hnone =>
    cases k with
    | zero =>
      cases hround
      rw [hnone] at hlonger
      cases hlonger
    | succ k => cases hround
  | adopt _ _ _ hsome hgrows ih =>
    cases k with
    | zero =>
      cases hround
      rw [hsome] at hlonger
      cases hlonger
      exact hgrows.exists_first
    | succ k =>
      obtain ⟨next, hnext, hfirst⟩ := ih hround
      refine ⟨next, hnext, ?_⟩
      rw [hfirst, Nat.add_right_comm, Nat.add_assoc]

/-- Before a round that is not the first one the result was longer. -/
theorem exists_previous (h : call.Grows body number σ rounds best σ')
    (hround : rounds[k + 1]? = some round) :
    ∃ previous m, rounds[k]? = some previous ∧
      call.longer? (previous.last.frame call.frame) previous.result = some m ∧
      call.review (number + k) previous.result previous.last =
        (.ok (previous.last.frame call.frame),
          call.reviewed (number + k) previous.result previous.last) ∧
      round.first = call.adopted m (call.reviewed (number + k) previous.result previous.last) := by
  induction h generalizing k with
  | settle => cases hround
  | adopt _ _ hreview hsome hgrows ih =>
    cases k with
    | zero =>
      obtain ⟨first, hfirst, heq⟩ := hgrows.exists_first
      rw [List.getElem?_cons_succ, hfirst] at hround
      cases hround
      exact ⟨_, _, rfl, hsome, hreview, heq⟩
    | succ k =>
      obtain ⟨previous, m, hprevious, hlonger, hreviewed, hfirst⟩ := ih hround
      rw [Nat.add_right_comm, Nat.add_assoc] at hreviewed hfirst
      exact ⟨previous, m, hprevious, hlonger, hreviewed, hfirst⟩

/-- What tracing, the rounds and the adoptions between them keep. -/
theorem keeps {K : Session → Prop} (h : call.Grows body number σ rounds best σ')
    (htrace : ∀ τ event, K τ → K (τ.recorded call.verbose event))
    (hround : ∀ round ∈ rounds, K round.first → K round.last)
    (hadopt : ∀ round ∈ rounds, ∀ m τ, K round.first → K τ → τ.frames = round.last.frames →
      call.longer? (τ.frame call.frame) round.result = some m → K (call.adopted m τ))
    (hσ : K σ) : K σ' ∧ ∀ round ∈ rounds, K round.first := by
  induction h with
  | settle _ _ _ =>
    have hlast := hround _ List.mem_cons_self hσ
    refine ⟨htrace _ _ (htrace _ _ hlast), fun round hmem => ?_⟩
    cases List.mem_singleton.1 hmem
    exact hσ
  | @adopt number σ result σ₁ m rounds best σ₂ _ _ _ hsome hgrows ih =>
    have hlast := hround _ List.mem_cons_self hσ
    have hsame : σ₁.SameStore (call.reviewed number result σ₁) := Session.sameStore_recorded ..
    have hnext := hadopt _ List.mem_cons_self m _ hσ (htrace _ _ hlast) hsame.frames
      ((hsame.frame _).symm ▸ hsome)
    obtain ⟨hend, hfirsts⟩ := ih (fun round hmem => hround round (List.mem_cons_of_mem _ hmem))
      (fun round hmem => hadopt round (List.mem_cons_of_mem _ hmem)) hnext
    refine ⟨hend, fun round hmem => ?_⟩
    rcases List.mem_cons.1 hmem with rfl | hmem
    · exact hσ
    · exact hfirsts round hmem

end Grows

namespace Passes

variable {rounds : List Round}

theorem body_eq (h : call.Passes body σ rounds result σ') :
    ∀ round ∈ rounds, body round.first = (.ok round.result, round.last) := by
  cases h with
  | once hbody _ =>
    intro round hround
    cases List.mem_singleton.1 hround
    exact hbody
  | grown hgrows => exact hgrows.body_eq

theorem exists_first (h : call.Passes body σ rounds result σ') :
    ∃ round, rounds[0]? = some round ∧ round.first = σ := by
  cases h with
  | once => exact ⟨_, rfl, rfl⟩
  | grown hgrows => exact hgrows.exists_first

/-- A call gives the result of its single round, or the best match in its frame. -/
theorem result_eq (h : call.Passes body σ rounds result σ') :
    (∃ round ∈ rounds, result = round.result ∧ σ' = round.last) ∨
      result = (σ'.frame call.frame).best := by
  cases h with
  | once => exact .inl ⟨_, List.mem_cons_self, rfl, rfl⟩
  | grown hgrows => exact .inr hgrows.best_eq

theorem keeps {K : Session → Prop} (h : call.Passes body σ rounds result σ')
    (htrace : ∀ τ event, K τ → K (τ.recorded call.verbose event))
    (hround : ∀ round ∈ rounds, K round.first → K round.last)
    (hadopt : ∀ round ∈ rounds, ∀ m τ, K round.first → K τ → τ.frames = round.last.frames →
      call.longer? (τ.frame call.frame) round.result = some m → K (call.adopted m τ))
    (hσ : K σ) : K σ' ∧ ∀ round ∈ rounds, K round.first := by
  cases h with
  | once =>
    refine ⟨hround _ List.mem_cons_self hσ, fun round hmem => ?_⟩
    cases List.mem_singleton.1 hmem
    exact hσ
  | grown hgrows => exact hgrows.keeps htrace hround hadopt hσ

/-- The rounds are where the body is evaluated. -/
theorem evaluates_iff (h : call.Passes body σ rounds result σ') {k : ℕ} {σₖ : Session} :
    call.Evaluates body σ k σₖ ↔ ∃ round, rounds[k]? = some round ∧ round.first = σₖ := by
  constructor
  · intro he
    induction he with
    | first => exact h.exists_first
    | @again k σ₁ σ₂ σ₃ σ₄ result₁ frame m _ hbody hmarked hreview hlonger hadopt ih =>
      obtain ⟨round, hround, rfl⟩ := ih
      have hrun := h.body_eq round (List.mem_of_getElem? hround)
      rw [hbody] at hrun
      cases hrun
      obtain ⟨rfl, rfl⟩ := eq_of_review hreview
      cases eq_of_adopt hadopt
      cases h with
      | once hbody' hidle =>
        -- A single round is the first one, and has left no mark.
        cases k with
        | zero =>
          cases hround
          rw [hmarked] at hidle
          cases hidle
        | succ k => cases hround
      | grown hgrows =>
        obtain ⟨next, hnext, hfirst⟩ := hgrows.exists_next hround hlonger
        rw [Nat.add_comm 1 k] at hfirst
        exact ⟨next, hnext, hfirst⟩
  · rintro ⟨round, hround, rfl⟩
    induction k generalizing round with
    | zero =>
      obtain ⟨first, hfirst, heq⟩ := h.exists_first
      rw [hround] at hfirst
      cases hfirst
      exact heq ▸ .first
    | succ k ih =>
      cases h with
      | once => cases hround
      | grown hgrows =>
        obtain ⟨previous, m, hprevious, hlonger, hreview, hfirst⟩ := hgrows.exists_previous hround
        have hmem := List.mem_of_getElem? hprevious
        rw [Nat.add_comm 1 k] at hreview hfirst
        exact .again (ih previous hprevious) (hgrows.body_eq previous hmem)
          (hgrows.marked previous hmem) hreview hlonger (congrArg (Prod.mk _) hfirst.symm)

end Passes

end Call

end SeedGrowth
