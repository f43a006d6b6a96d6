import SeedGrowth.Calculator.Grammar
import SeedGrowth.Proofs.Grammar.Parsing
import SeedGrowth.Proofs.Room.Faults
import SeedGrowth.Proofs.Room.Names
import SeedGrowth.Proofs.Verbosity.Outcome
import SeedGrowth.Proofs.Visit.Outcome

/-!
# Parsing with a registry that may be full

While a source is parsed, flags have numbers that there are on every cursor, so that none is out
of range. The parse ends for want of room just if a rule is called on the way that needs a flag
while there is none left, which does not come about where all names have room. Otherwise it does
not matter how much room there is.
-/
namespace SeedGrowth

variable {ρ : Type} {g : Grammar ρ} {parser : Parser ρ} {request : Request} {home : RegistryId}
  {σ : Session} {v v' : Visit ρ} {fault : Fault}

/-- A place was asked for that there is not, among flags or items. -/
def Fault.isOutOfRange : Fault → Bool
  | .flagOutOfRange .. | .itemOutOfRange _ | .placeTooLarge => true
  | _ => false

/-- The fault has nothing to do with flags. A place may be out of range if the source has more
characters than can be counted. -/
structure Fault.Elsewhere (request : Request) (fault : Fault) : Prop where
  inRange : fault.isOutOfRange = true → placeLimit ≤ request.source.length
  not_full : ∀ capacity, fault ≠ .registryFull capacity

/-- Flags can be had for the capacity. -/
def Capacity.Allocated (capacity : Capacity) : Prop :=
  Flags.allocate capacity Carried.null = .ok (.none capacity .null)

/-- The session with another capacity of a registry. -/
def Session.withCapacity (σ : Session) (home : RegistryId) (capacity : Capacity) : Session :=
  σ.modifyRegistry home fun r => { r with capacity }

namespace Grammar

/-- A source is parsed by combinators, with a registry which their guards use as the current one
and which has no more names than it may. -/
structure Lodged (g : Grammar ρ) (parser : Parser ρ) (request : Request) (home : RegistryId)
    (σ : Session) : Prop where
  combinators : g.OfCombinators
  unbound : g.Unbound
  known : g.NamesKnown
  combinator : parser.isCombinator = true
  registry_eq : request.registry = some home
  home_lt : home < σ.registries.size
  size_le : (σ.registry home).size ≤ (σ.registry home).capacity.size

/-- What parsing a source has to do with the room in the registry. -/
structure RoomDecides (g : Grammar ρ) (parser : Parser ρ) (request : Request) (home : RegistryId)
    (σ : Session) : Prop where
  /-- Places are out of range only for functions of the grammar, unless the source has more
  characters than can be counted. -/
  inRange : ∀ fault, (g.parse parser request σ).1 = .error (.fault fault) →
    fault.isOutOfRange = true → request.source.length < placeLimit →
    ∃ v, g.Begins parser request σ v ∧ v.Raises g fault
  /-- The parse ends for want of room if a rule is called that there is none for, or a function
  of the grammar says so. -/
  full_iff : (∃ capacity, (g.parse parser request σ).1 = .error (.fault (.registryFull capacity))) ↔
    ∃ v, g.Begins parser request σ v ∧
      (v.Overflows g home ∨ ∃ capacity, v.Raises g (.registryFull capacity))
  /-- If there is room for the names of all guarded rules, no such rule is called. -/
  fits : g.NamesFit (σ.registry home) → ∀ v, g.Begins parser request σ v → ¬ v.Overflows g home
  /-- The name that there was no room for is told by the capacity, and is not registered. -/
  unnamed : ∀ v v' name, g.Begins parser request σ v → Relation.ReflTransGen g.Leads v v' →
    g.Overflows home v' name →
    (g.parse parser request σ).1 =
        .error (.fault (.registryFull (σ.registry home).capacity)) ∧
      ((g.parse parser request σ).2.registry home).find? name = none
  /-- If no such rule is called, more room does not matter. -/
  wider : ∀ (wide : Capacity) (hle : (σ.registry home).capacity.size ≤ wide.size),
    (σ.registry home).capacity.Allocated → wide.Allocated →
    (∀ v, g.Begins parser request σ v → ¬ v.Overflows g home) →
    (g.parse parser request (σ.withCapacity home wide)).1 = (g.parse parser request σ).1 ∧
      (g.parse parser request σ).2.Widened ⟨home, (σ.registry home).capacity, wide, hle⟩
        (g.parse parser request (σ.withCapacity home wide)).2
  /-- The registry has no more names than it may then either. -/
  again : g.Lodged parser request home (g.parse parser request σ).2

end Grammar

/-! ### The beginning -/

theorem Fault.Elsewhere.of_inRange (hrange : fault.isOutOfRange = false)
    (hfull : ∀ capacity, fault ≠ .registryFull capacity) : fault.Elsewhere request := by
  refine ⟨fun hout => ?_, hfull⟩
  rw [hrange] at hout
  cases hout

/-- Where flags cannot be had, they are not there to be out of range. -/
theorem Flags.elsewhere_of_allocate {capacity : Capacity}
    (h : Flags.allocate capacity Carried.null = .error fault) : fault.Elsewhere request := by
  unfold allocate at h
  split at h
  · cases h
    exact .of_inRange rfl fun _ h => nomatch h
  · split at h
    · cases h
      exact .of_inRange rfl fun _ h => nomatch h
    · split at h <;> cases h
      exact .of_inRange rfl fun _ h => nomatch h

theorem Cursor.clear_of_allocated {capacity : Capacity} (h : capacity.Allocated)
    (text : List Char) :
    Cursor.clear text capacity = .ok (.start text (.bare (.none capacity .null))) := by
  rw [clear, h]
  rfl

theorem Cursor.eq_of_clear {text : List Char} {capacity : Capacity} {s : Cursor}
    (h : Cursor.clear text capacity = .ok s) :
    capacity.Allocated ∧ s = .start text (.bare (.none capacity .null)) := by
  obtain ⟨f, hf, h⟩ := bind_eq_ok.1 h
  cases h
  have hnone := Flags.eq_of_allocate hf
  subst hnone
  exact ⟨hf, rfl⟩

theorem Cursor.widened_start (W : Widening) (text : List Char) :
    Cursor.Widened W (.start text (.bare (.none W.narrow .null)))
      (.start text (.bare (.none W.wide .null))) :=
  ⟨rfl, rfl, _, _, rfl, rfl, .none W .null⟩

/-- A session without frames is widened with the capacity of a registry. -/
theorem Session.widened_withCapacity (hframes : σ.frames = #[]) (hlt : home < σ.registries.size)
    (hsize : (σ.registry home).size ≤ (σ.registry home).capacity.size) (wide : Capacity)
    (hle : (σ.registry home).capacity.size ≤ wide.size) :
    σ.Widened ⟨home, (σ.registry home).capacity, wide, hle⟩ (σ.withCapacity home wide) where
  size_eq := Array.size_modify
  home_lt := hlt
  narrow_eq := rfl
  size_le := hsize
  home_eq := registry_modifyRegistry σ hlt _
  registry_eq id hid := by
    rw [withCapacity, registry_modifyRegistry_eq, if_neg fun hmem => hid hmem.1]
  current_eq := rfl
  frames_size := rfl
  frame id := by
    have hframe : ∀ {τ : Session}, τ.frames = #[] → τ.frame id = .begin .null 0 0 := by
      intro τ hτ
      rw [Session.frame, hτ]
      rfl
    rw [hframe hframes, hframe (τ := σ.withCapacity home wide) hframes]
    exact Frame.widened_begin _ _ _ _
  trace_eq := rfl
  log_eq := rfl

/-- Which registry is current does not matter. -/
theorem Session.Widened.withCurrent {W : Widening} {τ : Session} (h : σ.Widened W τ)
    (current : Option RegistryId) :
    Session.Widened W { σ with current } { τ with current } :=
  ⟨h.size_eq, h.home_lt, h.narrow_eq, h.size_le, h.home_eq, h.registry_eq, rfl, h.frames_size,
    h.frame, h.trace_eq, h.log_eq⟩

/-- Reports and answers do not depend on flags. -/
theorem Request.outcome_widened {W : Widening} {s t : Cursor} (hs : s.Widened W t)
    {result result' : Option Match} (h : ResultWidened W result result') :
    request.outcome t result' = request.outcome s result := by
  cases h with
  | none => simp only [Request.outcome, Cursor.unmatched, hs.place_eq]
  | some hm =>
    simp only [Request.outcome, Cursor.unmatched, hm.rest.fragment_eq, hm.rest.place_eq,
      hm.value_eq]

theorem Cursor.elsewhere_of_clear {text : List Char} {capacity : Capacity}
    (h : Cursor.clear text capacity = .error fault) : fault.Elsewhere request := by
  rcases bind_eq_error h with hfault | ⟨f, -, hfault⟩
  · exact Flags.elsewhere_of_allocate hfault
  · cases hfault

/-- A report at a cursor that is coherent with the source goes well. -/
theorem Cursor.Coherent.elsewhere_unmatched {payload : Payload} {s : Cursor}
    (hs : s.Coherent request.source.toList payload) :
    (s.unmatched request.source request.file).Elsewhere request := by
  have hline : 1 ≤ s.place.line := by
    rw [hs.line_eq]
    exact Int.le_add_of_nonneg_right (Int.natCast_nonneg _)
  rw [Cursor.unmatched]
  constructor
  · intro hout
    by_contra hlt
    obtain ⟨place, hplace⟩ := Fault.unmatchedAt_eq hline (Nat.lt_of_not_le hlt) s.place.column
      request.file
    rw [hplace] at hout
    cases hout
  · intro capacity hfull
    rcases Fault.unmatchedAt_cases request.source s.place.line s.place.column request.file with
      ⟨place, hplace⟩ | hplace | hplace
    all_goals
      rw [hplace] at hfull
      cases hfull

namespace Grammar

/-- A rule that there is no room for ends the parse without being named. -/
theorem Overflows.fails {name : Value} (h : g.Overflows home v name) (hu : g.Unbound)
    (hcurrent : v.session.current = some home) :
    Eval.Fails (v.parser.eval (g.call v.depth) v.cursor)
      (.registryFull (v.session.registry home).capacity) v.session v.session := by
  cases h with
  | @called depth r s σ guard hr hname hnew hfull =>
    have hget : Eval.flagOf home guard.name σ =
        (.error (.fault (.registryFull (σ.registry home).capacity)), σ) := by
      rw [Eval.flagOf_apply, Registry.get_of_full hname hnew hfull]
    have harrive : arrive guard.name guard.registry s σ =
        (.error (.fault (.registryFull (σ.registry home).capacity)), σ) := by
      rw [hu hr, arrive_apply, Program.bind_ok (Eval.registryOr_of_current hcurrent),
        Program.bind_error hget]
    dsimp only
    rw [Parser.eval, Grammar.call, hr]
    exact .bind (.of_eq harrive) _

theorem Faults.fails (h : g.Faults v fault) :
    ∃ σ, Eval.Fails (v.parser.eval (g.call v.depth) v.cursor) fault v.session σ := by
  cases h with
  | @mapped depth parser change s σ m σ' fault hrun hchange =>
    refine ⟨σ', .after hrun (.bind (.of_eq ?_) _)⟩
    rw [hchange]
    rfl

namespace Lodged

variable (h : g.Lodged parser request home σ)

include h

theorem registryOr : Eval.registryOr request.registry σ = (.ok home, σ) := by
  rw [h.registry_eq]
  rfl

theorem begins_iff : g.Begins parser request σ v ↔ (σ.registry home).capacity.Allocated ∧
    v = ⟨g.nestingBound request.source.length, parser,
      .start request.source.toList (.bare (.none (σ.registry home).capacity .null)),
      { σ with current := some home }⟩ := by
  have hlength : ∀ payload, (Cursor.start request.source.toList payload).remaining =
      request.source.length := fun _ => String.length_toList
  constructor
  · rintro ⟨id, σ₁, s, hid, hs, rfl⟩
    rw [h.registryOr] at hid
    cases hid
    obtain ⟨hallocated, rfl⟩ := Cursor.eq_of_clear hs
    refine ⟨hallocated, ?_⟩
    rw [hlength]
  · rintro ⟨hallocated, rfl⟩
    refine ⟨home, σ, _, h.registryOr, Cursor.clear_of_allocated hallocated _, ?_⟩
    rw [hlength]

/-- A parse comes to what its first visit does. -/
theorem parse_eq (hv : g.Begins parser request σ v) : g.parse parser request σ =
    ((v.eval g).1 >>= fun result => (request.outcome v.cursor result).mapError .fault,
      { (v.eval g).2 with current := σ.current }) := by
  obtain ⟨id, σ₁, s, hid, hs, rfl⟩ := hv
  have hid' := hid
  rw [h.registryOr] at hid'
  cases hid'
  exact g.parse_of_clear parser hid hs

/-- The first visit fits in a setting. -/
theorem fits_begins (hv : g.Begins parser request σ v) :
    ∃ S : Setting ρ, S.grammar = g ∧ S.tidy ∧ ∃ run, v.Fits S run := by
  obtain ⟨-, rfl⟩ := h.begins_iff.1 hv
  have hhosts : Session.Hosts { σ with current := some home } g home := by
    intro r guard hr
    rw [Session.Uses, h.unbound hr]
    exact .inl ⟨rfl, h.home_lt⟩
  have hblank : Cursor.Blank (.start request.source.toList
      (.bare (.none (σ.registry home).capacity .null))) := Cursor.blank_start _ _
  exact ⟨_, rfl, trivial, _, Visit.fits_start h.combinators h.known hhosts hblank.unset.dark
    (fun p _ i => hblank.frameAt_eq_none p i) _ h.combinator⟩

/-- A fault of a visit is that of the parse, and names are left as they are then. -/
theorem parse_of_fails {σ' : Session} (hv : g.Begins parser request σ v)
    (hr : Relation.ReflTransGen g.Leads v v')
    (hv' : Eval.Fails (v'.parser.eval (g.call v'.depth) v'.cursor) fault v'.session σ') :
    (g.parse parser request σ).1 = .error (.fault fault) ∧
      ((g.parse parser request σ).2.registry home).names = (σ'.registry home).names := by
  obtain ⟨S, rfl, ht, run, hfits⟩ := h.fits_begins hv
  obtain ⟨σ'', hrun, hnames⟩ := hfits.fails_of_reached ht hr hv'
  have heval : v.eval S.grammar = (.error (.fault fault), σ'') := hrun
  rw [h.parse_eq hv, heval]
  exact ⟨rfl, hnames home⟩

/-- All visits find the registry current, with its capacity. -/
theorem holds {fine : Registry → Prop} (hg : g.Sustains fine) (hfine : fine (σ.registry home))
    (hv : g.Begins parser request σ v) (hr : Relation.ReflTransGen g.Leads v v') :
    v'.session.Holds home fine := by
  obtain ⟨-, rfl⟩ := h.begins_iff.1 hv
  exact hg.holds_of_reached h.unbound ⟨rfl, h.home_lt, hfine⟩ hr

theorem unnamed {name : Value} (hv : g.Begins parser request σ v)
    (hr : Relation.ReflTransGen g.Leads v v') (ho : g.Overflows home v' name) :
    (g.parse parser request σ).1 =
        .error (.fault (.registryFull (σ.registry home).capacity)) ∧
      ((g.parse parser request σ).2.registry home).find? name = none := by
  have hholds := h.holds (g.sustains_capacity (σ.registry home).capacity) rfl hv hr
  have hfails := ho.fails h.unbound hholds.current
  rw [hholds.fine] at hfails
  obtain ⟨hparse, hnames⟩ := h.parse_of_fails hv hr hfails
  refine ⟨hparse, ?_⟩
  cases ho with
  | called _ _ hnew _ => rwa [Registry.find?, hnames]

theorem parse_of_raises (hv : g.Begins parser request σ v) (hraises : v.Raises g fault) :
    (g.parse parser request σ).1 = .error (.fault fault) := by
  obtain ⟨v', hr, hfaults⟩ := hraises
  obtain ⟨σ', hfails⟩ := hfaults.fails
  exact (h.parse_of_fails hv hr hfails).1

/-- What comes of a result is an answer or a report. -/
theorem elsewhere_outcome (hv : g.Begins parser request σ v) {result : Option Match}
    {σ' : Session} (heval : v.eval g = (.ok result, σ'))
    (hreport : request.outcome v.cursor result = .error fault) : fault.Elsewhere request := by
  obtain ⟨-, rfl⟩ := h.begins_iff.1 hv
  have hupright : Visit.Upright _ ⟨g.nestingBound request.source.length, parser,
      .start request.source.toList (.bare (.none (σ.registry home).capacity .null)),
      { σ with current := some home }⟩ :=
    Visit.upright_start (by rintro _ _ _ ⟨⟩) _ h.combinator
  obtain ⟨-, -, hadmits⟩ := hupright.eval heval
  cases hadmits with
  | none =>
    cases hreport
    exact hupright.stands.coherent.elsewhere_unmatched
  | some hstands _ =>
    rw [Request.outcome] at hreport
    split at hreport <;> cases hreport
    exact hstands.coherent.elsewhere_unmatched

/-- What a source can be parsed with is there for the next one, however the parse ends. -/
theorem again : g.Lodged parser request home (g.parse parser request σ).2 := by
  cases hclear : Cursor.clear request.source.toList (σ.registry home).capacity with
  | error fault =>
    rw [g.parse_of_clear_error parser h.registryOr hclear]
    exact h
  | ok s =>
    have hv : g.Begins parser request σ _ := ⟨home, σ, s, h.registryOr, hclear, rfl⟩
    have hlaw := g.sustains_size_le.respects h.unbound home
    rw [h.parse_eq hv]
    generalize hrun : Visit.eval g _ = outcome
    obtain ⟨-, hlt, hle⟩ := hlaw.visit hrun ⟨rfl, h.home_lt, h.size_le⟩
    exact ⟨h.combinators, h.unbound, h.known, h.combinator, h.registry_eq, hlt, hle⟩

section Fresh

variable (hframes : σ.frames = #[])

include hframes

/-- What the first visit comes to is the same with more room. -/
theorem endsWidened (hv : g.Begins parser request σ v) (wide : Capacity)
    (hle : (σ.registry home).capacity.size ≤ wide.size) :
    EndsWidened (v.grounds g ⟨home, (σ.registry home).capacity, wide, hle⟩)
      (ResultWidened ⟨home, (σ.registry home).capacity, wide, hle⟩) (v.eval g)
      (v.parser.eval (g.call v.depth)
        (.start request.source.toList (.bare (.none wide .null)))
        { σ.withCapacity home wide with current := some home }) := by
  obtain ⟨-, rfl⟩ := h.begins_iff.1 hv
  have hwidened := Session.widened_withCapacity hframes h.home_lt h.size_le wide hle
  exact visit_widens h.combinators h.unbound h.combinator ⟨hwidened.withCurrent (some home), rfl⟩
    (Cursor.widened_start ⟨home, (σ.registry home).capacity, wide, hle⟩ _)

/-- What faults the first visit may come to. -/
theorem excuses {σ' : Session} (hv : g.Begins parser request σ v)
    (heval : v.eval g = (.error (.fault fault), σ')) :
    fault.Elsewhere request ∨ v.Raises g fault ∨
      v.Overflows g home ∧ fault = .registryFull (σ.registry home).capacity := by
  have hends := h.endsWidened hframes hv (σ.registry home).capacity le_rfl
  rw [heval] at hends
  generalize v.parser.eval _ _ _ = outcome at hends
  cases hends with
  | stopped _ hexcuses =>
    cases hexcuses with
    | unhashable => exact .inl (.of_inRange rfl fun _ h => nomatch h)
    | unwritable => exact .inl (.of_inRange rfl fun _ h => nomatch h)
    | raised hraised => exact .inr (.inl hraised)
  | full hfull => exact .inr (.inr ⟨hfull, rfl⟩)

/-- What faults the parse may end with. -/
theorem parse_excuses (hparse : (g.parse parser request σ).1 = .error (.fault fault)) :
    fault.Elsewhere request ∨ ∃ v, g.Begins parser request σ v ∧ (v.Raises g fault ∨
      v.Overflows g home ∧ fault = .registryFull (σ.registry home).capacity) := by
  cases hclear : Cursor.clear request.source.toList (σ.registry home).capacity with
  | error fault' =>
    rw [g.parse_of_clear_error parser h.registryOr hclear] at hparse
    cases hparse
    exact .inl (Cursor.elsewhere_of_clear hclear)
  | ok s =>
    have hv : g.Begins parser request σ
        ⟨g.nestingBound s.remaining, parser, s, { σ with current := some home }⟩ :=
      ⟨home, σ, s, h.registryOr, hclear, rfl⟩
    rw [h.parse_eq hv] at hparse
    generalize hrun : Visit.eval g _ = run at hparse
    obtain ⟨outcome, σ'⟩ := run
    cases outcome with
    | error stop =>
      cases hparse
      rcases h.excuses hframes hv hrun with helsewhere | hcause
      · exact .inl helsewhere
      · exact .inr ⟨_, hv, hcause⟩
    | ok result =>
      refine .inl (h.elsewhere_outcome hv hrun ?_)
      rw [ok_bind] at hparse
      cases hreport : request.outcome s result with
      | ok value =>
        rw [hreport] at hparse
        cases hparse
      | error fault' =>
        rw [hreport] at hparse
        cases hparse
        rfl

/-- More room does not matter if no rule is called that there is no room for. -/
theorem parse_wider (wide : Capacity) (hle : (σ.registry home).capacity.size ≤ wide.size)
    (hallocated : (σ.registry home).capacity.Allocated) (hwide : wide.Allocated)
    (hroom : ∀ v, g.Begins parser request σ v → ¬ v.Overflows g home) :
    (g.parse parser request (σ.withCapacity home wide)).1 = (g.parse parser request σ).1 ∧
      (g.parse parser request σ).2.Widened ⟨home, (σ.registry home).capacity, wide, hle⟩
        (g.parse parser request (σ.withCapacity home wide)).2 := by
  let W : Widening := ⟨home, (σ.registry home).capacity, wide, hle⟩
  have hwidened : σ.Widened W (σ.withCapacity home wide) :=
    Session.widened_withCapacity hframes h.home_lt h.size_le wide hle
  have hv := h.begins_iff.2 ⟨hallocated, rfl⟩
  have hends := h.endsWidened hframes hv wide hle
  have hregistryOr : Eval.registryOr request.registry (σ.withCapacity home wide) =
      (.ok home, σ.withCapacity home wide) := by
    rw [h.registry_eq]
    rfl
  have hclear : Cursor.clear request.source.toList
      ((σ.withCapacity home wide).registry home).capacity =
      .ok (.start request.source.toList (.bare (.none wide .null))) := by
    rw [hwidened.home_eq]
    exact Cursor.clear_of_allocated hwide _
  have hlength : (Cursor.start request.source.toList
      (.bare (.none wide .null))).remaining = request.source.length := String.length_toList
  rw [h.parse_eq hv, g.parse_of_clear parser hregistryOr hclear, apply, hlength]
  dsimp only at hends ⊢
  generalize Visit.eval g _ = run at hends ⊢
  generalize Parser.eval _ _ _ _ = run' at hends ⊢
  cases hends with
  | answered hinside hresult =>
    refine ⟨?_, hinside.toWidened.withCurrent σ.current⟩
    rw [ok_bind, ok_bind, Request.outcome_widened (Cursor.widened_start W _) hresult]
  | stopped hinside _ => exact ⟨rfl, hinside.toWidened.withCurrent σ.current⟩
  | full hfull => exact absurd hfull (hroom _ hv)

end Fresh

end Lodged

/-- Parsing a source in a session that has no frames yet: no place is out of range, the parse ends
for want of room just if a rule is called that needs a flag while there is none left, and unless
that happens more room makes no difference. What functions of the grammar raise is their own
affair. -/
theorem parse_roomDecides (h : g.Lodged parser request home σ) :
    g.RoomDecides parser request home σ.renewed := by
  have h' : g.Lodged parser request home σ.renewed :=
    ⟨h.combinators, h.unbound, h.known, h.combinator, h.registry_eq, h.home_lt, h.size_le⟩
  have hframes : σ.renewed.frames = #[] := rfl
  constructor
  case inRange =>
    intro fault hparse hout hlength
    rcases h'.parse_excuses hframes hparse with helsewhere | ⟨v, hv, hraises | ⟨-, rfl⟩⟩
    · exact absurd (helsewhere.inRange hout) (Nat.not_le.2 hlength)
    · exact ⟨v, hv, hraises⟩
    · cases hout
  case full_iff =>
    constructor
    · rintro ⟨capacity, hparse⟩
      rcases h'.parse_excuses hframes hparse with helsewhere | ⟨v, hv, hraises | ⟨hoverflows, -⟩⟩
      · exact absurd rfl (helsewhere.not_full capacity)
      · exact ⟨v, hv, .inr ⟨capacity, hraises⟩⟩
      · exact ⟨v, hv, .inl hoverflows⟩
    · rintro ⟨v, hv, ⟨v', name, hr, hoverflows⟩ | ⟨capacity, hraises⟩⟩
      · exact ⟨_, (h'.unnamed hv hr hoverflows).1⟩
      · exact ⟨capacity, h'.parse_of_raises hv hraises⟩
  case fits =>
    rintro hfit v hv ⟨v', name, hr, hoverflows⟩
    exact (h'.holds g.sustains_namesFit hfit hv hr).fine.not_overflows hoverflows
  case unnamed => exact fun v v' name hv hr hoverflows => h'.unnamed hv hr hoverflows
  case wider =>
    exact fun wide hle hallocated hwide => h'.parse_wider hframes wide hle hallocated hwide
  case again => exact h'.again

end Grammar

/-- A guarded rule for a letter, which uses the current registry. -/
def currentLetter : Grammar Unit := .single (.char 'a') (some ⟨.text "letter", none⟩)

/-- A registry that has as many names as it may. -/
def Registry.crowded : Registry := ⟨.standard, false, 0, (List.range 64).map fun n => .int n⟩

/-- A registry without names, but for more flags than can be had. -/
def Registry.unwieldy : Registry := .empty ⟨2 ^ 61, by decide, false⟩ false

/-- A letter is parsed with a given registry. -/
def parseLetter (parser : Parser Unit) (registry : Registry) : Except Stop Value × Session :=
  currentLetter.parse parser ⟨"a", some 0, true, unnamedFile⟩ (Session.alone registry).renewed

theorem currentLetter_lodged (registry : Registry)
    (h : registry.size ≤ registry.capacity.size) :
    currentLetter.Lodged (.ref ()) ⟨"a", some 0, true, unnamedFile⟩ 0 (.alone registry) where
  combinators _ := rfl
  unbound := by
    intro r guard hr
    cases hr
    rfl
  known := by
    intro r guard hr
    cases hr
    rfl
  combinator := rfl
  registry_eq := rfl
  home_lt := Nat.one_pos
  size_le := h

theorem currentLetter_overflows (depth : Nat) (s : Cursor) :
    currentLetter.Overflows 0
      ⟨depth + 1, .ref (), s, { Session.alone .crowded with current := some 0 }⟩
      (.text "letter") := by
  have hguard : (currentLetter.rule ()).guard = some ⟨.text "letter", none⟩ := rfl
  exact .called hguard rfl (by decide) (by decide)

/-- In a registry that is full the rule for a letter is not called, and not named either. In one
that has room for its name, more room would not have made a difference. -/
theorem parse_letter_roomDecides :
    currentLetter.Lodged (.ref ()) ⟨"a", some 0, true, unnamedFile⟩ 0 (.alone .crowded) ∧
      (parseLetter (.ref ()) .crowded).1 = .error (.fault (.registryFull .standard)) ∧
      ((parseLetter (.ref ()) .crowded).2.registry 0).find? (.text "letter") = none ∧
      currentLetter.Lodged (.ref ()) ⟨"a", some 0, true, unnamedFile⟩ 0 (.alone default) ∧
      (currentLetter.parse (.ref ()) ⟨"a", some 0, true, unnamedFile⟩
          ((Session.alone default).renewed.withCapacity 0 Capacity.standard.doubled)).1 =
        .ok (.text "a") := by
  have hcrowded := currentLetter_lodged .crowded (by decide)
  have hroomy := currentLetter_lodged default (by decide)
  have hfit : currentLetter.NamesFit ((Session.alone default).registry 0) :=
    Grammar.namesFit_of_le hroomy.known (by decide)
  have hbegins : currentLetter.Begins (.ref ()) ⟨"a", some 0, true, unnamedFile⟩
      (Session.alone .crowded).renewed ⟨511 + 1, .ref (),
        .start ['a'] (.bare (.none .standard .null)),
        { Session.alone .crowded with current := some 0 }⟩ := ⟨0, _, _, rfl, rfl, rfl⟩
  obtain ⟨hfull, hunnamed⟩ := (Grammar.parse_roomDecides hcrowded).unnamed _ _ _ hbegins .refl
    (currentLetter_overflows 511 _)
  have hdecides := Grammar.parse_roomDecides hroomy
  obtain ⟨hsame, -⟩ := hdecides.wider Capacity.standard.doubled (by decide) rfl rfl
    (hdecides.fits hfit)
  exact ⟨hcrowded, hfull, hunnamed, hroomy, hsame⟩

/-- Functions may ask for an item that there is not, and parsers that are no combinators for a
flag. Where flags cannot be had, there is nothing to parse with, although no name is missing. -/
theorem parse_letter_departs_from_room :
    (parseLetter (.mapped (.char 'a') (·.itemAt 5)) default).1 =
        .error (.fault (.itemOutOfRange .text)) ∧
      (parseLetter (.edit ⟨false, [.ok (.int 64)], [], none, none⟩) default).1 =
        .error (.fault (.flagOutOfRange "64" 64)) ∧
      Registry.crowded.capacity.size ≤ Registry.unwieldy.capacity.size ∧
      (parseLetter (.char 'a') .crowded).1 = .ok (.text "a") ∧
      (parseLetter (.char 'a') .unwieldy).1 = .error (.fault .outOfMemory) := by
  have hflag : fault? (parseLetter (.edit ⟨false, [.ok (.int 64)], [], none, none⟩) default).1 =
      some (.flagOutOfRange "64" 64) := by decide +kernel
  exact ⟨rfl, fault?_eq_some.1 hflag, by decide, rfl, rfl⟩

end SeedGrowth
