import SeedGrowth.Proofs.Cursor.Evaluation
import SeedGrowth.Proofs.LeftRecursion.Outcome
import SeedGrowth.Proofs.Seeds.Adoption

/-!
# Growth of seeds comes to an end

A guarded call around any body that returns: there are at most as many evaluations beyond
the first one as there are characters ahead, every seed is longer than those before, and the
call gives the first result if its frame was not asked for, and otherwise the last seed, which
the last evaluation of the body does not get beyond. Only a body that takes the mark off its
frame ends the loop with a result of its own.
-/
namespace SeedGrowth

variable {name : Value} {bound : Option RegistryId} {s s' : Cursor} {session σ σ' : Session}

/-- A call that has looked up its flag has it on its cursor. -/
theorem width_of_arrive {arrival : Arrival} (h : arrive name bound s session = (.ok arrival, σ)) :
    ∃ width, s.width = some width ∧ arrival.flag < width := by
  rw [arrive_apply] at h
  obtain ⟨id, σ₁, -, h⟩ := Program.exists_of_bind h
  obtain ⟨flag, σ₂, -, h⟩ := Program.exists_of_bind h
  obtain ⟨f, σ₃, hflags, h⟩ := Program.exists_of_bind h
  obtain ⟨registry, σ₄, -, h⟩ := Program.exists_of_bind h
  obtain ⟨active, σ₅, hcheck, h⟩ := Program.exists_of_bind h
  cases h
  obtain ⟨-, hcapacity, -⟩ := Flags.enterAt_spec s.remaining f
  obtain ⟨hf, -⟩ := Eval.eq_of_lift hflags
  obtain ⟨hcheck, -⟩ := Eval.eq_of_lift hcheck
  refine ⟨f.capacity, by rw [Cursor.width, Cursor.flags_eq_ok.1 hf, Option.map_some], ?_⟩
  by_contra hle
  obtain ⟨fault, hfault, -⟩ := Flags.check_eq_error (enterAt s.remaining f).1
    (hcapacity ▸ Nat.le_of_not_lt hle)
  rw [hfault] at hcheck
  cases hcheck

namespace Call

variable {call : Call} {body : Cursor → Eval (Option Match)} {seeds : List Match}

/-- A call of a guarded rule that does not find its flag set and begins: the cursor and the
session of the first evaluation of its body. -/
def Enters (call : Call) (name : Value) (bound : Option RegistryId) (s : Cursor)
    (session : Session) (s' : Cursor) (σ : Session) : Prop :=
  ∃ arrival σ₁ σ₂, arrive name bound s session = (.ok arrival, σ₁) ∧ arrival.active = false ∧
    arrival.begin s σ₁ = (.ok (call, s'), σ₂) ∧
    σ = σ₂.modifyRegistry call.registry fun r => { r with level := r.level + 1 }

/-- The position of the call, its frame, which is new, and its flag, which is on the cursor. -/
theorem Enters.facts (h : call.Enters name bound s session s' σ) :
    call.position = s.remaining ∧ call.Holds [] σ ∧
      ∃ width, s.width = some width ∧ call.flag < width := by
  obtain ⟨arrival, σ₁, σ₂, harrive, -, hbegin, rfl⟩ := h
  obtain ⟨-, hmeets⟩ := meets_of_arrive harrive
  obtain ⟨rfl, hframes, -⟩ := exists_of_begin hbegin
  have hframe : σ₂.frame σ₁.frames.size =
      .begin arrival.name arrival.flag arrival.position := by
    rw [Session.frame_push hframes, if_pos rfl]
  have hlt : σ₁.frames.size < σ₂.frames.size := by
    rw [hframes, Array.size_push]
    exact Nat.lt_succ_self _
  exact ⟨hmeets.position_eq, ⟨hlt, congrArg Frame.best hframe, congrArg Frame.length hframe⟩,
    width_of_arrive harrive⟩

/-- What is left of the call when it has begun. -/
theorem Enters.guarded_apply (h : call.Enters name bound s session s' σ) :
    ∃ σ₁, σ = σ₁.modifyRegistry call.registry (fun r => { r with level := r.level + 1 }) ∧
      ∀ body : Cursor → Eval (Option Match), guarded name bound body s session =
        (Eval.deeper call.registry (call.evaluate (body s')) >>= call.finish) σ₁ := by
  obtain ⟨arrival, σ₁, σ₂, harrive, hidle, hbegin, rfl⟩ := h
  refine ⟨σ₂, rfl, fun body => ?_⟩
  rw [guarded, Program.bind_ok harrive, hidle, if_neg Bool.false_ne_true, Program.bind_ok hbegin]

/-- A call evaluates its body where seeds have been adopted, and nowhere else. -/
theorem Enters.guarded_congr (h : call.Enters name bound s session s' σ)
    {body' : Cursor → Eval (Option Match)}
    (heq : ∀ seeds σ', call.Adopts (body s') σ seeds σ' → body' s' σ' = body s' σ') :
    guarded name bound body' s session = guarded name bound body s session := by
  obtain ⟨σ₁, rfl, hguarded⟩ := h.guarded_apply
  have hdeeper : Eval.deeper call.registry (call.evaluate (body' s')) σ₁ =
      Eval.deeper call.registry (call.evaluate (body s')) σ₁ := by
    rw [Eval.deeper, Eval.deeper, evaluate_congr heq]
  rw [hguarded, hguarded, Program.bind_apply, Program.bind_apply, hdeeper]

/-- A call that is evaluated to a fault ends with it. -/
theorem Enters.guarded_error (h : call.Enters name bound s session s' σ) {stop : Stop}
    (hevaluate : (call.evaluate (body s') σ).1 = .error stop) :
    (guarded name bound body s session).1 = .error stop := by
  obtain ⟨σ₁, rfl, hguarded⟩ := h.guarded_apply
  have hdeeper : (Eval.deeper call.registry (call.evaluate (body s')) σ₁).1 = .error stop :=
    hevaluate
  rw [hguarded, Program.bind_error (Prod.ext hdeeper rfl)]

/-- A call that is evaluated to a result ends with it, less its flag, unless a trace stops
it. -/
theorem Enters.guarded_ok (h : call.Enters name bound s session s' σ) {result : Option Match}
    (hevaluate : (call.evaluate (body s') σ).1 = .ok result)
    (hwidth : ∀ m, result = some m → m.rest.width = s.width) :
    call.Untraced (guarded name bound body s session).1 ∨
      readOff (guarded name bound body s session).1 = .ok (result.map Match.found) := by
  obtain ⟨-, -, width, hs, hlt⟩ := h.facts
  obtain ⟨σ₂, rfl, hguarded⟩ := h.guarded_apply
  have hdeeper : (Eval.deeper call.registry (call.evaluate (body s')) σ₂).1 = .ok result :=
    hevaluate
  rw [hguarded, Program.bind_ok (Prod.ext hdeeper rfl)]
  obtain ⟨answer, σ₃, hfinish, -, hanswer⟩ := call.finish_spec result
    (Eval.deeper call.registry (call.evaluate (body s')) σ₂).2
    fun m hm => ⟨width, (hwidth m hm).trans hs, hlt⟩
  rw [hfinish]
  rcases hanswer with ⟨rfl, rfl⟩ | ⟨m, m', rfl, rfl, hvalue, hfragment, hplace, -⟩ |
    ⟨hverbose, rfl⟩
  · exact .inr rfl
  · refine .inr ?_
    simp only [readOff, Except.map, Option.map_some, Match.found, Cursor.point, hvalue, hfragment,
      hplace]
  · exact .inl ⟨hverbose, rfl⟩

/-- The seeds come from the body, so that they are as wide as its cursors. -/
theorem Adopts.width_eq {body : Eval (Option Match)} {width : Option Nat}
    (h : call.Adopts body σ seeds σ') (hr : call.AlwaysReturns width body σ)
    (hfirst : call.Holds [] σ) : ∀ m ∈ seeds, m.rest.width = width := by
  induction h with
  | first => exact fun m hm => by cases hm
  | further h₀ hbody _ hreview hlonger _ ih =>
    intro m hm
    rcases List.mem_cons.1 hm with rfl | hm
    · obtain ⟨result, σ₁, hbody', hlt, hkeeps, hwidth⟩ := hr _ _ h₀
      rw [hbody] at hbody'
      cases hbody'
      cases frame_of_review hreview
      exact hwidth _ (((h₀.holds hr hfirst).1.keeps hlt hkeeps).lt_of_longer? hlonger).1
    · exact ih m hm

/-- The loop ends without a seed if and only if the first result takes up no text. -/
theorem Ends.head?_eq_none {body : Eval (Option Match)} {last first : Option Match}
    {width : Option Nat} {σ₁ : Session} (h : call.Ends body σ seeds last)
    (hr : call.AlwaysReturns width body σ) (hholds : call.Holds [] σ)
    (hfirst : body σ = (.ok first, σ₁)) :
    seeds.head? = none ↔ ∀ m, first = some m → m.consumed call.position < 1 := by
  obtain ⟨σ₂, σ₃, hadopts, -, hlast⟩ := h.adopted
  constructor
  · intro hnone m hm
    cases List.head?_eq_none_iff.1 hnone
    obtain ⟨-, rfl⟩ := hadopts.unique .first rfl
    rw [hfirst] at hlast
    cases hlast
    exact Nat.lt_one_iff.2 (Nat.le_zero.1 (h.not_longer m hm))
  · intro hshort
    by_contra hsome
    -- Otherwise the first result would be the first seed.
    have hlength : 1 ≤ seeds.length := by
      cases seeds with
      | nil => exact absurd rfl hsome
      | cons m seeds => exact Nat.succ_pos _
    obtain ⟨σ₄, hsingle⟩ := hadopts.of_suffix (List.drop_suffix (seeds.length - 1) seeds)
    obtain ⟨-, hascends⟩ := hsingle.holds hr hholds
    have hone : (seeds.drop (seeds.length - 1)).length = 1 := by
      rw [List.length_drop]
      omega
    obtain ⟨m, hm⟩ := List.length_eq_one_iff.1 hone
    rw [hm] at hsingle hascends
    have hpositive := hascends.positive m (List.mem_singleton_self m)
    cases hsingle with
    | further h₀ hbody _ hreview hlonger _ =>
      cases h₀
      rw [hfirst] at hbody
      cases hbody
      cases frame_of_review hreview
      obtain ⟨hresult, -⟩ := Option.filter_eq_some_iff.1 hlonger
      have := hshort m hresult
      omega

/-- Without a mark on its frame, the body is evaluated once. -/
theorem Adopts.eq_nil {body : Eval (Option Match)} {first : Option Match} {σ₁ : Session}
    (h : call.Adopts body σ seeds σ') (hfirst : body σ = (.ok first, σ₁))
    (hunmarked : (σ₁.frame call.frame).reentered = false) : seeds = [] := by
  induction h with
  | first => rfl
  | further h₀ hbody hmarked _ _ _ ih =>
    cases ih
    obtain ⟨-, rfl⟩ := h₀.unique .first rfl
    rw [hfirst] at hbody
    cases hbody
    rw [hunmarked] at hmarked
    cases hmarked

/-- Around a body that returns whenever it is evaluated, a call that does not find its flag
set evaluates it once and for every seed that it adopts. The seeds take up more and more
text, so that there are not more of them than characters ahead. If the first evaluation does
not mark the frame, there is no other, and the call gives the first result. If it does, the
call gives the last seed, which the last evaluation of the body does not get beyond, and fails
only if the first result takes up no text; or else the last evaluation takes the mark off the
frame, and the call gives its result. A trace may stop it if the registry is verbose. -/
theorem guarded_grows (h : call.Enters name bound s session s' σ)
    (hr : call.AlwaysReturns s.width (body s') σ) :
    call.position = s.remaining ∧
      (∀ body' : Cursor → Eval (Option Match),
        (∀ seeds σ', call.Adopts (body s') σ seeds σ' → body' s' σ' = body s' σ') →
          guarded name bound body' s session = guarded name bound body s session) ∧
      (∀ seeds σ', call.Adopts (body s') σ seeds σ' → seeds.length ≤ s.remaining ∧
        call.Ascends seeds ∧ ∀ m ∈ seeds, m.consumed s.remaining ≤ s.remaining) ∧
      ∃ first σ₁, body s' σ = (.ok first, σ₁) ∧
        (call.Untraced (guarded name bound body s session).1 ∨
          ((σ₁.frame call.frame).reentered = false →
            (∀ seeds σ', call.Adopts (body s') σ seeds σ' → seeds = []) ∧
              readOff (guarded name bound body s session).1 = .ok (first.map Match.found)) ∧
          ((σ₁.frame call.frame).reentered = true → ∃ seeds last,
            call.Ends (body s') σ seeds last ∧
                readOff (guarded name bound body s session).1 =
                  .ok (seeds.head?.map Match.found) ∧
                (readOff (guarded name bound body s session).1 = .ok none ↔
                  ∀ m, first = some m → m.consumed s.remaining < 1) ∨
              call.Lapses (body s') σ seeds last ∧
                readOff (guarded name bound body s session).1 = .ok (last.map Match.found))) := by
  obtain ⟨hposition, hholds, -⟩ := h.facts
  refine ⟨hposition, fun _ heq => h.guarded_congr heq, fun seeds σ' hadopts => ?_, ?_⟩
  · exact ⟨hposition ▸ hadopts.length_le hr hholds, (hadopts.holds hr hholds).2,
      fun m _ => Nat.sub_le _ _⟩
  obtain ⟨first, σ₁, hfirst, -, -, hwidth⟩ := hr [] σ .first
  refine ⟨first, σ₁, hfirst, ?_⟩
  have hevaluate := congrArg Prod.fst (call.evaluate_apply hfirst)
  by_cases hmarked : (σ₁.frame call.frame).reentered = true
  · rcases grow_settles hr hholds call.position .first hfirst (fun _ => hmarked)
      (Nat.le_add_left _ _) with
      ⟨hverbose, herror⟩ | ⟨seeds, last, hends, hok⟩ | ⟨seeds, last, hlapses, hok⟩
    · left
      exact ⟨hverbose, h.guarded_error (hevaluate.trans herror)⟩
    · obtain ⟨σ₂, σ₃, hadopts, -, -⟩ := hends.adopted
      have hseed : ∀ m, seeds.head? = some m → m.rest.width = s.width :=
        fun m hm => hadopts.width_eq hr hholds m (List.mem_of_mem_head? hm)
      refine (h.guarded_ok (hevaluate.trans hok) hseed).imp_right fun hresult => ?_
      refine ⟨fun hunmarked => absurd hmarked (Bool.eq_false_iff.1 hunmarked), fun _ => ?_⟩
      refine ⟨seeds, last, .inl ⟨hends, hresult, ?_⟩⟩
      rw [hresult, ← hposition, ← hends.head?_eq_none hr hholds hfirst]
      cases seeds.head? <;> simp
    · obtain ⟨σ₂, σ₃, hadopts, -, hlast, -⟩ := hlapses.unmarked
      obtain ⟨last', σ₃', hlast', -, -, hwidth'⟩ := hr seeds σ₂ hadopts
      rw [hlast] at hlast'
      cases hlast'
      refine (h.guarded_ok (hevaluate.trans hok) hwidth').imp_right fun hresult => ?_
      refine ⟨fun hunmarked => absurd hmarked (Bool.eq_false_iff.1 hunmarked), fun _ => ?_⟩
      exact ⟨seeds, last, .inr ⟨hlapses, hresult⟩⟩
  · have hidle := congrArg Prod.fst (call.grow_of_idle (body s') call.position 1 first hmarked)
    refine (h.guarded_ok (hevaluate.trans hidle) hwidth).imp_right fun hresult => ?_
    refine ⟨fun hunmarked => ⟨fun seeds σ' hadopts => ?_, hresult⟩,
      fun hmarked' => absurd hmarked' hmarked⟩
    exact hadopts.eq_nil hfirst hunmarked

end Call

/-- Goes one character further than the best match of the first frame, and marks the frame. -/
def creep (s : Cursor) : Eval (Option Match) := do
  Eval.modifyFrame 0 fun frame => { frame with reentered := true }
  let frame ← Eval.read (·.frame 0)
  return if frame.length < s.remaining then some (Parser.matchNext s (frame.length + 1)) else none

/-- It returns in all sessions that have a frame. -/
theorem creep_returns {call : Call} (hframe : call.frame = 0) (s : Cursor)
    (hlt : call.frame < σ.frames.size) : call.Returns s.width (creep s) σ := by
  rw [Call.Returns, hframe] at *
  refine ⟨_, _, rfl, (Array.size_modify ..).symm ▸ hlt, .of_mark rfl hlt 0, fun m hm => ?_⟩
  obtain ⟨-, hm⟩ := Option.ite_none_right_eq_some.1 hm
  cases hm
  rfl

/-- Creeping over two letters. -/
theorem creep_grows : ∃ call s' σ,
    Call.Enters call (.text "creep") (some 0) (clearAt ['a', 'b']) .quiet s' σ ∧
      call.AlwaysReturns (clearAt ['a', 'b']).width (creep s') σ ∧
      ∃ seeds last, call.Ends (creep s') σ seeds last ∧ seeds.length ≤ 2 ∧
        readOff (guarded (.text "creep") (some 0) creep (clearAt ['a', 'b']) .quiet).1 =
          .ok (seeds.head?.map Match.found) ∧
        (seeds.head?.map Match.found).map (·.rest.fragment) = some [] := by
  obtain ⟨call, s', σ, henters, hframe, hverbose, hwidth, hmarks⟩ : ∃ call s' σ,
      Call.Enters call (.text "creep") (some 0) (clearAt ['a', 'b']) .quiet s' σ ∧
        call.frame = 0 ∧ call.verbose = false ∧ s'.width = (clearAt ['a', 'b']).width ∧
        ((creep s' σ).2.frame 0).reentered = true :=
    ⟨_, _, _, ⟨_, _, _, rfl, rfl, rfl, rfl⟩, rfl, rfl, rfl, rfl⟩
  have hr : call.AlwaysReturns (clearAt ['a', 'b']).width (creep s') σ :=
    hwidth ▸ Call.alwaysReturns_of_frame_lt henters.facts.2.1.frame_lt
      fun σ' hlt => creep_returns hframe s' hlt
  have hwhole : (readOff (guarded (.text "creep") (some 0) creep (clearAt ['a', 'b'])
      .quiet).1).toOption.join.map (·.rest.fragment) = some [] := by decide +kernel
  refine ⟨call, s', σ, henters, hr, ?_⟩
  obtain ⟨-, -, hcount, first, σ₁, hfirst, ⟨hverbose', -⟩ | ⟨-, hgrown⟩⟩ :=
    Call.guarded_grows henters hr
  · rw [hverbose] at hverbose'
    cases hverbose'
  · rw [hfirst, ← hframe] at hmarks
    obtain ⟨seeds, last, ⟨hends, hseed, -⟩ | ⟨hlapses, -⟩⟩ := hgrown hmarks
    · obtain ⟨σ₂, σ₃, hadopts, -, -⟩ := hends.adopted
      refine ⟨seeds, last, hends, (hcount seeds σ₂ hadopts).1, hseed, ?_⟩
      rw [hseed] at hwhole
      exact hwhole
    · -- Creeping takes no mark off.
      obtain ⟨σ₂, σ₃, -, hmarked, hlast, hunmarked⟩ := hlapses.unmarked
      have hkeeps : Eval.Obeys Session.KeepsMarks (creep s') := fun σ => .modify σ 0 fun _ _ => rfl
      have hmark := hkeeps.of_eq hlast call.frame hmarked
      rw [hunmarked] at hmark
      cases hmark

/-- Gives a number that is too long for a trace, and reads nothing. -/
def tall (s : Cursor) : Eval (Option Match) := return some ⟨s, .int (10 ^ 4300)⟩

/-- Reads a character, but has written into the first frame that as much was read before. -/
def meddle (s : Cursor) : Eval (Option Match) := do
  Eval.modifyFrame 0 fun frame => { frame with reentered := true, length := 1 }
  return some (Parser.matchNext s 1)

/-- Reads a character and marks the first frame, but takes the mark off again and fails as soon
as the frame has a best match. -/
def recant (s : Cursor) : Eval (Option Match) := do
  let frame ← Eval.read (·.frame 0)
  Eval.modifyFrame 0 fun frame => { frame with reentered := frame.best.isNone }
  return if frame.best.isNone then some (Parser.matchNext s 1) else none

/-- A rule that calls itself with its frame out of sight, or else reads nothing. -/
def astray : Grammar Unit :=
  .single (.alt [.sequence [.edit ⟨false, [], [], none, some 1⟩, .ref ()], .empty])
    (some ⟨.text "astray", some 0⟩)

/-- The body of the rule. -/
def strayed (s : Cursor) : Eval (Option Match) :=
  (astray.rule ()).body.eval (astray.call 1) s

/-- A call of the rule reads nothing, and calls the rule where it begins, without a mark on
its frame. -/
theorem astray_enters : ∃ call s' σ first σ₁ s'' σ₂,
    Call.Enters call (.text "astray") (some 0) (clearAt ['a']) .quiet s' σ ∧
      strayed s' σ = (.ok first, σ₁) ∧ σ₁.frames = σ.frames ∧
      (σ₁.frame call.frame).reentered = false ∧
      (∀ m, first = some m → m.rest.width = (clearAt ['a']).width ∧
        m.consumed (clearAt ['a']).remaining < 1) ∧
      Relation.TransGen astray.Leads ⟨1, (astray.rule ()).body, s', σ⟩ ⟨1, .ref (), s'', σ₂⟩ ∧
      s''.remaining = (clearAt ['a']).remaining := by
  refine ⟨_, _, _, some ⟨_, _⟩, _, _, _, ⟨_, _, _, rfl, rfl, rfl, rfl⟩, rfl, rfl, rfl, ?_,
    .tail (.tail (.single .branch) (.after rfl)) .item, rfl⟩
  rintro _ ⟨⟩
  exact ⟨rfl, Nat.one_pos⟩

/-- The guarded rule fails although its body always reads a character, because the body has
written into its frame. -/
theorem meddle_departs : ∃ call s' σ m σ₁,
    Call.Enters call (.text "meddle") (some 0) (clearAt ['a']) .quiet s' σ ∧
      (∀ σ', ∃ σ'', meddle s' σ' = (.ok (some m), σ'')) ∧
      m.rest.width = (clearAt ['a']).width ∧ meddle s' σ = (.ok (some m), σ₁) ∧
      (σ₁.frame call.frame).reentered = true ∧ 1 ≤ m.consumed (clearAt ['a']).remaining ∧
      readOff (guarded (.text "meddle") (some 0) meddle (clearAt ['a']) .quiet).1 = .ok none := by
  have hfailed : (guarded (.text "meddle") (some 0) meddle (clearAt ['a']) .quiet).1.toOption.map
      Option.isSome = some false := by decide +kernel
  refine ⟨_, _, _, _, _, ⟨_, _, _, rfl, rfl, rfl, rfl⟩, fun _ => ⟨_, rfl⟩, rfl, rfl, rfl, le_rfl,
    ?_⟩
  rcases hresult : (guarded (.text "meddle") (some 0) meddle (clearAt ['a']) .quiet).1 with
    stop | _ | m
  · rw [hresult] at hfailed
    cases hfailed
  · rfl
  · rw [hresult] at hfailed
    cases hfailed

/-- The guarded rule fails although the first evaluation of its body reads a character and marks
its frame, because the next one takes the mark off. -/
theorem recant_departs : ∃ call s' σ m σ₁,
    Call.Enters call (.text "recant") (some 0) (clearAt ['a']) .quiet s' σ ∧
      call.AlwaysReturns (clearAt ['a']).width (recant s') σ ∧
      recant s' σ = (.ok (some m), σ₁) ∧ (σ₁.frame call.frame).reentered = true ∧
      1 ≤ m.consumed (clearAt ['a']).remaining ∧
      readOff (guarded (.text "recant") (some 0) recant (clearAt ['a']) .quiet).1 = .ok none := by
  obtain ⟨call, s', σ, henters, hframe, hwidth, m, σ₁, hfirst, hmarked, hconsumed⟩ :
      ∃ call s' σ, Call.Enters call (.text "recant") (some 0) (clearAt ['a']) .quiet s' σ ∧
        call.frame = 0 ∧ s'.width = (clearAt ['a']).width ∧
        ∃ m σ₁, recant s' σ = (.ok (some m), σ₁) ∧ (σ₁.frame call.frame).reentered = true ∧
          1 ≤ m.consumed (clearAt ['a']).remaining :=
    ⟨_, _, _, ⟨_, _, _, rfl, rfl, rfl, rfl⟩, rfl, rfl, _, _, rfl, rfl, le_rfl⟩
  have hfailed : (guarded (.text "recant") (some 0) recant (clearAt ['a']) .quiet).1.toOption.map
      Option.isSome = some false := by decide +kernel
  refine ⟨call, s', σ, m, σ₁, henters, ?_, hfirst, hmarked, hconsumed, ?_⟩
  · refine Call.alwaysReturns_of_frame_lt henters.facts.2.1.frame_lt fun σ' hlt => ?_
    have hframes : (recant s' σ').2.frames =
        σ'.frames.modify 0 fun frame => { frame with reentered := frame.best.isNone } := rfl
    have hkeeps : σ'.KeepsFrame (recant s' σ').2 call.frame := by
      rw [hframe] at hlt ⊢
      rw [Session.KeepsFrame, Session.frame_modify hframes hlt, if_pos rfl]
    refine ⟨_, _, rfl, (Array.size_modify ..).symm ▸ hlt, hkeeps, fun m hm => ?_⟩
    obtain ⟨-, hm⟩ := Option.ite_none_right_eq_some.1 hm
    cases hm
    exact hwidth
  · rcases hresult : (guarded (.text "recant") (some 0) recant (clearAt ['a']) .quiet).1 with
      stop | _ | m
    · rw [hresult] at hfailed
      cases hfailed
    · rfl
    · rw [hresult] at hfailed
      cases hfailed

/-- A body that returns is evaluated once, and the guarded rule does not return because its
trace meets a number that is too long. A body reads nothing and calls the rule where it
begins, and the guarded rule does not fail because its frame has not been marked. A body reads
a character, and the guarded rule fails because the body has written into its frame, or because
it takes the mark off the frame when it is evaluated again. -/
theorem growth_departs :
    (∃ call s' σ first σ₁, Call.Enters call (.text "tall") (some 0) (clearAt ['a']) .traced s' σ ∧
      call.AlwaysReturns (clearAt ['a']).width (tall s') σ ∧
      tall s' σ = (.ok first, σ₁) ∧ (σ₁.frame call.frame).reentered = false ∧
      readOff (guarded (.text "tall") (some 0) tall (clearAt ['a']) .traced).1 ≠
        .ok (first.map Match.found)) ∧
    (∃ call s' σ first σ₁ s'' σ₂,
      Call.Enters call (.text "astray") (some 0) (clearAt ['a']) .quiet s' σ ∧
      call.AlwaysReturns (clearAt ['a']).width (strayed s') σ ∧
      Relation.TransGen astray.Leads ⟨1, (astray.rule ()).body, s', σ⟩ ⟨1, .ref (), s'', σ₂⟩ ∧
      s''.remaining = (clearAt ['a']).remaining ∧
      strayed s' σ = (.ok first, σ₁) ∧
      (∀ m, first = some m → m.consumed (clearAt ['a']).remaining < 1) ∧
      readOff (guarded (.text "astray") (some 0) strayed (clearAt ['a']) .quiet).1 ≠ .ok none) ∧
    (∃ call s' σ m σ₁,
      Call.Enters call (.text "meddle") (some 0) (clearAt ['a']) .quiet s' σ ∧
      (∀ σ', ∃ σ'', meddle s' σ' = (.ok (some m), σ'')) ∧
      m.rest.width = (clearAt ['a']).width ∧ meddle s' σ = (.ok (some m), σ₁) ∧
      (σ₁.frame call.frame).reentered = true ∧ 1 ≤ m.consumed (clearAt ['a']).remaining ∧
      readOff (guarded (.text "meddle") (some 0) meddle (clearAt ['a']) .quiet).1 = .ok none) ∧
    ∃ call s' σ m σ₁,
      Call.Enters call (.text "recant") (some 0) (clearAt ['a']) .quiet s' σ ∧
      call.AlwaysReturns (clearAt ['a']).width (recant s') σ ∧
      recant s' σ = (.ok (some m), σ₁) ∧ (σ₁.frame call.frame).reentered = true ∧
      1 ≤ m.consumed (clearAt ['a']).remaining ∧
      readOff (guarded (.text "recant") (some 0) recant (clearAt ['a']) .quiet).1 = .ok none := by
  refine ⟨?_, ?_, meddle_departs, recant_departs⟩
  · obtain ⟨call, s', σ, henters, hwidth, hunmarked⟩ : ∃ call s' σ,
        Call.Enters call (.text "tall") (some 0) (clearAt ['a']) .traced s' σ ∧
          s'.width = (clearAt ['a']).width ∧ (σ.frame call.frame).reentered = false :=
      ⟨_, _, _, ⟨_, _, _, rfl, rfl, rfl, rfl⟩, rfl, rfl⟩
    have herror : (readOff (guarded (.text "tall") (some 0) tall (clearAt ['a']) .traced).1).isOk =
        false := by decide +kernel
    refine ⟨call, s', σ, _, _, henters, ?_, rfl, hunmarked, fun heq => ?_⟩
    · refine Call.alwaysReturns_of_frame_lt henters.facts.2.1.frame_lt fun σ' hlt => ?_
      refine ⟨_, _, rfl, hlt, .of_frames rfl _, fun m hm => ?_⟩
      cases hm
      exact hwidth
    · rw [heq] at herror
      cases herror
  · obtain ⟨call, s', σ, first, σ₁, s'', σ₂, henters, hfirst, hframes, hunmarked, hshort, hleads,
      hstill⟩ := astray_enters
    have hmatched : (guarded (.text "astray") (some 0) strayed (clearAt ['a']) .quiet).1.toOption
        |>.any Option.isSome := by decide +kernel
    refine ⟨call, s', σ, first, σ₁, s'', σ₂, henters, fun seeds σ' hadopts => ?_, hleads, hstill,
      hfirst, fun m hm => (hshort m hm).2, fun hnone => ?_⟩
    · obtain rfl := hadopts.eq_nil hfirst hunmarked
      obtain ⟨-, rfl⟩ := hadopts.unique .first rfl
      exact ⟨first, σ₁, hfirst, hframes ▸ henters.facts.2.1.frame_lt, .of_frames hframes _,
        fun m hm => (hshort m hm).1⟩
    · rcases hresult : (guarded (.text "astray") (some 0) strayed (clearAt ['a']) .quiet).1 with
        stop | _ | m
      · rw [hresult] at hnone
        cases hnone
      · rw [hresult] at hmatched
        cases hmatched
      · rw [hresult] at hnone
        cases hnone

end SeedGrowth
