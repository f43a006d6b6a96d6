import SeedGrowth.Proofs.Run.Coherence
import SeedGrowth.Proofs.Visit.Rounds

/-!
# The seeds that a call adopts

A guarded call evaluates its body with a failure as its best match, and again with every
match that it adopts as its seed. The history of adoptions is kept here for a body that may
be any program, as long as it returns and leaves the frame of the call alone: the seeds get
longer and longer, so that there are not more of them than characters ahead, and the loop
ends where a result is not longer than the last seed, or where the body takes the mark off
the frame.
-/
namespace SeedGrowth

namespace Call

/-- The seeds that a call has adopted, the last one first, and the session in which it
evaluates its body then. -/
inductive Adopts (call : Call) (body : Eval (Option Match)) (σ : Session) :
    List Match → Session → Prop where
  | first : Adopts call body σ [] σ
  | further {seeds σ₁ σ₂ σ₃ σ₄ result frame m} : Adopts call body σ seeds σ₁ →
      body σ₁ = (.ok result, σ₂) → (σ₂.frame call.frame).reentered = true →
      call.review (seeds.length + 1) result σ₂ = (.ok frame, σ₃) →
      call.longer? frame result = some m → call.adopt m σ₃ = (.ok (), σ₄) →
      Adopts call body σ (m :: seeds) σ₄

/-- How much text the last seed takes up; without any, none. -/
def lengthOf (call : Call) (seeds : List Match) : Nat :=
  (seeds.head?.map (·.consumed call.position)).getD 0

/-- Every seed takes up more text than those before it, and each of them some. -/
structure Ascends (call : Call) (seeds : List Match) : Prop where
  longer : seeds.Pairwise fun m m' => m'.consumed call.position < m.consumed call.position
  positive : ∀ m ∈ seeds, 1 ≤ m.consumed call.position

/-- The frame of the call holds the last seed. -/
structure Holds (call : Call) (seeds : List Match) (σ : Session) : Prop where
  frame_lt : call.frame < σ.frames.size
  best_eq : (σ.frame call.frame).best = seeds.head?
  length_eq : (σ.frame call.frame).length = call.lengthOf seeds

/-- The evaluation of a body returns, leaves the frame of the call alone up to its mark, and
gives a cursor of the width if it matches. -/
def Returns (call : Call) (width : Option Nat) (body : Eval (Option Match)) (σ : Session) : Prop :=
  ∃ result σ', body σ = (.ok result, σ') ∧ call.frame < σ'.frames.size ∧
    σ.KeepsFrame σ' call.frame ∧ ∀ m, result = some m → m.rest.width = width

/-- Whenever the body is evaluated, it returns. -/
def AlwaysReturns (call : Call) (width : Option Nat) (body : Eval (Option Match)) (σ : Session) :
    Prop :=
  ∀ seeds σ', call.Adopts body σ seeds σ' → call.Returns width body σ'

variable {call : Call} {body : Eval (Option Match)} {σ σ' : Session} {seeds : List Match}
  {width : Option Nat}

/-- No match takes up more text than there is. -/
theorem lengthOf_le (call : Call) (seeds : List Match) : call.lengthOf seeds ≤ call.position := by
  cases seeds with
  | nil => exact Nat.zero_le _
  | cons m seeds => exact Nat.sub_le _ _

/-- A longer match than the last seed goes on ascending. -/
theorem Ascends.cons (h : call.Ascends seeds) {m : Match}
    (hm : call.lengthOf seeds < m.consumed call.position) : call.Ascends (m :: seeds) := by
  refine ⟨List.pairwise_cons.2 ⟨fun m' hm' => ?_, h.longer⟩, fun m' hm' => ?_⟩
  · cases seeds with
    | nil => cases hm'
    | cons last seeds =>
      rcases List.mem_cons.1 hm' with rfl | hm'
      · exact hm
      · exact ((List.pairwise_cons.1 h.longer).1 m' hm').trans hm
  · rcases List.mem_cons.1 hm' with rfl | hm'
    · exact Nat.one_le_of_lt hm
    · exact h.positive m' hm'

/-- Behind every seed less text is left than behind the one before. -/
theorem Ascends.remaining_lt {m m' : Match} (h : call.Ascends (m :: m' :: seeds)) :
    m.rest.remaining < m'.rest.remaining := by
  have hlonger := (List.pairwise_cons.1 h.longer).1 m' List.mem_cons_self
  rw [Match.consumed, Match.consumed] at hlonger
  omega

/-- There are at most as many seeds as the last one has characters. -/
theorem Ascends.length_le (h : call.Ascends seeds) : seeds.length ≤ call.lengthOf seeds := by
  induction seeds with
  | nil => exact le_rfl
  | cons m seeds ih =>
    obtain ⟨hlonger, htail⟩ := List.pairwise_cons.1 h.longer
    have hlength := ih ⟨htail, fun m' hm' => h.positive m' (List.mem_cons_of_mem _ hm')⟩
    have hlt : call.lengthOf seeds < m.consumed call.position := by
      cases seeds with
      | nil => exact h.positive m List.mem_cons_self
      | cons last seeds => exact hlonger last List.mem_cons_self
    exact hlength.trans_lt hlt

theorem Holds.keeps (h : call.Holds seeds σ) (hlt : call.frame < σ'.frames.size)
    (hk : σ.KeepsFrame σ' call.frame) : call.Holds seeds σ' :=
  ⟨hlt, hk.best_eq.trans h.best_eq, hk.length_eq.trans h.length_eq⟩

/-- Sessions with the same frames hold the same seeds. -/
theorem Holds.same (h : call.Holds seeds σ) (hs : σ.SameStore σ') : call.Holds seeds σ' :=
  h.keeps (hs.frames ▸ h.frame_lt) (.of_frames hs.frames _)

/-- A match that is longer than the best one is longer than the last seed. -/
theorem Holds.lt_of_longer? (h : call.Holds seeds σ) {result : Option Match} {m : Match}
    (hl : call.longer? (σ.frame call.frame) result = some m) :
    result = some m ∧ call.lengthOf seeds < m.consumed call.position := by
  obtain ⟨hm, hlt⟩ := Option.filter_eq_some_iff.1 hl
  exact ⟨hm, h.length_eq ▸ of_decide_eq_true hlt⟩

/-- A result is not longer than the best match if and only if it is not longer than the last
seed. -/
theorem Holds.longer?_eq_none (h : call.Holds seeds σ) {result : Option Match} :
    call.longer? (σ.frame call.frame) result = none ↔
      ∀ m, result = some m → m.consumed call.position ≤ call.lengthOf seeds := by
  rw [longer?, Option.filter_eq_none_iff, h.length_eq]
  simp only [decide_eq_true_eq, not_lt]

/-- Adopting a match makes it the last seed. -/
theorem Holds.adopt (h : call.Holds seeds σ) {m : Match}
    (hadopt : call.adopt m σ = (.ok (), σ')) : call.Holds (m :: seeds) σ' := by
  have hframes : σ'.frames = σ.frames.modify call.frame fun frame =>
      { frame with best := some m, length := m.consumed call.position } := by
    cases hadopt
    rfl
  have hframe := Session.frame_modify hframes h.frame_lt call.frame
  rw [if_pos rfl] at hframe
  refine ⟨?_, congrArg Frame.best hframe, congrArg Frame.length hframe⟩
  rw [hframes, Array.size_modify]
  exact h.frame_lt

/-- A review that goes well changes no frame. -/
theorem sameStore_of_review {round : Nat} {result : Option Match} {frame : Frame}
    (h : call.review round result σ = (.ok frame, σ')) : σ.SameStore σ' := by
  obtain ⟨answer, σ₁, hreview, hsame, -⟩ := call.review_spec round result σ
  rw [hreview] at h
  cases h
  exact hsame

namespace Adopts

variable {seeds' : List Match} {σ₁ σ₂ : Session}

/-- The session depends on the number of seeds alone, and so do they. -/
theorem unique (h : call.Adopts body σ seeds σ₁) (h' : call.Adopts body σ seeds' σ₂)
    (hlength : seeds.length = seeds'.length) : seeds = seeds' ∧ σ₁ = σ₂ := by
  induction h generalizing seeds' σ₂ with
  | first =>
    cases h' with
    | first => exact ⟨rfl, rfl⟩
    | further => cases hlength
  | further _ hbody _ hreview hlonger hadopt ih =>
    cases h' with
    | first => cases hlength
    | further h₀ hbody' _ hreview' hlonger' hadopt' =>
      have hlength₀ := Nat.succ.inj hlength
      obtain ⟨rfl, rfl⟩ := ih h₀ hlength₀
      rw [hbody] at hbody'
      cases hbody'
      rw [hreview] at hreview'
      cases hreview'
      rw [hlonger] at hlonger'
      cases hlonger'
      rw [hadopt] at hadopt'
      cases hadopt'
      exact ⟨rfl, rfl⟩

/-- The seeds before the last ones were adopted as well. -/
theorem of_suffix (h : call.Adopts body σ seeds σ') (hs : seeds' <:+ seeds) :
    ∃ σ₁, call.Adopts body σ seeds' σ₁ := by
  induction h with
  | first =>
    cases List.suffix_nil.1 hs
    exact ⟨σ, .first⟩
  | further h₀ hbody hmarked hreview hlonger hadopt ih =>
    rcases List.suffix_cons_iff.1 hs with rfl | hs
    · exact ⟨_, h₀.further hbody hmarked hreview hlonger hadopt⟩
    · exact ih hs

/-- What was adopted before the last seed is a suffix of what was adopted until then. -/
theorem suffix_of_le (h : call.Adopts body σ seeds σ₁) (h' : call.Adopts body σ seeds' σ₂)
    (hlength : seeds'.length ≤ seeds.length) : seeds' <:+ seeds := by
  have hdrop : seeds.drop (seeds.length - seeds'.length) <:+ seeds := List.drop_suffix _ _
  obtain ⟨σ₃, hdropped⟩ := h.of_suffix hdrop
  obtain ⟨heq, -⟩ := hdropped.unique h' (by rw [List.length_drop]; omega)
  rwa [heq] at hdrop

/-- As long as the body returns, the frame holds the last seed, and the seeds ascend. -/
theorem holds (h : call.Adopts body σ seeds σ') (hr : call.AlwaysReturns width body σ)
    (hfirst : call.Holds [] σ) : call.Holds seeds σ' ∧ call.Ascends seeds := by
  induction h with
  | first => exact ⟨hfirst, .nil, fun m hm => by cases hm⟩
  | further h₀ hbody _ hreview hlonger hadopt ih =>
    obtain ⟨hholds, hascends⟩ := ih
    obtain ⟨result', σ₂', hbody', hlt, hkeeps, -⟩ := hr _ _ h₀
    rw [hbody] at hbody'
    cases hbody'
    have hholds₂ := hholds.keeps hlt hkeeps
    cases frame_of_review hreview
    obtain ⟨-, hlonger⟩ := hholds₂.lt_of_longer? hlonger
    exact ⟨(hholds₂.same (sameStore_of_review hreview)).adopt hadopt, hascends.cons hlonger⟩

/-- There are at most as many seeds as characters ahead. -/
theorem length_le (h : call.Adopts body σ seeds σ') (hr : call.AlwaysReturns width body σ)
    (hfirst : call.Holds [] σ) : seeds.length ≤ call.position :=
  (h.holds hr hfirst).2.length_le.trans (call.lengthOf_le seeds)

/-- Where the frame is not marked, or a result is not longer than the last seed, all seeds have
been adopted. -/
theorem suffix_of_last (h : call.Adopts body σ seeds σ') {last : Option Match} {σ₂ : Session}
    (hlast : body σ' = (.ok last, σ₂))
    (hl : (σ₂.frame call.frame).reentered = true → call.longer? (σ₂.frame call.frame) last = none)
    (h' : call.Adopts body σ seeds' σ₁) : seeds' <:+ seeds := by
  induction h' with
  | first => exact List.nil_suffix
  | further h₀ hbody hmarked hreview hlonger hadopt ih =>
    have hlt : ¬ seeds.length = _ := fun hlength => by
      obtain ⟨rfl, rfl⟩ := h.unique h₀ hlength
      rw [hlast] at hbody
      cases hbody
      cases frame_of_review hreview
      rw [hl hmarked] at hlonger
      cases hlonger
    have hle := ih.length_le
    exact h.suffix_of_le (h₀.further hbody hmarked hreview hlonger hadopt)
      (Nat.lt_of_le_of_ne hle (Ne.symm hlt))

/-- Where a seed has just been adopted, the frame is marked. -/
theorem marked {m : Match} (h : call.Adopts body σ (m :: seeds) σ') :
    (σ'.frame call.frame).reentered = true := by
  cases h with
  | further _ _ hmarked hreview _ hadopt =>
    cases eq_of_adopt hadopt
    refine call.keepsMarks_adopted m _ call.frame ?_
    rwa [(sameStore_of_review hreview).frame]

end Adopts

/-- The end of the loop: a seed, the evaluation of the body with it, and a result that is not
longer. -/
structure Ends (call : Call) (body : Eval (Option Match)) (σ : Session) (seeds : List Match)
    (last : Option Match) : Prop where
  adopted : ∃ σ₁ σ₂, call.Adopts body σ seeds σ₁ ∧ (σ₁.frame call.frame).best = seeds.head? ∧
    body σ₁ = (.ok last, σ₂)
  all_adopted : ∀ seeds' σ', call.Adopts body σ seeds' σ' → seeds' <:+ seeds
  not_longer : ∀ m, last = some m → m.consumed call.position ≤ call.lengthOf seeds

/-- Another end of the loop: the body takes the mark off the frame. -/
structure Lapses (call : Call) (body : Eval (Option Match)) (σ : Session) (seeds : List Match)
    (last : Option Match) : Prop where
  unmarked : ∃ σ₁ σ₂, call.Adopts body σ seeds σ₁ ∧ (σ₁.frame call.frame).reentered = true ∧
    body σ₁ = (.ok last, σ₂) ∧ (σ₂.frame call.frame).reentered = false
  all_adopted : ∀ seeds' σ', call.Adopts body σ seeds' σ' → seeds' <:+ seeds

/-- The trace of a verbose registry meets a number that is too long. -/
def Untraced {α : Type} (call : Call) (result : Except Stop α) : Prop :=
  call.verbose = true ∧ result = .error (.fault .unwritableInteger)

/-- The program comes to the last seed that there is, or to the result that the body gives when
it takes the mark off, unless a trace stops it. -/
def Settles (call : Call) (body : Eval (Option Match)) (σ : Session)
    (result : Except Stop (Option Match)) : Prop :=
  call.Untraced result ∨ (∃ seeds last, call.Ends body σ seeds last ∧ result = .ok seeds.head?) ∨
    ∃ seeds last, call.Lapses body σ seeds last ∧ result = .ok last

/-- A result is judged where the frame is marked, given how the loop goes on with a longer
match. -/
theorem judge_settles (hr : call.AlwaysReturns width body σ) (hfirst : call.Holds [] σ)
    {last : Option Match} {σ₁ σ₂ : Session} (hadopts : call.Adopts body σ seeds σ₁)
    (hbody : body σ₁ = (.ok last, σ₂)) (hmarked : (σ₂.frame call.frame).reentered = true)
    {further : Match → Eval (Option Match)}
    (hfurther : ∀ m σ₃,
      call.review (seeds.length + 1) last σ₂ = (.ok (σ₂.frame call.frame), σ₃) →
      call.longer? (σ₂.frame call.frame) last = some m → call.Settles body σ (further m σ₃).1) :
    call.Settles body σ (call.judge (seeds.length + 1) last further σ₂).1 := by
  obtain ⟨hholds, -⟩ := hadopts.holds hr hfirst
  obtain ⟨last', σ₂', hbody', hlt, hkeeps, -⟩ := hr _ _ hadopts
  rw [hbody] at hbody'
  cases hbody'
  have hholds₂ := hholds.keeps hlt hkeeps
  rw [judge_apply, if_pos hmarked]
  obtain ⟨answer, σ₃, hreview, -, hanswer⟩ := call.review_spec (seeds.length + 1) last σ₂
  rcases hanswer with rfl | ⟨hverbose, rfl⟩
  · rw [Program.bind_ok hreview]
    cases hl : call.longer? (σ₂.frame call.frame) last with
    | some m => exact hfurther m σ₃ hreview hl
    | none =>
      obtain ⟨answer, σ₄, hsettle, -, hanswer⟩ := call.settle_spec (σ₂.frame call.frame) last σ₃
      dsimp only
      rw [hsettle]
      rcases hanswer with rfl | ⟨hverbose, rfl⟩
      · refine .inr (.inl ⟨seeds, last, ⟨⟨σ₁, σ₂, hadopts, hholds.best_eq, hbody⟩, ?_, ?_⟩, ?_⟩)
        · exact fun seeds' σ' h' => hadopts.suffix_of_last hbody (fun _ => hl) h'
        · exact hholds₂.longer?_eq_none.1 hl
        · exact congrArg Except.ok hholds₂.best_eq
      · exact .inl ⟨hverbose, rfl⟩
  · rw [Program.bind_error hreview]
    exact .inl ⟨hverbose, rfl⟩

/-- The loop ends with a result that comes without the mark that the frame had before. -/
theorem Adopts.grow_lapses (h : call.Adopts body σ seeds σ') {last : Option Match} {σ₂ : Session}
    (hbody : body σ' = (.ok last, σ₂))
    (hfirst : seeds = [] → (σ₂.frame call.frame).reentered = true)
    (hidle : ¬ (σ₂.frame call.frame).reentered = true) {rounds round : Nat} :
    ∃ seeds last', call.Lapses body σ seeds last' ∧
      (call.grow body rounds round last σ₂).1 = .ok last' := by
  cases seeds with
  | nil => exact absurd (hfirst rfl) hidle
  | cons m seeds =>
    refine ⟨m :: seeds, last, ⟨⟨σ', σ₂, h, h.marked, hbody, Bool.eq_false_iff.2 hidle⟩, ?_⟩, ?_⟩
    · exact fun seeds' σ₁ h' => h.suffix_of_last hbody (fun hmarked => absurd hmarked hidle) h'
    · rw [call.grow_of_idle body rounds round last hidle]

/-- The loop has enough rounds to come to its end. -/
theorem grow_settles (hr : call.AlwaysReturns width body σ) (hfirst : call.Holds [] σ) :
    ∀ (rounds : Nat) {seeds : List Match} {last : Option Match} {σ₁ σ₂ : Session},
      call.Adopts body σ seeds σ₁ → body σ₁ = (.ok last, σ₂) →
      (seeds = [] → (σ₂.frame call.frame).reentered = true) →
      call.position ≤ seeds.length + rounds →
      call.Settles body σ (call.grow body rounds (seeds.length + 1) last σ₂).1 := by
  intro rounds
  induction rounds with
  | zero =>
    intro seeds last σ₁ σ₂ hadopts hbody hfirstMark hrounds
    by_cases hmarked : (σ₂.frame call.frame).reentered = true
    · refine judge_settles hr hfirst hadopts hbody hmarked fun m σ₃ hreview hlonger => ?_
      -- A further seed would be longer than the text.
      have hadopted := hadopts.further hbody hmarked hreview hlonger rfl
      have hle := hadopted.length_le hr hfirst
      rw [List.length_cons] at hle
      omega
    · exact .inr (.inr (hadopts.grow_lapses hbody hfirstMark hmarked))
  | succ rounds ih =>
    intro seeds last σ₁ σ₂ hadopts hbody hfirstMark hrounds
    by_cases hmarked : (σ₂.frame call.frame).reentered = true
    · refine judge_settles hr hfirst hadopts hbody hmarked fun m σ₃ hreview hlonger => ?_
      obtain ⟨σ₄, hadopt⟩ : ∃ σ₄, call.adopt m σ₃ = (.ok (), σ₄) := ⟨_, rfl⟩
      have hadopted := hadopts.further hbody hmarked hreview hlonger hadopt
      obtain ⟨next, σ₅, hnext, -⟩ := hr _ _ hadopted
      rw [Program.bind_ok hadopt, Program.bind_ok hnext]
      exact ih hadopted hnext (by rintro ⟨⟩) (by rw [List.length_cons]; omega)
    · exact .inr (.inr (hadopts.grow_lapses hbody hfirstMark hmarked))

/-- A call evaluates its body and then goes through the loop. -/
theorem evaluate_apply {first : Option Match} {σ₁ : Session} (hfirst : body σ = (.ok first, σ₁)) :
    call.evaluate body σ = call.grow body call.position 1 first σ₁ :=
  Program.bind_ok hfirst _

/-- A body that returns wherever the frame is there always returns. -/
theorem alwaysReturns_of_frame_lt (hlt : call.frame < σ.frames.size)
    (hr : ∀ σ', call.frame < σ'.frames.size → call.Returns width body σ') :
    call.AlwaysReturns width body σ := by
  intro seeds σ' h
  refine hr σ' ?_
  induction h with
  | first => exact hlt
  | further _ hbody _ hreview _ hadopt ih =>
    obtain ⟨result, σ₂, hbody', hlt', -⟩ := hr _ ih
    rw [hbody] at hbody'
    cases hbody'
    cases hadopt
    rw [← (sameStore_of_review hreview).frames] at hlt'
    exact (Array.size_modify ..).symm ▸ hlt'

section

variable {body' : Eval (Option Match)}

/-- The loop evaluates its body where seeds have been adopted, and nowhere else. -/
theorem grow_congr
    (heq : ∀ seeds σ', call.Adopts body σ seeds σ' → body' σ' = body σ') :
    ∀ (rounds : Nat) {seeds : List Match} {last : Option Match} {σ₁ σ₂ : Session},
      call.Adopts body σ seeds σ₁ → body σ₁ = (.ok last, σ₂) →
      call.grow body' rounds (seeds.length + 1) last σ₂ =
        call.grow body rounds (seeds.length + 1) last σ₂ := by
  intro rounds
  induction rounds with
  | zero =>
    intro seeds last σ₁ σ₂ _ _
    rw [grow, grow]
  | succ rounds ih =>
    intro seeds last σ₁ σ₂ hadopts hbody
    rw [grow, grow, judge_apply, judge_apply]
    split
    · next hmarked =>
      obtain ⟨answer, σ₃, hreview, -, hanswer⟩ := call.review_spec (seeds.length + 1) last σ₂
      rcases hanswer with rfl | ⟨-, rfl⟩
      · rw [Program.bind_ok hreview, Program.bind_ok hreview]
        cases hl : call.longer? (σ₂.frame call.frame) last with
        | none => rfl
        | some m =>
          obtain ⟨σ₄, hadopt⟩ : ∃ σ₄, call.adopt m σ₃ = (.ok (), σ₄) := ⟨_, rfl⟩
          have hadopted := hadopts.further hbody hmarked hreview hl hadopt
          dsimp only
          rw [Program.bind_ok hadopt, Program.bind_ok hadopt]
          cases hnext : body σ₄ with
          | mk result σ₅ =>
            have hnext' := (heq _ _ hadopted).trans hnext
            cases result with
            | ok next =>
              rw [Program.bind_ok hnext, Program.bind_ok hnext']
              exact ih hadopted hnext
            | error stop => rw [Program.bind_error hnext, Program.bind_error hnext']
      · rw [Program.bind_error hreview, Program.bind_error hreview]
    · rfl

/-- A call evaluates its body where seeds have been adopted, and nowhere else. -/
theorem evaluate_congr
    (heq : ∀ seeds σ', call.Adopts body σ seeds σ' → body' σ' = body σ') :
    call.evaluate body' σ = call.evaluate body σ := by
  cases hfirst : body σ with
  | mk result σ₁ =>
    have hfirst' := (heq _ _ .first).trans hfirst
    cases result with
    | ok first =>
      rw [evaluate_apply hfirst, evaluate_apply hfirst']
      exact grow_congr heq _ .first hfirst
    | error stop => rw [evaluate, evaluate, Program.bind_error hfirst, Program.bind_error hfirst']

end

end Call

end SeedGrowth
