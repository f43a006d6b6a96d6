import SeedGrowth.Proofs.Verbosity.Basic
import SeedGrowth.Proofs.Visit.Basic

/-!
# Guarded calls that are traced

Every step of a guarded call is echoed by that step of a call which is traced instead. What
the steps report are the name of the rule, results of its body, and the best match in a frame,
which was such a result before. If these have been said, the rounds of the two calls go on
side by side, since their results are the same.
-/
namespace SeedGrowth

variable {said : Value → Prop} {first : Nat} {σ τ : Session} {s : Cursor}

open Eval (Echoed)

/-- The calls find the same, but the second one may be traced where the first is not. -/
def Arrival.Louder (arrival arrival' : Arrival) : Prop :=
  ∃ loud, arrival' = { arrival with verbose := loud } ∧ (arrival.verbose = true → loud = true)

/-- The calls are the same, but the second one may be traced where the first is not. -/
def Call.Louder (call call' : Call) : Prop :=
  ∃ loud, call' = { call with verbose := loud } ∧ (call.verbose = true → loud = true)

/-- The results are the same, and what they are worth has been said. -/
def SaidAlike (said : Value → Prop) (result result' : Option Match) : Prop :=
  result' = result ∧ ∀ m, result = some m → said m.value

/-- What results that have been said are worth may be quoted. -/
theorem said_of_mem {result : Option Match} (h : ∀ m, result = some m → said m.value) {x : Value}
    (hx : x ∈ (result.map (·.value)).toList) : said x := by
  rw [Option.mem_toList, Option.map_eq_some_iff] at hx
  obtain ⟨m, hm, rfl⟩ := hx
  exact h m hm

theorem arrive_echoed (h : σ.Echoes said first τ) (name : Value) (bound : Option RegistryId)
    (s : Cursor) :
    Echoed said first σ τ (arrive name bound s) (arrive name bound s)
      fun arrival arrival' => arrival.Louder arrival' ∧ arrival.name = name := by
  rw [arrive_apply]
  refine .bind (.registryOr h bound) ?_
  rintro id _ σ₁ τ₁ - h₁ rfl
  refine .bind (.flagOf h₁ id name) ?_
  rintro flag _ σ₂ τ₂ - h₂ rfl
  refine .bind (.lift h₂ _) ?_
  rintro f _ σ₃ τ₃ - h₃ rfl
  refine .bind (.read h₃ (h₃.louder.registry id)) ?_
  intro r r' σ₄ τ₄ _ h₄ hr
  refine .bind (.lift h₄ _) ?_
  rintro active _ σ₅ τ₅ - h₅ rfl
  exact .pure h₅ ⟨⟨r'.verbose, by rw [hr.level_eq], hr.verbose⟩, rfl⟩

namespace Arrival

variable {arrival arrival' : Arrival}

/-- Both calls enter a frame of the same number, which has no match yet. -/
theorem begin_echoed (ha : arrival.Louder arrival') (hname : said arrival.name)
    (h : σ.Echoes said first τ) (s : Cursor) :
    Echoed said first σ τ (arrival.begin s) (arrival'.begin s) fun (call, s') (call', s'') =>
      call.Louder call' ∧ s'' = s' ∧ call = arrival.call σ.frames.size := by
  obtain ⟨loud, rfl, hloud⟩ := ha
  have hnew : Echoed said first σ τ
      (Eval.newFrame (.begin arrival.name arrival.flag arrival.position))
      (Eval.newFrame (.begin arrival.name arrival.flag arrival.position)) (· = ·) := by
    refine .answered (h.withFrames (·.push _) fun id hid m hm => ?_)
      (congrArg Array.size h.louder.frames_eq).symm
    rw [Session.frame_push (σ := σ) rfl] at hm
    split at hm
    · cases hm
    · exact h.said id hid m hm
  refine .bind hnew ?_
  rintro frame _ σ₁ τ₁ heq h₁ rfl
  cases heq
  refine .bind (.lift h₁ _) ?_
  rintro flags _ σ₂ τ₂ - h₂ rfl
  refine .bind (.trace h₂ hloud fun x hx => ?_) fun _ _ σ₃ τ₃ _ h₃ _ =>
    .pure h₃ ⟨⟨loud, rfl, hloud⟩, rfl, rfl⟩
  rcases List.mem_singleton.1 hx with rfl
  exact hname

/-- Both calls are answered with the best match of one frame, which has been said. -/
theorem answer_echoed (ha : arrival.Louder arrival') (hname : said arrival.name)
    (h : σ.Echoes said first τ)
    (hfound : ∀ id, arrival.anchor.frame? arrival.flag = some id → id < σ.frames.size ∧
      ∀ m, (σ.frame id).best = some m → said m.value) :
    Echoed said first σ τ arrival.answer arrival'.answer (· = ·) := by
  obtain ⟨loud, rfl, hloud⟩ := ha
  unfold answer
  cases hframe : arrival.anchor.frame? arrival.flag with
  | none => exact .pure h rfl
  | some id =>
    obtain ⟨hlt, hbest⟩ := hfound id hframe
    -- Marking a frame does not change its best match.
    have hkept : ∀ {σ' : Session},
        σ'.frames = σ.frames.modify id (fun frame => { frame with reentered := true }) →
        ∀ id', (σ'.frame id').best = (σ.frame id').best := by
      intro σ' hframes id'
      rw [Session.frame_modify hframes hlt]
      split
      · next heq => rw [heq]
      · rfl
    have hmark : Echoed said first σ τ
        (Eval.modifyFrame id fun frame => { frame with reentered := true })
        (Eval.modifyFrame id fun frame => { frame with reentered := true })
        fun _ _ => True := by
      refine .answered (h.withFrames (·.modify id _) fun id' hid m hm => ?_) trivial
      rw [hkept rfl] at hm
      exact h.said id' hid m hm
    refine .bind hmark fun _ _ σ₁ τ₁ hrun h₁ _ => ?_
    have hframes : σ₁.frames = σ.frames.modify id fun frame => { frame with reentered := true } :=
      (congrArg (fun p => p.2.frames) hrun).symm
    refine .bind (.read h₁ (h₁.louder.frame_eq id).symm) ?_
    rintro frame _ σ₂ τ₂ hread h₂ rfl
    have hsaid : ∀ m, frame.best = some m → said m.value := by
      have heq : σ₁.frame id = frame := Except.ok.inj (congrArg Prod.fst hread)
      rw [← heq, hkept hframes]
      exact hbest
    refine .bind (.trace h₂ hloud fun x hx => ?_) fun _ _ σ₃ τ₃ _ h₃ _ => .pure h₃ rfl
    rcases List.mem_cons.1 hx with rfl | hx
    · exact hname
    · exact said_of_mem hsaid hx

end Arrival

namespace Call

variable {call call' : Call} {result : Option Match} {body : Eval (Option Match)} {σ₀ : Session}

theorem review_echoed (hc : call.Louder call') (hname : said call.name)
    (hfirst : first ≤ call.frame) (hresult : ∀ m, result = some m → said m.value)
    (h : σ.Echoes said first τ) (round : Nat) :
    Echoed said first σ τ (call.review round result) (call'.review round result)
      fun (frame frame' : Frame) => frame' = frame ∧ ∀ m, frame.best = some m → said m.value := by
  obtain ⟨loud, rfl, hloud⟩ := hc
  refine .bind (.trace h hloud fun x hx => ?_) fun _ _ σ₁ τ₁ _ h₁ _ =>
    .read h₁ ⟨h₁.louder.frame_eq _, h₁.said _ hfirst⟩
  rcases List.mem_cons.1 hx with rfl | hx
  · exact hname
  · exact said_of_mem hresult hx

theorem settle_echoed (hc : call.Louder call') {frame : Frame}
    (hbest : ∀ m, frame.best = some m → said m.value) (h : σ.Echoes said first τ)
    (result : Option Match) :
    Echoed said first σ τ (call.settle frame result) (call'.settle frame result)
      (SaidAlike said) := by
  obtain ⟨loud, rfl, hloud⟩ := hc
  refine .bind (.trace h hloud fun x hx => ?_) fun _ _ σ₁ τ₁ _ h₁ _ => .pure h₁ ⟨rfl, hbest⟩
  cases result <;> exact said_of_mem hbest hx

theorem adopt_echoed (hc : call.Louder call') {m : Match} (hm : said m.value)
    (h : σ.Echoes said first τ) :
    Echoed said first σ τ (call.adopt m) (call'.adopt m) fun _ _ => True := by
  obtain ⟨loud, rfl, -⟩ := hc
  refine .answered (h.withFrames (·.modify call.frame _) fun id hid m' hm' => ?_) trivial
  rw [Session.frame, Array.getD_eq_getD_getElem?, Array.getElem?_modify] at hm'
  split at hm'
  · cases hframe : σ.frames[id]? with
    | none =>
      rw [hframe] at hm'
      cases hm'
    | some frame =>
      rw [hframe] at hm'
      cases hm'
      exact hm
  · rw [← Array.getD_eq_getD_getElem?] at hm'
    exact h.said id hid m' hm'

/-- The two calls judge a result alike. -/
theorem judge_echoed (hc : call.Louder call') (hname : said call.name)
    (hfirst : first ≤ call.frame) (hresult : ∀ m, result = some m → said m.value)
    (h : σ.Echoes said first τ) (round : Nat) {further further' : Match → Eval (Option Match)}
    (hfurther : ∀ frame m σ' τ', (σ.frame call.frame).reentered = true →
      call.review round result σ = (.ok frame, σ') → call.longer? frame result = some m →
      σ'.Echoes said first τ' →
      Echoed said first σ' τ' (further m) (further' m) (SaidAlike said)) :
    Echoed said first σ τ (call.judge round result further) (call'.judge round result further')
      (SaidAlike said) := by
  have hlonger : ∀ frame, call'.longer? frame result = call.longer? frame result := by
    obtain ⟨loud, rfl, -⟩ := hc
    exact fun _ => rfl
  have hframe : call'.frame = call.frame := by
    obtain ⟨loud, rfl, -⟩ := hc
    rfl
  rw [judge, judge, hframe]
  refine .bind (.read h (h.louder.frame_eq call.frame).symm) ?_
  rintro frame _ σ₁ τ₁ hread h₁ rfl
  cases hread
  split
  · next hmarked =>
    refine .bind (review_echoed hc hname hfirst hresult h₁ round) ?_
    rintro _ frame σ₂ τ₂ hreview h₂ ⟨rfl, hbest⟩
    rw [hlonger]
    cases hl : call.longer? frame result with
    | none => exact settle_echoed hc hbest h₂ result
    | some m => exact hfurther frame m σ₂ τ₂ hmarked hreview hl h₂
  · exact .pure h₁ ⟨rfl, hresult⟩

/-- The rounds of the two calls go on side by side. -/
theorem grow_echoed (hc : call.Louder call') (hname : said call.name) (hfirst : first ≤ call.frame)
    (hbody : ∀ round σ' τ', call.Evaluates body σ₀ round σ' → σ'.Echoes said first τ' →
      Echoed said first σ' τ' body body (SaidAlike said)) :
    ∀ (rounds : Nat) {round : Nat} {last : Option Match} {σ₁ σ τ : Session},
      call.Evaluates body σ₀ round σ₁ → body σ₁ = (.ok last, σ) →
      (∀ m, last = some m → said m.value) → σ.Echoes said first τ →
      Echoed said first σ τ (call.grow body rounds (round + 1) last)
        (call'.grow body rounds (round + 1) last) (SaidAlike said) := by
  intro rounds
  induction rounds with
  | zero =>
    intro round last σ₁ σ τ hround hlast hsaid h
    exact judge_echoed hc hname hfirst hsaid h _ fun _ _ _ _ _ _ _ h₂ => .throw h₂ _
  | succ rounds ih =>
    intro round last σ₁ σ τ hround hlast hsaid h
    refine judge_echoed hc hname hfirst hsaid h _ fun frame m σ₂ τ₂ hmarked hreview hl h₂ => ?_
    have hm : last = some m := (Option.filter_eq_some_iff.1 hl).1
    refine .bind (adopt_echoed hc (hsaid m hm) h₂) fun _ _ σ₃ τ₃ hadopt h₃ _ => ?_
    have hnext := hround.again hlast hmarked hreview hl hadopt
    refine .bind (hbody _ _ _ hnext h₃) ?_
    rintro next _ σ₄ τ₄ hrun h₄ ⟨rfl, hsaid'⟩
    exact ih hnext hrun hsaid' h₄

theorem evaluate_echoed (hc : call.Louder call') (hname : said call.name)
    (hfirst : first ≤ call.frame) (h : σ.Echoes said first τ)
    (hbody : ∀ round σ' τ', call.Evaluates body σ round σ' → σ'.Echoes said first τ' →
      Echoed said first σ' τ' body body (SaidAlike said)) :
    Echoed said first σ τ (call.evaluate body) (call'.evaluate body) (SaidAlike said) := by
  have hposition : call'.position = call.position := by
    obtain ⟨loud, rfl, -⟩ := hc
    rfl
  rw [evaluate, evaluate, hposition]
  refine .bind (hbody 0 σ τ .first h) ?_
  rintro result _ σ₁ τ₁ hrun h₁ ⟨rfl, hsaid⟩
  exact grow_echoed hc hname hfirst hbody _ .first hrun hsaid h₁

theorem finish_echoed (hc : call.Louder call') (hname : said call.name)
    (hresult : ∀ m, result = some m → said m.value) (h : σ.Echoes said first τ) :
    Echoed said first σ τ (call.finish result) (call'.finish result) (· = ·) := by
  obtain ⟨loud, rfl, hloud⟩ := hc
  refine .bind (.trace h hloud fun x hx => ?_) fun _ _ σ₁ τ₁ _ h₁ _ => ?_
  · rcases List.mem_cons.1 hx with rfl | hx
    · exact hname
    · exact said_of_mem hresult hx
  · cases result with
    | none => exact .pure h₁ rfl
    | some m =>
      refine .bind (.lift h₁ _) ?_
      rintro m' _ σ₂ τ₂ - h₂ rfl
      exact .pure h₂ rfl

end Call

/-- A guarded call is echoed by one that is traced, if results of its body have been said and
its frame is one of those that only have such matches. -/
theorem guarded_echoed {name : Value} {bound : Option RegistryId}
    {body : Cursor → Eval (Option Match)} (hname : said name) (h : σ.Echoes said first τ)
    (hfirst : ∀ arrival σ', arrive name bound s σ = (.ok arrival, σ') →
      first ≤ σ'.frames.size ∧ ∀ id, arrival.anchor.frame? arrival.flag = some id →
        id < σ'.frames.size ∧ ∀ m, (σ'.frame id).best = some m → said m.value)
    (hbody : ∀ arrival σ₁ call s' σ₂ round σ' τ', arrive name bound s σ = (.ok arrival, σ₁) →
      arrival.active = false → arrival.begin s σ₁ = (.ok (call, s'), σ₂) →
      call.Evaluates (body s') (σ₂.modifyRegistry call.registry fun r =>
        { r with level := r.level + 1 }) round σ' → σ'.Echoes said first τ' →
      Echoed said first σ' τ' (body s') (body s') (SaidAlike said)) :
    Echoed said first σ τ (guarded name bound body s) (guarded name bound body s) (· = ·) := by
  refine .bind (arrive_echoed h name bound s) ?_
  rintro arrival arrival' σ₁ τ₁ harrive h₁ ⟨ha, rfl⟩
  obtain ⟨hsize, hfound⟩ := hfirst arrival σ₁ harrive
  have hactive : arrival'.active = arrival.active := by
    obtain ⟨loud, rfl, -⟩ := ha
    rfl
  rw [hactive]
  cases hset : arrival.active with
  | true => exact Arrival.answer_echoed ha hname h₁ hfound
  | false =>
    refine .bind (Arrival.begin_echoed ha hname h₁ s) ?_
    rintro ⟨call, _⟩ ⟨call', s'⟩ σ₂ τ₂ hbegin h₂ ⟨hc, rfl, rfl⟩
    have hregistry : call'.registry = arrival.registry := by
      obtain ⟨loud, rfl, -⟩ := hc
      rfl
    dsimp only
    rw [hregistry]
    have hcall : Echoed said first σ₂ τ₂
        (Eval.deeper arrival.registry ((arrival.call σ₁.frames.size).evaluate (body s')))
        (Eval.deeper arrival.registry (call'.evaluate (body s'))) (SaidAlike said) :=
      .deeper h₂ fun h₃ => Call.evaluate_echoed hc hname hsize h₃
        fun round σ' τ' hround h' =>
        hbody _ _ _ _ _ round σ' τ' harrive hset hbegin hround h'
    refine .bind hcall ?_
    rintro result _ σ₃ τ₃ - h₃ ⟨rfl, hresult⟩
    exact Call.finish_echoed hc hname hresult h₃

end SeedGrowth
