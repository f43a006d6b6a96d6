import SeedGrowth.Grammar.Evaluation
import SeedGrowth.Proofs.Cursor.Coherence

/-!
# Evaluations keep cursors standing

Evaluated where cursor and session are upright, a parser gives a match that stands in the
source behind its cursor, and leaves the session upright. For most parsers that is because
they only advance. A guarded call hands out what was kept in a frame: its own, which holds
nothing but results of its body, or that of an unfinished call at the same position.
-/
namespace SeedGrowth

variable {ρ α β : Type} {o : Origin} {σ σ' : Session} {s : Cursor}

/-- An evaluation that goes well leaves the session upright, keeps the frames there are, and
gives what is stated. -/
def Eval.Upholds (o : Origin) (σ : Session) (x : Eval α) (post : α → Session → Prop) : Prop :=
  ∀ a σ', x σ = (.ok a, σ') → σ'.Upright o ∧ σ.Proceeds σ' ∧ post a σ'

namespace Eval.Upholds

variable {post : α → Session → Prop} {post' : β → Session → Prop}

theorem pure {a : α} (h : σ.Upright o) (ha : post a σ) :
    Upholds o σ (Pure.pure a : Eval α) post := by
  intro a' σ' heq
  cases heq
  exact ⟨h, .refl σ, ha⟩

theorem throw (stop : Stop) : Upholds o σ (MonadExcept.throw stop : Eval α) post := by
  intro a σ' heq
  cases heq

theorem bind {x : Eval α} {f : α → Eval β} (hx : Upholds o σ x post)
    (hf : ∀ a σ', σ'.Upright o → σ.Proceeds σ' → post a σ' → Upholds o σ' (f a) post') :
    Upholds o σ (x >>= f) post' := by
  intro b σ₂ heq
  obtain ⟨a, σ₁, hrun, hrest⟩ := Program.exists_of_bind heq
  obtain ⟨hupright, hproceeds, ha⟩ := hx a σ₁ hrun
  obtain ⟨hupright', hproceeds', hb⟩ := hf a σ₁ hupright hproceeds ha b σ₂ hrest
  exact ⟨hupright', hproceeds.trans hproceeds', hb⟩

/-- Evaluations that leave the frames alone. -/
theorem of_frames {x : Eval α} (h : σ.Upright o)
    (hx : ∀ a σ', x σ = (.ok a, σ') → σ'.frames = σ.frames ∧ post a σ') :
    Upholds o σ x post := by
  intro a σ' heq
  obtain ⟨hframes, ha⟩ := hx a σ' heq
  exact ⟨h.of_frames hframes, .of_frames hframes, ha⟩

theorem lift {x : Except Fault α} (h : σ.Upright o) :
    Upholds o σ (Eval.lift x) fun a _ => x = .ok a := by
  refine .of_frames h fun a σ' heq => ?_
  obtain ⟨hx, rfl⟩ := Eval.eq_of_lift heq
  exact ⟨rfl, hx⟩

theorem read (h : σ.Upright o) (f : Session → α) : Upholds o σ (Eval.read f) fun _ _ => True := by
  refine .of_frames h fun a σ' heq => ?_
  cases heq
  exact ⟨rfl, trivial⟩

theorem trace {verbose : Bool} {event : TraceEvent} (h : σ.Upright o) :
    Upholds o σ (Eval.trace verbose event) fun _ _ => True :=
  .of_frames h fun _ _ heq => ⟨(Eval.sameStore_of_trace heq).frames, trivial⟩

theorem log {entry : Array Frame → LogEntry} (h : σ.Upright o) :
    Upholds o σ (Eval.log entry) fun _ _ => True := by
  refine .of_frames h fun _ σ' heq => ?_
  obtain ⟨session, σ₁, hget, heq⟩ := Program.exists_of_bind heq
  cases hget
  dsimp only at heq
  split at heq <;> cases heq
  exact ⟨rfl, trivial⟩

/-- Going down and up again in a registry does not touch frames. -/
theorem deeper {id : RegistryId} {x : Eval α}
    (hx : Upholds o (σ.modifyRegistry id fun r => { r with level := r.level + 1 }) x post)
    (hpost : ∀ a σ' σ'', σ''.frames = σ'.frames → post a σ' → post a σ'') :
    Upholds o σ (Eval.deeper id x) post := by
  intro a σ' heq
  cases hrun : x (σ.modifyRegistry id fun r => { r with level := r.level + 1 }) with
  | mk result σ₁ =>
    simp only [Eval.deeper, hrun] at heq
    cases heq
    obtain ⟨hupright, hproceeds, ha⟩ := hx a σ₁ hrun
    exact ⟨hupright.of_frames rfl, ⟨hproceeds.size_le, hproceeds.position_eq⟩,
      hpost a σ₁ _ rfl ha⟩

end Eval.Upholds

open Eval (Upholds)

/-- What a call finds where it looks up its flag: the anchor of a cursor with flags if that
was set there, or a new one. -/
structure Arrival.Meets (arrival : Arrival) (s : Cursor) : Prop where
  flags?_eq : ∃ f, s.payload.flags? = some f
  position_eq : arrival.position = s.remaining
  anchored : arrival.anchor.position = s.remaining
  frame?_eq : ∀ i, arrival.anchor.frame? i = s.frameAt s.remaining i

/-- Looking up a flag leaves the frames alone. -/
theorem meets_of_arrive {name : Value} {bound : Option RegistryId} {arrival : Arrival}
    (h : arrive name bound s σ = (.ok arrival, σ')) :
    σ'.frames = σ.frames ∧ arrival.Meets s := by
  rw [arrive_apply] at h
  obtain ⟨id, σ₁, hid, h⟩ := Program.exists_of_bind h
  obtain ⟨flag, σ₂, hflag, h⟩ := Program.exists_of_bind h
  obtain ⟨f, σ₃, hf, h⟩ := Program.exists_of_bind h
  obtain ⟨registry, σ₄, hread, h⟩ := Program.exists_of_bind h
  obtain ⟨active, σ₅, hactive, h⟩ := Program.exists_of_bind h
  cases h
  cases hread
  obtain ⟨hs, rfl⟩ := Eval.eq_of_lift hf
  obtain ⟨-, rfl⟩ := Eval.eq_of_lift hactive
  have hflags := Cursor.flags_eq_ok.1 hs
  obtain ⟨hanchored, -, hview⟩ := Flags.enterAt_spec s.remaining f
  refine ⟨(Eval.frames_of_flagOf hflag).trans (Eval.frames_of_registryOr hid), ⟨f, hflags⟩, rfl,
    hanchored, fun i => ?_⟩
  rw [(hview i).2, Cursor.frameAt, hflags, Option.bind_some]

theorem arrive_upholds {name : Value} {bound : Option RegistryId} (h : σ.Upright o) :
    Upholds o σ (arrive name bound s) fun arrival _ => arrival.Meets s :=
  .of_frames h fun _ _ heq => meets_of_arrive heq

/-- Where a call begins there is a new frame, and the cursor finds it besides those that were
found at the position. -/
theorem exists_of_begin {arrival : Arrival} {call : Call} {s' : Cursor}
    (h : arrival.begin s σ = (.ok (call, s'), σ')) :
    call = arrival.call σ.frames.size ∧
      σ'.frames = σ.frames.push (.begin arrival.name arrival.flag arrival.position) ∧
      ∃ flags : Flags Carried, s' = s.withFlags
        (flags.carrying (.anchor (arrival.anchor.insert arrival.flag σ.frames.size))) := by
  obtain ⟨frame, σ₁, hnew, h⟩ := Program.exists_of_bind h
  cases hnew
  obtain ⟨flags, σ₂, hset, h⟩ := Program.exists_of_bind h
  obtain ⟨_, σ₃, htraced, h⟩ := Program.exists_of_bind h
  cases h
  obtain ⟨-, rfl⟩ := Eval.eq_of_lift hset
  exact ⟨rfl, (Eval.sameStore_of_trace htraced).frames, flags, rfl⟩

/-- Taking a flag off leaves no frame that was not there. -/
theorem Flags.frameAt_of_withoutFlag {f f' : Flags Carried} {flag : Nat}
    (h : withoutFlag flag f = .ok f') {p i : Nat} {id : FrameId}
    (hframe : f'.frameAt p i = some id) : f.frameAt p i = some id := by
  have hclear : ∀ {g g' : Flags Carried}, g.clear (.int flag) = .ok g' →
      g'.frameAt p i = g.frameAt p i := by
    intro g g' hg
    obtain ⟨n, -, hn⟩ := bind_eq_ok.1 hg
    cases hn
    rfl
  unfold withoutFlag at h
  split at h
  · next a hcarried =>
    split at h
    · rw [hclear h, frameAt, anchorAt_carrying, Anchor.position_erase] at hframe
      split at hframe
      · next hp =>
        rw [Option.bind_some, Anchor.frame?_erase] at hframe
        split at hframe
        · cases hframe
        · rw [frameAt, anchorAt_eq_some.2 ⟨hcarried, hp⟩]
          exact hframe
      · cases hframe
    · rwa [hclear h] at hframe
  · rwa [hclear h] at hframe

/-- Flags that are set one after the other refer to the same frames. -/
theorem Flags.frameAt_of_foldlM {step : Flags Carried → Literal → Except Fault (Flags Carried)}
    (hstep : ∀ f literal f', step f literal = .ok f' → f'.frameAt = f.frameAt) :
    ∀ (literals : List Literal) {f f' : Flags Carried}, literals.foldlM step f = .ok f' →
      f'.frameAt = f.frameAt := by
  intro literals
  induction literals with
  | nil =>
    intro f f' h
    cases h
    rfl
  | cons literal rest ih =>
    intro f f' h
    rw [List.foldlM_cons] at h
    obtain ⟨f₁, hf₁, h⟩ := bind_eq_ok.1 h
    exact (ih h).trans (hstep f literal f₁ hf₁)

/-- Changed flags refer to no frame that they did not refer to before. -/
theorem Edit.frameAt_of_apply {change : Edit} {f f' : Flags Carried}
    (h : change.apply f = .ok f') {p i : Nat} {id : FrameId}
    (hframe : f'.frameAt p i = some id) : f.frameAt p i = some id := by
  have hlocated : ∀ {row : Kind} {g g' : Flags Carried} {literal : Literal}
      {next : Flags Carried → Nat → Flags Carried},
      (∀ n, (next g n).frameAt = g.frameAt) →
      (literal >>= fun v => next g <$> g.locate row v) = .ok g' → g'.frameAt = g.frameAt := by
    intro row g g' literal next hnext hg
    obtain ⟨v, -, hg⟩ := bind_eq_ok.1 hg
    obtain ⟨n, -, hn⟩ := bind_eq_ok.1 hg
    cases hn
    exact hnext n
  have hcleared : (if change.clearAll then f.clearAll else f).frameAt = f.frameAt := by
    split <;> rfl
  have hempty : ∀ (g : Flags Carried) position,
      (g.carrying (.anchor (.empty position))).frameAt p i ≠ some id := by
    intro g position hfound
    rw [Flags.frameAt, Flags.anchorAt_carrying] at hfound
    split at hfound <;> cases hfound
  rw [apply] at h
  obtain ⟨f₁, hset, h⟩ := bind_eq_ok.1 h
  obtain ⟨f₂, hclear, h⟩ := bind_eq_ok.1 h
  have h₁ := Flags.frameAt_of_foldlM (fun g literal g' => hlocated fun _ => rfl) _ hset
  have h₂ := Flags.frameAt_of_foldlM (fun g literal g' => hlocated fun _ => rfl) _ hclear
  rw [← hcleared, ← h₁, ← h₂]
  cases hanchor : change.anchor with
  | some position =>
    simp only [hanchor] at h
    cases hcarry : change.carry with
    | some literal =>
      simp only [hcarry] at h
      obtain ⟨v, -, h⟩ := bind_eq_ok.1 h
      cases h
      exact absurd hframe (hempty _ _)
    | none =>
      simp only [hcarry] at h
      cases h
      exact absurd hframe (hempty _ _)
  | none =>
    simp only [hanchor] at h
    cases hcarry : change.carry with
    | some literal =>
      simp only [hcarry] at h
      obtain ⟨v, -, h⟩ := bind_eq_ok.1 h
      cases h
      cases hframe
    | none =>
      simp only [hcarry] at h
      cases h
      exact hframe

namespace Cursor.Stands

theorem edit (h : s.Stands o σ) {change : Edit} {s' : Cursor} (hs' : s.edit change = .ok s') :
    s'.Stands o σ ∧ s'.remaining = s.remaining := by
  obtain ⟨f, hf, hs'⟩ := bind_eq_ok.1 hs'
  obtain ⟨f', hf', hs'⟩ := bind_eq_ok.1 hs'
  cases hs'
  have hflags := Cursor.flags_eq_ok.1 hf
  refine ⟨h.withFlags fun p i id hle hframe => h.frame p i id hle ?_, rfl⟩
  rw [Cursor.frameAt, Cursor.flags?_withFlags hflags, Option.bind_some] at hframe
  rw [Cursor.frameAt, hflags, Option.bind_some]
  exact Edit.frameAt_of_apply hf' hframe

/-- The cursor of a call that begins stands in the source, since the new frame is made where
the anchor is. -/
theorem begin (h : s.Stands o σ) (hu : σ.Upright o) {arrival : Arrival} (ha : arrival.Meets s)
    {flags : Flags Carried}
    (hframes : σ'.frames = σ.frames.push (.begin arrival.name arrival.flag arrival.position)) :
    (s.withFlags (flags.carrying (.anchor
      (arrival.anchor.insert arrival.flag σ.frames.size)))).Stands o σ' := by
  obtain ⟨f, hf⟩ := ha.flags?_eq
  have hposition := ha.position_eq
  refine (h.mono (.push hframes)).withFlags fun p i id hle hframe => ?_
  rw [frameAt, flags?_withFlags hf, Option.bind_some, Flags.frameAt, Flags.anchorAt_carrying,
    Anchor.position_insert, ha.anchored] at hframe
  split at hframe
  · next hp =>
    rw [Option.bind_some, Anchor.frame?_insert] at hframe
    split at hframe
    · cases hframe
      refine .inr ⟨hu.first_le, by simp [hframes], ?_⟩
      rw [Session.frame_push hframes, if_pos rfl]
      change arrival.position = p
      omega
    · rw [ha.frame?_eq] at hframe
      have hp : s.remaining = p := by omega
      exact (h.mono (.push hframes)).frame p i id hle (hp ▸ hframe)
  · cases hframe

end Cursor.Stands

/-- The frame of an unfinished call is new and was made where the call began. -/
structure Call.InPlace (o : Origin) (call : Call) (σ : Session) : Prop where
  first_le : o.first ≤ call.frame
  lt_size : call.frame < σ.frames.size
  position_eq : (σ.frame call.frame).position = call.position

theorem Call.InPlace.mono {call : Call} (h : call.InPlace o σ) (hσ : σ.Proceeds σ') :
    call.InPlace o σ' :=
  ⟨h.first_le, h.lt_size.trans_le hσ.size_le, (hσ.position_eq _ h.lt_size).trans h.position_eq⟩

namespace Arrival

/-- A call that finds its flag set gets a match from where it is. -/
theorem answer_upholds {arrival : Arrival} (h : σ.Upright o) (hs : s.Stands o σ)
    (ha : arrival.Meets s) :
    Upholds o σ arrival.answer fun result σ' => o.Admits σ' s.remaining result := by
  cases hframe : arrival.anchor.frame? arrival.flag with
  | none =>
    rw [answer, hframe]
    exact .pure h .none
  | some id =>
    have hfound := hframe
    rw [ha.frame?_eq] at hfound
    have hplace := hs.frame _ _ _ hs.remaining_le hfound
    have hbest : o.Admits σ s.remaining (σ.frame id).best := by
      rcases hplace with ⟨hlt, hheld⟩ | ⟨hnew, -, hposition⟩
      · exact h.held _ id hlt hheld
      · exact hposition ▸ h.best id hnew
    have hlt : id < σ.frames.size := by
      rcases hplace with ⟨hlt, -⟩ | ⟨-, hlt, -⟩
      · exact hlt.trans_le h.first_le
      · exact hlt
    obtain ⟨answer, σ₁, hanswer, -, -, hframes, hresult⟩ := answer_spec (σ := σ) hframe hlt
    intro result σ' heq
    rw [hanswer] at heq
    cases heq
    have hproceeds : σ.Proceeds σ₁ := .modify hframes hlt fun _ => rfl
    refine ⟨h.modify hframes hlt (fun _ => rfl) (fun _ => rfl) (h.best id), hproceeds, ?_⟩
    rcases hresult with heq | ⟨-, heq⟩ <;> cases heq
    exact hbest.mono hproceeds

/-- A call that begins is in place, with a cursor where it is. -/
theorem begin_upholds {arrival : Arrival} (h : σ.Upright o) (hs : s.Stands o σ)
    (ha : arrival.Meets s) :
    Upholds o σ (arrival.begin s) fun (call, s') σ' => s'.Stands o σ' ∧
      s'.remaining = s.remaining ∧ call.InPlace o σ' ∧ call.position = s.remaining := by
  rintro ⟨call, s'⟩ σ' heq
  obtain ⟨rfl, hframes, flags, rfl⟩ := exists_of_begin heq
  refine ⟨h.push hframes, .push hframes, hs.begin h ha hframes, rfl,
    ⟨h.first_le, by simp [call, hframes], ?_⟩, ha.position_eq⟩
  rw [Session.frame_push hframes]
  exact congrArg Frame.position (if_pos rfl)

end Arrival

namespace Call

variable {call : Call} {position : Nat} {result : Option Match}

theorem review_upholds (h : σ.Upright o) (round : Nat) (result : Option Match) :
    Upholds o σ (call.review round result) fun frame σ' => frame = σ'.frame call.frame := by
  refine .of_frames h fun frame σ' heq => ?_
  obtain ⟨answer, σ₁, hreview, hsame, hanswer⟩ := call.review_spec round result σ
  rw [hreview] at heq
  cases heq
  rcases hanswer with heq | ⟨-, heq⟩ <;> cases heq
  exact ⟨hsame.frames, (hsame.frame _).symm⟩

theorem adopt_upholds (h : σ.Upright o) (hc : call.InPlace o σ) {m : Match}
    (hm : o.Admits σ call.position (some m)) :
    Upholds o σ (call.adopt m) fun _ _ => True := by
  intro a σ' heq
  have hσ' : { σ with frames := σ.frames.modify call.frame fun frame =>
      { frame with best := some m, length := m.consumed call.position } } = σ' :=
    congrArg Prod.snd heq
  have hframes : σ'.frames = σ.frames.modify call.frame fun frame =>
      { frame with best := some m, length := m.consumed call.position } :=
    (congrArg Session.frames hσ').symm
  refine ⟨h.modify hframes hc.lt_size (fun _ => rfl) (fun hlt => ?_) fun _ => ?_,
    .modify hframes hc.lt_size fun _ => rfl, trivial⟩
  · exact absurd hc.first_le (Nat.not_le.2 hlt)
  · rw [hc.position_eq]
    exact hm

theorem settle_upholds (h : σ.Upright o) (hc : call.InPlace o σ) (result : Option Match) :
    Upholds o σ (call.settle (σ.frame call.frame) result) fun answer σ' =>
      o.Admits σ' call.position answer := by
  refine .of_frames h fun answer σ' heq => ?_
  obtain ⟨answer', σ₁, hsettle, hsame, hanswer⟩ := call.settle_spec (σ.frame call.frame) result σ
  rw [hsettle] at heq
  cases heq
  rcases hanswer with heq | ⟨-, heq⟩ <;> cases heq
  exact ⟨hsame.frames, hc.position_eq ▸ (h.best _ hc.first_le).mono (.of_frames hsame.frames)⟩

/-- What a review says is longer than the best match was the last result. -/
theorem eq_of_longer? {frame : Frame} {m : Match} (h : call.longer? frame result = some m) :
    result = some m := (Option.filter_eq_some_iff.1 h).1

variable {body : Eval (Option Match)}

theorem judge_upholds (round : Nat) (h : σ.Upright o) (hc : call.InPlace o σ)
    (hresult : o.Admits σ call.position result) {further : Match → Eval (Option Match)}
    (hfurther : ∀ m σ', result = some m → σ'.Upright o → σ.Proceeds σ' →
      Upholds o σ' (further m) fun answer σ'' => o.Admits σ'' call.position answer) :
    Upholds o σ (call.judge round result further) fun answer σ' =>
      o.Admits σ' call.position answer := by
  refine .bind (.read h (·.frame call.frame)) fun frame σ₁ h₁ hσ₁ _ => ?_
  split
  · refine .bind (review_upholds h₁ round result) ?_
    rintro _ σ₂ h₂ hσ₂ rfl
    have hσ := hσ₁.trans hσ₂
    cases hl : call.longer? (σ₂.frame call.frame) result with
    | none => exact settle_upholds h₂ (hc.mono hσ) result
    | some m => exact (hfurther m σ₂ (eq_of_longer? hl) h₂ hσ)
  · exact .pure h₁ (hresult.mono hσ₁)

/-- The rounds of a call keep its best match behind where the call began, if its body gives
nothing else. -/
theorem grow_upholds
    (hbody : ∀ σ', σ'.Upright o → σ.Proceeds σ' →
      Upholds o σ' body fun result σ'' => o.Admits σ'' call.position result) :
    ∀ (rounds round : Nat) (result : Option Match) {σ' : Session}, σ'.Upright o → σ.Proceeds σ' →
      call.InPlace o σ' → o.Admits σ' call.position result →
      Upholds o σ' (call.grow body rounds round result) fun answer σ'' =>
        o.Admits σ'' call.position answer := by
  intro rounds
  induction rounds with
  | zero =>
    intro round result σ₁ h hσ hc hresult
    exact judge_upholds round h hc hresult fun _ _ _ _ _ => .throw _
  | succ rounds ih =>
    intro round result σ₁ h hσ hc hresult
    refine judge_upholds round h hc hresult fun m σ₂ hm h₂ hσ₂ => ?_
    have hadmits := (hm ▸ hresult).mono hσ₂
    refine .bind (adopt_upholds h₂ (hc.mono hσ₂) hadmits) fun _ σ₃ h₃ hσ₃ _ => ?_
    have hσ' := hσ.trans (hσ₂.trans hσ₃)
    refine .bind (hbody σ₃ h₃ hσ') fun next σ₄ h₄ hσ₄ hnext => ?_
    exact ih (round + 1) next h₄ (hσ'.trans hσ₄) (hc.mono (hσ₂.trans (hσ₃.trans hσ₄))) hnext

theorem evaluate_upholds (h : σ.Upright o) (hc : call.InPlace o σ)
    (hbody : ∀ σ', σ'.Upright o → σ.Proceeds σ' →
      Upholds o σ' body fun result σ'' => o.Admits σ'' call.position result) :
    Upholds o σ (call.evaluate body) fun answer σ' => o.Admits σ' call.position answer := by
  refine .bind (hbody σ h (.refl σ)) fun result σ₁ h₁ hσ₁ hresult => ?_
  exact grow_upholds hbody _ _ _ h₁ hσ₁ (hc.mono hσ₁) hresult

theorem finish_upholds (h : σ.Upright o) (hresult : o.Admits σ position result) :
    Upholds o σ (call.finish result) fun answer σ' => o.Admits σ' position answer := by
  refine .bind (.trace h) fun _ σ₁ h₁ hσ₁ _ => ?_
  cases hresult with
  | none => exact .pure h₁ .none
  | @some m hstands hle =>
    refine .of_frames h₁ fun answer σ' heq => ?_
    dsimp only at heq
    cases hleave : m.leave call.flag with
    | error fault =>
      rw [hleave] at heq
      cases heq
    | ok m' =>
      rw [hleave] at heq
      cases heq
      refine ⟨rfl, ?_⟩
      obtain ⟨f, hf, hm'⟩ := bind_eq_ok.1 hleave
      obtain ⟨f', hwithout, hm'⟩ := bind_eq_ok.1 hm'
      cases hm'
      have hflags := Cursor.flags_eq_ok.1 hf
      have hstands' := hstands.mono hσ₁
      refine .some (hstands'.withFlags fun p i id hp hframe => hstands'.frame p i id hp ?_) hle
      rw [Cursor.frameAt, Cursor.flags?_withFlags hflags, Option.bind_some] at hframe
      rw [Cursor.frameAt, hflags, Option.bind_some]
      exact Flags.frameAt_of_withoutFlag hwithout hframe

end Call

/-- A guarded call gives matches behind its cursor if the body of its rule does. -/
theorem guarded_upholds {name : Value} {bound : Option RegistryId}
    {body : Cursor → Eval (Option Match)} (h : σ.Upright o) (hs : s.Stands o σ)
    (hbody : ∀ s' σ', σ'.Upright o → s'.Stands o σ' →
      Upholds o σ' (body s') fun result σ'' => o.Admits σ'' s'.remaining result) :
    Upholds o σ (guarded name bound body s) fun result σ' => o.Admits σ' s.remaining result := by
  refine .bind (arrive_upholds h) fun arrival σ₁ h₁ hσ₁ ha => ?_
  have hs₁ := hs.mono hσ₁
  split
  · exact Arrival.answer_upholds h₁ hs₁ ha
  · refine .bind (Arrival.begin_upholds h₁ hs₁ ha) ?_
    rintro ⟨call, s'⟩ σ₂ h₂ - ⟨hs', hremaining, hc, hcall⟩
    have hσ₂ : σ₂.Proceeds
        (σ₂.modifyRegistry call.registry fun r => { r with level := r.level + 1 }) :=
      .of_frames rfl
    have hlower : (σ₂.modifyRegistry call.registry
        fun r => { r with level := r.level + 1 }).Upright o := h₂.of_frames rfl
    have hevaluate := Call.evaluate_upholds hlower (hc.mono hσ₂) fun σ₃ h₃ hσ₃ => by
      rw [hcall, ← hremaining]
      exact hbody s' σ₃ h₃ (hs'.mono (hσ₂.trans hσ₃))
    refine .bind (.deeper hevaluate fun _ _ _ hframes hresult =>
      hresult.mono (.of_frames hframes)) fun result σ₃ h₃ _ hresult => ?_
    exact hcall ▸ Call.finish_upholds h₃ hresult

namespace Parser

variable {call : ρ → Cursor → Eval (Option Match)}

theorem repeatWhile_upholds {parser : Cursor → Eval (Option Match)}
    (hp : ∀ s σ, σ.Upright o → s.Stands o σ →
      Upholds o σ (parser s) fun result σ' => o.Admits σ' s.remaining result) :
    ∀ (rounds : Nat) (s : Cursor) (σ : Session), σ.Upright o → s.Stands o σ →
      Upholds o σ (repeatWhile parser rounds s) fun (rest, _) σ' =>
        rest.Stands o σ' ∧ rest.remaining ≤ s.remaining := by
  intro rounds
  induction rounds with
  | zero => exact fun _ _ _ _ => .throw _
  | succ rounds ih =>
    intro s σ h hs
    rw [repeatWhile]
    refine .bind (hp s σ h hs) ?_
    rintro _ σ₁ h₁ hσ₁ (_ | @⟨m, hm, hle⟩)
    · exact .pure h₁ ⟨hs.mono hσ₁, le_rfl⟩
    · dsimp only
      split
      · exact .pure h₁ ⟨hs.mono hσ₁, le_rfl⟩
      · refine .bind (ih m.rest σ₁ h₁ hm) ?_
        rintro ⟨rest, values⟩ σ₂ h₂ - ⟨hrest, hle'⟩
        exact .pure h₂ ⟨hrest, hle'.trans hle⟩

/-- A match of the next characters stands where they end. -/
theorem admits_matchNext (hs : s.Stands o σ) (count : Nat) :
    o.Admits σ s.remaining (some (matchNext s count)) :=
  .some (hs.advance count) ((s.remaining_advance count).trans_le (Nat.sub_le _ _))

mutual

/-- Parsers give matches behind their cursor if calls of rules do. -/
theorem eval_upholds (hcall : ∀ r s σ, σ.Upright o → s.Stands o σ →
      Upholds o σ (call r s) fun result σ' => o.Admits σ' s.remaining result) :
    ∀ (parser : Parser ρ) s σ, σ.Upright o → s.Stands o σ →
      Upholds o σ (parser.eval call s) fun result σ' => o.Admits σ' s.remaining result
  | tag text, s, σ, h, hs => by
    refine .pure h ?_
    split
    · exact admits_matchNext hs _
    · exact .none
  | scanner rule, s, σ, h, hs => by
    refine .pure h ?_
    cases rule.scan s.fragment with
    | none => exact .none
    | some count => exact admits_matchNext hs count
  | eof, s, σ, h, hs => by
    refine .pure h ?_
    split
    · exact .some hs le_rfl
    · exact .none
  | alt branches, s, σ, h, hs => evalFirst_upholds hcall branches s σ h hs
  | sequence items, s, σ, h, hs => by
    refine .bind (evalAll_upholds hcall items s σ h hs) ?_
    rintro (_ | ⟨rest, values⟩) σ₁ h₁ - hrest
    · exact .pure h₁ .none
    · obtain ⟨hrest, hle⟩ := hrest rest values rfl
      exact .pure h₁ (.some hrest hle)
  | mapped parser change, s, σ, h, hs => by
    refine .bind (eval_upholds hcall parser s σ h hs) ?_
    rintro _ σ₁ h₁ - (_ | ⟨hm, hle⟩)
    · exact .pure h₁ .none
    · exact .bind (.lift h₁) fun w σ₂ h₂ hσ₂ _ => .pure h₂ (.some (hm.mono hσ₂) hle)
  | opt parser, s, σ, h, hs => by
    refine .bind (eval_upholds hcall parser s σ h hs) ?_
    rintro _ σ₁ h₁ hσ₁ (_ | ⟨hm, hle⟩)
    · exact .pure h₁ (.some (hs.mono hσ₁) le_rfl)
    · exact .pure h₁ (.some hm hle)
  | many parser, s, σ, h, hs => by
    refine .bind (repeatWhile_upholds (eval_upholds hcall parser) _ s σ h hs) ?_
    rintro ⟨rest, values⟩ σ₁ h₁ - ⟨hrest, hle⟩
    exact .pure h₁ (.some hrest hle)
  | ref r, s, σ, h, hs => hcall r s σ h hs
  | peek parser, s, σ, h, hs => by
    refine .bind (eval_upholds hcall parser s σ h hs) ?_
    rintro _ σ₁ h₁ hσ₁ (_ | _)
    · exact .pure h₁ .none
    · exact .pure h₁ (.some (hs.mono hσ₁) le_rfl)
  | absent parser, s, σ, h, hs => by
    refine .bind (eval_upholds hcall parser s σ h hs) ?_
    rintro _ σ₁ h₁ hσ₁ (_ | _)
    · exact .pure h₁ (.some (hs.mono hσ₁) le_rfl)
    · exact .pure h₁ .none
  | .edit change, s, σ, h, hs => by
    refine .bind (.lift h) fun s' σ₁ h₁ hσ₁ hs' => ?_
    obtain ⟨hstands, hle⟩ := hs.edit hs'
    exact .pure h₁ (.some (hstands.mono hσ₁) hle.le)
  | reveal, s, σ, h, hs => by
    refine .bind (.lift h) fun f σ₁ h₁ hσ₁ _ => ?_
    refine .bind (.read h₁ id) fun session σ₂ h₂ hσ₂ _ => ?_
    refine .bind (.lift h₂) fun text σ₃ h₃ hσ₃ _ => ?_
    refine .bind (.log h₃) fun _ σ₄ h₄ hσ₄ _ => ?_
    exact .pure h₄ (.some (hs.mono (hσ₁.trans (hσ₂.trans (hσ₃.trans hσ₄)))) le_rfl)
  | probe label, s, σ, h, hs =>
    .bind (.log h) fun _ _ h₁ _ _ => .pure h₁ .none
  | .watch label parser, s, σ, h, hs => by
    refine .bind (.log h) fun _ σ₁ h₁ hσ₁ _ => ?_
    refine .bind (eval_upholds hcall parser s σ₁ h₁ (hs.mono hσ₁)) fun result σ₂ h₂ _ hm => ?_
    exact .bind (.log h₂) fun _ σ₃ h₃ hσ₃ _ => .pure h₃ (hm.mono hσ₃)

theorem evalFirst_upholds (hcall : ∀ r s σ, σ.Upright o → s.Stands o σ →
      Upholds o σ (call r s) fun result σ' => o.Admits σ' s.remaining result) :
    ∀ (branches : List (Parser ρ)) s σ, σ.Upright o → s.Stands o σ →
      Upholds o σ (evalFirst call branches s) fun result σ' => o.Admits σ' s.remaining result
  | [], _, _, h, _ => .pure h .none
  | parser :: rest, s, σ, h, hs => by
    refine .bind (eval_upholds hcall parser s σ h hs) ?_
    rintro _ σ₁ h₁ hσ₁ (_ | ⟨hm, hle⟩)
    · exact evalFirst_upholds hcall rest s σ₁ h₁ (hs.mono hσ₁)
    · exact .pure h₁ (.some hm hle)

theorem evalAll_upholds (hcall : ∀ r s σ, σ.Upright o → s.Stands o σ →
      Upholds o σ (call r s) fun result σ' => o.Admits σ' s.remaining result) :
    ∀ (items : List (Parser ρ)) s σ, σ.Upright o → s.Stands o σ →
      Upholds o σ (evalAll call items s) fun result σ' =>
        ∀ rest values, result = some (rest, values) →
        rest.Stands o σ' ∧ rest.remaining ≤ s.remaining
  | [], s, σ, h, hs => by
    refine .pure h fun rest values heq => ?_
    cases heq
    exact ⟨hs, le_rfl⟩
  | parser :: items, s, σ, h, hs => by
    refine .bind (eval_upholds hcall parser s σ h hs) ?_
    rintro _ σ₁ h₁ - (_ | @⟨m, hm, hle⟩)
    · exact .pure h₁ fun _ _ heq => nomatch heq
    · refine .bind (evalAll_upholds hcall items m.rest σ₁ h₁ hm) ?_
      rintro (_ | ⟨last, values⟩) σ₂ h₂ - hlast
      · exact .pure h₂ fun _ _ heq => nomatch heq
      · obtain ⟨hlast, hle'⟩ := hlast last values rfl
        refine .pure h₂ fun rest values' heq => ?_
        cases heq
        exact ⟨hlast, hle'.trans hle⟩

end

end Parser

/-- Calls of rules give matches behind their cursor. -/
theorem Grammar.call_upholds (g : Grammar ρ) (depth : Nat) :
    ∀ r s σ, σ.Upright o → s.Stands o σ →
      Upholds o σ (g.call depth r s) fun result σ' => o.Admits σ' s.remaining result := by
  induction depth with
  | zero => exact fun _ _ _ _ _ => .throw _
  | succ depth ih =>
    intro r s σ h hs
    have hbody := Parser.eval_upholds ih (g.rule r).body
    rw [call]
    split
    · exact hbody s σ h hs
    · exact guarded_upholds h hs hbody

end SeedGrowth
