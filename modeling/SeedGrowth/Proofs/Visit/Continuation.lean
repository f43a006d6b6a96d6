import SeedGrowth.Proofs.Cursor.Evaluation
import SeedGrowth.Proofs.Verbosity.Silence
import SeedGrowth.Proofs.Visit.Course

/-!
# How a session goes on

Along the course of an evaluation the trace grows at its end, frames are added, and those there
are keep their positions, their flags and their marks. So what an evaluation leads to goes on
where it begins, and is gone on from where it ends. A frame that is marked in the end, and was
not at first, has been marked by a call that found its flag set.
-/
namespace SeedGrowth

variable {ρ : Type} {g : Grammar ρ} {σ σ' σ'' : Session}

/-- The later session has the frames of the other one, with their positions, flags and marks,
and its trace goes on. -/
structure Session.Continues (σ σ' : Session) : Prop extends σ.Proceeds σ' where
  flag_eq : ∀ id, id < σ.frames.size → (σ'.frame id).flag = (σ.frame id).flag
  marked : ∀ id, id < σ.frames.size → (σ.frame id).reentered = true →
    (σ'.frame id).reentered = true
  trace : σ.trace.toList <+: σ'.trace.toList

namespace Session

theorem toList_trace_recorded (σ : Session) (event : TraceEvent) :
    (σ.recorded true event).trace.toList = σ.trace.toList ++ [event] := by
  simp [recorded]

theorem size_trace_eq {events : List TraceEvent}
    (h : σ'.trace.toList = σ.trace.toList ++ events) :
    σ'.trace.size = σ.trace.size + events.length := by
  rw [← Array.length_toList, h, List.length_append, Array.length_toList]

namespace Continues

theorem refl (σ : Session) : σ.Continues σ :=
  ⟨.refl σ, fun _ _ => rfl, fun _ _ h => h, List.prefix_rfl⟩

theorem trans (h : σ.Continues σ') (h' : σ'.Continues σ'') : σ.Continues σ'' where
  toProceeds := h.toProceeds.trans h'.toProceeds
  flag_eq id hid := (h'.flag_eq id (hid.trans_le h.size_le)).trans (h.flag_eq id hid)
  marked id hid hmarked := h'.marked id (hid.trans_le h.size_le) (h.marked id hid hmarked)
  trace := h.trace.trans h'.trace

/-- Frames do not change if the trace goes on. -/
theorem of_frames (h : σ'.frames = σ.frames) (ht : σ.trace.toList <+: σ'.trace.toList) :
    σ.Continues σ' where
  toProceeds := .of_frames h
  flag_eq id _ := congrArg Frame.flag (frame_of_frames h id)
  marked id _ hmarked := (congrArg Frame.reentered (frame_of_frames h id)).trans hmarked
  trace := ht

theorem of_same (h : σ'.frames = σ.frames) (ht : σ'.trace = σ.trace) : σ.Continues σ' :=
  .of_frames h (ht ▸ List.prefix_rfl)

theorem recorded (σ : Session) (verbose : Bool) (event : TraceEvent) :
    σ.Continues (σ.recorded verbose event) := by
  refine .of_frames (sameStore_recorded σ verbose event).frames ?_
  cases verbose with
  | false => exact List.prefix_rfl
  | true =>
    rw [toList_trace_recorded]
    exact List.prefix_append ..

theorem push (σ : Session) (frame : Frame) :
    σ.Continues { σ with frames := σ.frames.push frame } where
  toProceeds := .push rfl
  flag_eq id hid := by rw [frame_push rfl, if_neg hid.ne]
  marked id hid hmarked := by rwa [frame_push rfl, if_neg hid.ne]
  trace := List.prefix_rfl

/-- A frame may be changed if its position, its flag and its mark are kept. -/
theorem modify (σ : Session) (id : FrameId) {change : Frame → Frame}
    (hposition : ∀ frame, (change frame).position = frame.position)
    (hflag : ∀ frame, (change frame).flag = frame.flag)
    (hmark : ∀ frame : Frame, frame.reentered = true → (change frame).reentered = true) :
    σ.Continues { σ with frames := σ.frames.modify id change } where
  size_le := by simp
  position_eq id' _ := apply_frame_modify Frame.position σ id hposition id'
  flag_eq id' _ := apply_frame_modify Frame.flag σ id hflag id'
  marked id' _ hmarked := by
    rw [frame_modify_eq]
    split
    · next h => exact hmark _ (h.1 ▸ hmarked)
    · exact hmarked
  trace := List.prefix_rfl

theorem mark (σ : Session) (id : FrameId) : σ.Continues (σ.marked id) :=
  .modify σ id (fun _ => rfl) (fun _ => rfl) fun _ _ => rfl

end Continues

end Session

open Session

theorem Call.continues_adopted (call : Call) (m : Match) (σ : Session) :
    σ.Continues (call.adopted m σ) :=
  .modify σ call.frame (fun _ => rfl) (fun _ => rfl) fun _ h => h

theorem Call.reentered_adopted (call : Call) (m : Match) (σ : Session) (id : FrameId) :
    ((call.adopted m σ).frame id).reentered = (σ.frame id).reentered := by
  refine apply_frame_modify Frame.reentered σ call.frame ?_ id
  exact fun _ => rfl

/-- Looking up a flag is not traced. -/
theorem trace_of_arrive {name : Value} {bound : Option RegistryId} {s : Cursor}
    {arrival : Arrival} (h : arrive name bound s σ = (.ok arrival, σ')) : σ'.trace = σ.trace := by
  rw [arrive_apply] at h
  obtain ⟨id, σ₁, hid, h⟩ := Program.exists_of_bind h
  obtain ⟨flag, σ₂, hflag, h⟩ := Program.exists_of_bind h
  obtain ⟨f, σ₃, hf, h⟩ := Program.exists_of_bind h
  obtain ⟨registry, σ₄, hread, h⟩ := Program.exists_of_bind h
  obtain ⟨active, σ₅, hactive, h⟩ := Program.exists_of_bind h
  cases h
  cases hread
  obtain ⟨-, rfl⟩ := Eval.eq_of_lift hf
  obtain ⟨-, rfl⟩ := Eval.eq_of_lift hactive
  have hregistry := Eval.trace_registryOr bound σ
  have hname := Eval.trace_flagOf id name σ₁
  rw [hid] at hregistry
  rw [hflag] at hname
  exact hname.trans hregistry

theorem continues_of_arrive {name : Value} {bound : Option RegistryId} {s : Cursor}
    {arrival : Arrival} (h : arrive name bound s σ = (.ok arrival, σ')) : σ.Continues σ' :=
  .of_same (meets_of_arrive h).1 (trace_of_arrive h)

theorem Arrival.continues_of_answer {arrival : Arrival} {result : Option Match}
    (h : arrival.answer σ = (.ok result, σ')) : σ.Continues σ' := by
  rcases eq_of_answer h with ⟨-, -, rfl⟩ | ⟨id, -, -, rfl⟩
  · exact .refl _
  · exact (Continues.mark σ id).trans (.recorded ..)

theorem Arrival.continues_begun (arrival : Arrival) (s : Cursor) (σ : Session) :
    σ.Continues (arrival.begun s σ) :=
  (Continues.push σ _).trans (.recorded ..)

/-- A call that has begun says so in the trace. -/
theorem Arrival.toList_trace_begun {name : Value} {bound : Option RegistryId} {s : Cursor}
    {arrival : Arrival} (h : arrive name bound s σ = (.ok arrival, σ'))
    (hverbose : arrival.verbose = true) : (arrival.begun s σ').trace.toList =
      σ.trace.toList ++ [.entered arrival.level arrival.name s.fragment] := by
  rw [begun, hverbose, toList_trace_recorded]
  exact congrArg (fun trace => trace.toList ++ _) (trace_of_arrive h)

theorem Session.continues_modifyRegistry (σ : Session) (id : RegistryId)
    (change : Registry → Registry) : σ.Continues (σ.modifyRegistry id change) :=
  .of_same rfl rfl

namespace Call

variable {call : Call} {body : Eval (Option Match)} {rounds : List Round} {result : Option Match}

/-- The rounds of a loop go on from where it begins, and it goes on to its end from them. -/
theorem Grows.continues {number : ℕ} (h : call.Grows body number σ rounds result σ')
    (hround : ∀ round ∈ rounds, round.first.Continues round.last) :
    σ.Continues σ' ∧ ∀ round ∈ rounds, σ.Continues round.first ∧ round.last.Continues σ' := by
  induction h with
  | @settle number σ result σ₁ _ _ _ =>
    have hlast : σ.Continues σ₁ := hround _ List.mem_cons_self
    have hend : σ₁.Continues ((call.reviewed number result σ₁).recorded call.verbose
        (call.closing (σ₁.frame call.frame).bestValue result)) :=
      (Continues.recorded ..).trans (.recorded ..)
    refine ⟨hlast.trans hend, fun round hmem => ?_⟩
    cases List.mem_singleton.1 hmem
    exact ⟨.refl σ, hend⟩
  | @adopt number σ result σ₁ m rounds best σ₂ _ _ _ _ _ ih =>
    have hlast : σ.Continues σ₁ := hround _ List.mem_cons_self
    have hnext : σ₁.Continues (call.adopted m (call.reviewed number result σ₁)) :=
      (Continues.recorded ..).trans (call.continues_adopted ..)
    obtain ⟨hend, hrounds⟩ := ih fun round hmem => hround round (List.mem_cons_of_mem _ hmem)
    refine ⟨hlast.trans (hnext.trans hend), fun round hmem => ?_⟩
    rcases List.mem_cons.1 hmem with rfl | hmem
    · exact ⟨.refl σ, hnext.trans hend⟩
    · obtain ⟨hfirst, hafter⟩ := hrounds round hmem
      exact ⟨hlast.trans (hnext.trans hfirst), hafter⟩

theorem Passes.continues (h : call.Passes body σ rounds result σ')
    (hround : ∀ round ∈ rounds, round.first.Continues round.last) :
    σ.Continues σ' ∧ ∀ round ∈ rounds, σ.Continues round.first ∧ round.last.Continues σ' := by
  cases h with
  | @once result σ₁ hbody hidle =>
    refine ⟨hround _ List.mem_cons_self, fun round hmem => ?_⟩
    cases List.mem_singleton.1 hmem
    exact ⟨.refl σ, .refl _⟩
  | grown hgrows => exact hgrows.continues hround

end Call

namespace Grammar.Course

variable {v w : Visit ρ} {result : Option Match}

/-- Where an evaluation ends, the session has gone on. -/
theorem continues (h : g.Course v result σ) : v.session.Continues σ := by
  induction h with
  | still => exact .refl _
  | once _ _ _ hsession _ _ ih => exact hsession ▸ ih
  | twice _ _ _ hsession _ _ hsession' _ _ ih ih' => exact (hsession ▸ ih).trans (hsession' ▸ ih')
  | answered _ harrive _ hanswer =>
    exact (continues_of_arrive harrive).trans (Arrival.continues_of_answer hanswer)
  | evaluated _ harrive _ hbegin hpasses _ hfinish ih =>
    obtain ⟨-, rfl⟩ := Arrival.eq_of_begin hbegin
    obtain ⟨rfl, -⟩ := Call.eq_of_finish hfinish
    obtain ⟨hrounds, -⟩ := hpasses.continues ih
    exact (continues_of_arrive harrive).trans <| (Arrival.continues_begun ..).trans <|
      (continues_modifyRegistry ..).trans <| hrounds.trans <|
      (continues_modifyRegistry ..).trans <| .recorded ..

/-- What an evaluation leads to has a course, which goes on where the evaluation begins and
from where it goes on. -/
theorem leads (h : g.Course v result σ) (hl : g.Leads v w) :
    ∃ last σ', g.Course w last σ' ∧ v.session.Continues w.session ∧ σ'.Continues σ := by
  cases h with
  | still _ halone _ => exact absurd hl (halone w)
  | once _ hleads _ hsession hcourse _ =>
    obtain rfl := (hleads w).1 hl
    exact ⟨_, _, hcourse, hsession ▸ .refl _, .refl σ⟩
  | twice _ hleads _ hsession hcourse _ hsession' hcourse' _ =>
    rcases (hleads w).1 hl with rfl | rfl
    · exact ⟨_, _, hcourse, hsession ▸ .refl _, hsession' ▸ hcourse'.continues⟩
    · exact ⟨_, _, hcourse', hsession' ▸ hsession ▸ hcourse.continues, .refl σ⟩
  | answered hr harrive hactive _ =>
    obtain ⟨hidle, -⟩ := hl.of_guarded hr harrive
    rw [hactive] at hidle
    cases hidle
  | evaluated hr harrive hidle hbegin hpasses hcourses hfinish =>
    obtain ⟨round, hmem, rfl⟩ := hpasses.exists_round hr harrive hbegin hl
    obtain ⟨-, rfl⟩ := Arrival.eq_of_begin hbegin
    obtain ⟨rfl, -⟩ := Call.eq_of_finish hfinish
    have hcontinues := fun round hmem => (hcourses round hmem).continues
    obtain ⟨-, hrounds⟩ := hpasses.continues hcontinues
    obtain ⟨hfirst, hlast⟩ := hrounds round hmem
    refine ⟨_, _, hcourses round hmem, ?_, ?_⟩
    · exact (continues_of_arrive harrive).trans <| (Arrival.continues_begun ..).trans <|
        (continues_modifyRegistry ..).trans hfirst
    · exact hlast.trans <| (continues_modifyRegistry ..).trans <| .recorded ..

theorem reached (h : g.Course v result σ) (hr : Relation.ReflTransGen g.Leads v w) :
    ∃ last σ', g.Course w last σ' ∧ v.session.Continues w.session ∧ σ'.Continues σ := by
  induction hr with
  | refl => exact ⟨result, σ, h, .refl _, .refl σ⟩
  | tail _ hl ih =>
    obtain ⟨last, σ', hcourse, hbefore, hafter⟩ := ih
    obtain ⟨last', σ'', hcourse', hbefore', hafter'⟩ := hcourse.leads hl
    exact ⟨last', σ'', hcourse', hbefore.trans hbefore', hafter'.trans hafter⟩

end Grammar.Course

/-- The visit is a call that finds its flag set, and is answered. -/
inductive Grammar.Answers (g : Grammar ρ) : Visit ρ → Arrival → Session → Prop where
  | called {depth r s σ guard arrival σ₁ result σ₂} : (g.rule r).guard = some guard →
      arrive guard.name guard.registry s σ = (.ok arrival, σ₁) → arrival.active = true →
      arrival.answer σ₁ = (.ok result, σ₂) → Answers g ⟨depth + 1, .ref r, s, σ⟩ arrival σ₂

theorem Grammar.Answers.eq_of_course {w : Visit ρ} {arrival : Arrival} {τ : Session}
    {result : Option Match} (ha : g.Answers w arrival τ) (h : g.Course w result σ) : σ = τ := by
  cases ha with
  | called hr harrive hactive hanswer =>
    cases h with
    | still hplain | once hplain | twice hplain => exact absurd ⟨_, _, rfl, hr⟩ hplain
    | answered hr' harrive' _ hanswer' =>
      cases hr.symm.trans hr'
      cases harrive.symm.trans harrive'
      cases hanswer.symm.trans hanswer'
      rfl
    | evaluated hr' harrive' hidle =>
      cases hr.symm.trans hr'
      cases harrive.symm.trans harrive'
      rw [hactive] at hidle
      cases hidle

/-- Of the frames that there were, those that are marked in the end have been marked before, or
by a call that the evaluation has led to. -/
theorem Grammar.Course.exists_answers {v : Visit ρ} {result : Option Match}
    (h : g.Course v result σ) {id : FrameId} (hid : id < v.session.frames.size)
    (hmarked : (σ.frame id).reentered = true) : (v.session.frame id).reentered = true ∨
      ∃ u arrival τ, Relation.ReflTransGen g.Leads v u ∧ g.Answers u arrival τ ∧
        arrival.anchor.frame? arrival.flag = some id := by
  induction h with
  | still => exact .inl hmarked
  | @once v w last result σ _ hleads _ hsession _ _ ih =>
    have hfirst := (hleads w).2 rfl
    rw [hsession] at ih
    exact (ih hid hmarked).imp_right fun ⟨u, arrival, τ, hu, hanswers⟩ =>
      ⟨u, arrival, τ, .head hfirst hu, hanswers⟩
  | @twice v w w' first last result σ σ' _ hleads _ hsession hcourse _ hsession' _ _ ih ih' =>
    have hfirst := (hleads w).2 (.inl rfl)
    have hsecond := (hleads w').2 (.inr rfl)
    have hsize := hcourse.continues.size_le
    rw [hsession] at ih hsize
    rw [hsession'] at ih'
    rcases ih' (hid.trans_le hsize) hmarked with hbefore | ⟨u, arrival, τ, hu, hanswers⟩
    · exact (ih hid hbefore).imp_right fun ⟨u, arrival, τ, hu, hanswers⟩ =>
        ⟨u, arrival, τ, .head hfirst hu, hanswers⟩
    · exact .inr ⟨u, arrival, τ, .head hsecond hu, hanswers⟩
  | @answered depth r s σ guard arrival σ₁ result σ₂ hr harrive hactive hanswer =>
    obtain ⟨hframes, -⟩ := meets_of_arrive harrive
    rcases Arrival.eq_of_answer hanswer with ⟨-, -, rfl⟩ | ⟨id', hfound, -, rfl⟩
    · rw [frame_of_frames hframes] at hmarked
      exact .inl hmarked
    · by_cases heq : id' = id
      · subst heq
        exact .inr ⟨_, arrival, _, .refl, .called hr harrive hactive hanswer, hfound⟩
      · -- Another frame has been marked.
        rw [(sameStore_recorded ..).frame, marked, frame_modify_eq,
          if_neg (fun h => heq h.1.symm), frame_of_frames hframes] at hmarked
        exact .inl hmarked
  | @evaluated depth r s σ guard arrival σ₁ call s' σ₂ rounds best σ₃ result σ₄ hr harrive hidle
      hbegin hpasses hcourses hfinish ih =>
    have hcourse := Grammar.Course.evaluated hr harrive hidle hbegin hpasses hcourses hfinish
    obtain ⟨hframes, -⟩ := meets_of_arrive harrive
    obtain ⟨-, hbegun⟩ := Arrival.eq_of_begin hbegin
    obtain ⟨rfl, -⟩ := Call.eq_of_finish hfinish
    rw [(sameStore_recorded ..).frame] at hmarked
    let K (τ : Session) : Prop := (τ.frame id).reentered = true →
      (σ.frame id).reentered = true ∨
        ∃ u arrival τ, Relation.ReflTransGen g.Leads ⟨depth + 1, .ref r, s, σ⟩ u ∧
          g.Answers u arrival τ ∧ arrival.anchor.frame? arrival.flag = some id
    have hkeeps : K σ₃ := by
      refine (hpasses.keeps (fun τ event hτ h => ?_) (fun round hmem hfirst h => ?_)
        (fun round _ m τ _ hτ _ _ h => ?_) fun h => ?_).1
      · rw [(sameStore_recorded ..).frame] at h
        exact hτ h
      · have hleads := hpasses.leads_round hr harrive hidle hbegin hmem
        obtain ⟨-, -, -, hcontinues, -⟩ := hcourse.leads hleads
        rcases ih round hmem (hid.trans_le hcontinues.size_le) h with
          hbefore | ⟨u, arrival, τ, hu, hanswers⟩
        · exact hfirst hbefore
        · exact .inr ⟨u, arrival, τ, .head hleads hu, hanswers⟩
      · rw [call.reentered_adopted] at h
        exact hτ h
      · -- The frame of the call is a new one.
        have hpush := hbegun ▸ arrival.frames_begun s σ₁
        change (σ₂.frame id).reentered = true at h
        rw [frame_push hpush, hframes, if_neg hid.ne, frame_of_frames hframes] at h
        exact .inl h
    exact hkeeps hmarked

end SeedGrowth
