import SeedGrowth.Proofs.Flags.History
import SeedGrowth.Proofs.Run.Guarded
import SeedGrowth.Proofs.Visit.Continuation

/-!
# Anchors along the course of an evaluation

The frames that a cursor refers to are those of calls at its position, each under the flag of its
call, if the first cursor refers to none. And as long as nothing has been read since a call has
begun, cursors refer to its frame under its flag. So a call that finds its flag set, where
another one has set it, is answered from the frame of that one, and marks it.
-/
namespace SeedGrowth

variable {ρ : Type} {g : Grammar ρ} {n : ℕ} {σ σ' : Session} {s s' : Cursor}

/-! ### What calls see -/

/-- What a call finds of its flag: it is one of the cursor's, and set if it is lit there. -/
structure Arrival.Sees (arrival : Arrival) (s : Cursor) : Prop extends arrival.Meets s where
  flag_lt : arrival.flag < arrival.flags.capacity
  mem_eq : ∀ i, arrival.flags.mem i = s.lit s.remaining i
  active_eq : arrival.active = s.lit s.remaining arrival.flag

theorem sees_of_arrive {name : Value} {bound : Option RegistryId} {arrival : Arrival}
    (h : arrive name bound s σ = (.ok arrival, σ')) : arrival.Sees s := by
  obtain ⟨-, hmeets⟩ := meets_of_arrive h
  rw [arrive_apply] at h
  obtain ⟨id, σ₁, hid, h⟩ := Program.exists_of_bind h
  obtain ⟨flag, σ₂, hflag, h⟩ := Program.exists_of_bind h
  obtain ⟨f, σ₃, hf, h⟩ := Program.exists_of_bind h
  obtain ⟨registry, σ₄, hread, h⟩ := Program.exists_of_bind h
  obtain ⟨active, σ₅, hactive, h⟩ := Program.exists_of_bind h
  cases h
  obtain ⟨hs, -⟩ := Eval.eq_of_lift hf
  obtain ⟨hcheck, -⟩ := Eval.eq_of_lift hactive
  obtain ⟨-, -, hview⟩ := Flags.enterAt_spec s.remaining f
  have hlit : ∀ i, (enterAt s.remaining f).1.mem i = s.lit s.remaining i := by
    intro i
    rw [(hview i).1, Cursor.lit, Cursor.flags_eq_ok.1 hs, Option.any_some]
  have hlt : flag < (enterAt s.remaining f).1.capacity := by
    by_contra hle
    obtain ⟨fault, hfault, -⟩ := Flags.check_eq_error _ (Nat.le_of_not_lt hle)
    rw [hfault] at hcheck
    cases hcheck
  rw [Flags.check_natCast _ hlt] at hcheck
  cases hcheck
  exact ⟨hmeets, hlt, hlit, hlit flag⟩

/-- The cursor of a call that has begun refers to its frame under its flag, and otherwise to what
the cursor of the call has referred to at its position. -/
theorem Arrival.Sees.view_of_begin {arrival : Arrival} (hsees : arrival.Sees s) {call : Call}
    (h : arrival.begin s σ = (.ok (call, s'), σ')) :
    s'.remaining = s.remaining ∧
      (∀ q i, s'.lit q i =
        (decide (s.remaining = q) && (s.lit s.remaining i || decide (i = arrival.flag)))) ∧
      ∀ q i, s'.frameAt q i = if s.remaining = q then
        if i = arrival.flag then some σ.frames.size else s.frameAt s.remaining i
        else none := by
  obtain ⟨frame, σ₁, hnew, h⟩ := Program.exists_of_bind h
  obtain ⟨flags, σ₂, hset, h⟩ := Program.exists_of_bind h
  obtain ⟨_, σ₃, htrace, h⟩ := Program.exists_of_bind h
  cases h
  cases hnew
  obtain ⟨hset, -⟩ := Eval.eq_of_lift hset
  rw [Flags.set, Flags.locate_natCast hsees.flag_lt] at hset
  cases hset
  obtain ⟨f, hf⟩ := hsees.flags?_eq
  refine ⟨rfl, fun q i => ?_, fun q i => ?_⟩
  · rw [Cursor.lit, Cursor.flags?_withFlags hf, Option.any_some, Flags.lit_begin hsees.flag_lt,
      hsees.anchored, hsees.mem_eq]
    simp only [Int.natCast_inj]
  · rw [Cursor.frameAt, Cursor.flags?_withFlags hf, Option.bind_some, Flags.frameAt_begin,
      hsees.anchored, hsees.frame?_eq]
    simp only [Int.natCast_inj]

/-- Only flags that there are can be taken off. -/
theorem Flags.lt_capacity_of_withoutFlag {f f' : Flags Carried} {flag : ℕ}
    (h : withoutFlag flag f = .ok f') : flag < f.capacity := by
  by_contra hle
  have hclear : ∀ g : Flags Carried, g.capacity = f.capacity →
      g.clear (.int flag) ≠ .ok f' := by
    intro g hg heq
    obtain ⟨fault, herror, -⟩ := map_locate_eq_error (f := g) (i := flag) (by omega)
    rw [clear, herror] at heq
    cases heq
  unfold withoutFlag at h
  split at h
  · split at h
    · exact hclear (f.carrying (.anchor (Anchor.erase _ flag))) rfl h
    · exact hclear f rfl h
  · exact hclear f rfl h

/-- A match without the flag of its call has no other flags and frames than before. -/
theorem Match.view_of_leave {m m' : Match} {flag : ℕ} (h : m.leave flag = .ok m') :
    m'.rest.remaining = m.rest.remaining ∧
      ∀ q i, (m'.rest.lit q i = true ↔ m.rest.lit q i = true ∧ i ≠ flag) ∧
        m'.rest.frameAt q i = if i = flag then none else m.rest.frameAt q i := by
  obtain ⟨f, hf, h⟩ := bind_eq_ok.1 h
  obtain ⟨f', hwithout, h⟩ := bind_eq_ok.1 h
  cases h
  have hflags := Cursor.flags_eq_ok.1 hf
  obtain ⟨f'', heq, -, hview⟩ := Flags.withoutFlag_eq (Flags.lt_capacity_of_withoutFlag hwithout)
  rw [hwithout] at heq
  cases heq
  refine ⟨rfl, fun q i => ?_⟩
  simpa only [Cursor.lit, Cursor.frameAt, Cursor.flags?_withFlags hflags, hflags, Option.any_some,
    Option.bind_some] using hview q i

/-! ### Anchored cursors and sessions -/

/-- The flag and the frame of a call, and the position where it has begun. -/
structure Pin where
  position : ℕ
  flag : ℕ
  frame : FrameId

/-- The call of the pin has begun here or before, and if it is here, the cursor refers to its
frame under its flag, which is set. -/
structure Cursor.PinnedBy (s : Cursor) (pin : Pin) : Prop where
  remaining_le : s.remaining ≤ pin.position
  frame_eq : s.remaining = pin.position → s.frameAt pin.position pin.flag = some pin.frame
  lit : s.remaining = pin.position → s.lit pin.position pin.flag = true

/-- The cursor refers to frames from a number on alone, each of which is the frame of a call at
its position and under its flag. And it is pinned. -/
structure Cursor.Anchored (n : ℕ) (pins : List Pin) (σ : Session) (s : Cursor) : Prop where
  tied : ∀ p i id, p ≤ s.remaining → s.frameAt p i = some id →
    n ≤ id ∧ id < σ.frames.size ∧ (σ.frame id).position = p ∧ (σ.frame id).flag = i
  pinned : ∀ pin ∈ pins, s.PinnedBy pin

/-- The best matches in frames from a number on are anchored, and further on than where their
calls began. -/
structure Session.Anchored (n : ℕ) (σ : Session) : Prop where
  size_le : n ≤ σ.frames.size
  best : ∀ id, n ≤ id → ∀ m, (σ.frame id).best = some m →
    m.rest.Anchored n [] σ ∧ m.rest.remaining < (σ.frame id).position

namespace Cursor.Anchored

variable {pins : List Pin}

theorem mono (h : s.Anchored n pins σ) (hσ : σ.Continues σ') : s.Anchored n pins σ' where
  tied p i id hp hframe := by
    obtain ⟨hle, hlt, hposition, hflag⟩ := h.tied p i id hp hframe
    exact ⟨hle, hlt.trans_le hσ.size_le, (hσ.position_eq id hlt).trans hposition,
      (hσ.flag_eq id hlt).trans hflag⟩
  pinned := h.pinned

theorem fewer {pins' : List Pin} (h : s.Anchored n pins σ) (hsub : pins' ⊆ pins) :
    s.Anchored n pins' σ :=
  ⟨h.tied, fun pin hpin => h.pinned pin (hsub hpin)⟩

/-- A call that does not find its flag set has another flag than those that are pinned here. -/
theorem flag_ne (h : s.Anchored n pins σ) {arrival : Arrival} (hsees : arrival.Sees s)
    (hidle : arrival.active = false) :
    ∀ pin ∈ pins, s.remaining = pin.position → pin.flag ≠ arrival.flag := by
  intro pin hpin heq hflag
  have hlit := (h.pinned pin hpin).lit heq
  rw [← heq, hflag, ← hsees.active_eq, hidle] at hlit
  cases hlit

/-- Reading leaves anchors alone. -/
theorem trails (h : s.Anchored n pins σ) (ht : s'.Trails s) : s'.Anchored n pins σ := by
  have hle := ht.remaining_le
  have hframe : ∀ p i, s'.frameAt p i = s.frameAt p i := by
    intro p i
    rw [Cursor.frameAt, ht.payload_eq, Cursor.frameAt]
  have hlit : ∀ p i, s'.lit p i = s.lit p i := by
    intro p i
    rw [Cursor.lit, ht.payload_eq, Cursor.lit]
  refine ⟨fun p i id hp hid => ?_, fun pin hpin => ?_⟩
  · rw [hframe] at hid
    exact h.tied p i id (hp.trans hle) hid
  · have hpinned := h.pinned pin hpin
    refine ⟨hle.trans hpinned.remaining_le, fun heq => ?_, fun heq => ?_⟩
    · rw [hframe]
      exact hpinned.frame_eq (le_antisymm hpinned.remaining_le (heq ▸ hle))
    · rw [hlit]
      exact hpinned.lit (le_antisymm hpinned.remaining_le (heq ▸ hle))

/-- Further on pins do not matter. -/
theorem behind (h : s'.Anchored n [] σ) (hs : s.Anchored n pins σ')
    (hlt : s'.remaining < s.remaining) : s'.Anchored n pins σ := by
  refine ⟨h.tied, fun pin hpin => ?_⟩
  have hle := (hs.pinned pin hpin).remaining_le
  exact ⟨by omega, fun heq => by omega, fun heq => by omega⟩

/-- Where a call begins its cursor refers to the new frame, and is pinned to it. -/
theorem begin (h : s.Anchored n pins σ) (hn : n ≤ σ.frames.size) {arrival : Arrival}
    (hsees : arrival.Sees s) (hidle : arrival.active = false) {call : Call}
    (hbegin : arrival.begin s σ = (.ok (call, s'), σ')) :
    s'.Anchored n (⟨call.position, call.flag, call.frame⟩ :: pins) σ' := by
  obtain ⟨hremaining, hlit, hframe⟩ := hsees.view_of_begin hbegin
  obtain ⟨rfl, rfl⟩ := Arrival.eq_of_begin hbegin
  have hposition := hsees.position_eq
  have hcontinues := arrival.continues_begun s σ
  have hpush := arrival.frames_begun s σ
  refine ⟨fun p i id hp hid => ?_, fun pin hpin => ?_⟩
  · rw [hframe] at hid
    split at hid
    · next hq =>
      subst hq
      split at hid
      · next hi =>
        cases hid
        rw [Session.frame_push hpush, if_pos rfl, hpush, Array.size_push]
        exact ⟨hn, Nat.lt_succ_self _, hposition, hi.symm⟩
      · exact (h.mono hcontinues).tied _ i id le_rfl hid
    · cases hid
  · rcases List.mem_cons.1 hpin with rfl | hpin
    · change s'.PinnedBy ⟨arrival.position, arrival.flag, σ.frames.size⟩
      rw [hposition]
      refine ⟨hremaining.le, fun _ => ?_, fun _ => ?_⟩
      · rw [hframe, if_pos rfl, if_pos rfl]
      · rw [hlit]
        simp
    · have hpinned := h.pinned pin hpin
      have hne := h.flag_ne hsees hidle pin hpin
      refine ⟨hremaining.trans_le hpinned.remaining_le, fun heq => ?_, fun heq => ?_⟩
      · have heq := hremaining.symm.trans heq
        rw [hframe, if_pos heq, if_neg (hne heq), heq]
        exact hpinned.frame_eq heq
      · have heq := hremaining.symm.trans heq
        rw [hlit, heq, hpinned.lit heq]
        simp

/-- Taking off the flag of a call leaves what other calls are pinned to. -/
theorem leave {m m' : Match} {flag : ℕ} (h : m.rest.Anchored n pins σ)
    (hleave : m.leave flag = .ok m')
    (hne : ∀ pin ∈ pins, m.rest.remaining = pin.position → pin.flag ≠ flag) :
    m'.rest.Anchored n pins σ := by
  obtain ⟨hremaining, hview⟩ := Match.view_of_leave hleave
  refine ⟨fun p i id hp hid => ?_, fun pin hpin => ?_⟩
  · rw [(hview p i).2] at hid
    split at hid
    · cases hid
    · exact h.tied p i id (hremaining ▸ hp) hid
  · have hpinned := h.pinned pin hpin
    refine ⟨hremaining.trans_le hpinned.remaining_le, fun heq => ?_, fun heq => ?_⟩
    · have heq := hremaining.symm.trans heq
      rw [(hview _ _).2, if_neg (hne pin hpin heq)]
      exact hpinned.frame_eq heq
    · have heq := hremaining.symm.trans heq
      exact (hview _ _).1.2 ⟨hpinned.lit heq, hne pin hpin heq⟩

end Cursor.Anchored

namespace Session.Anchored

/-- Frames may be added or changed, if best matches stay as they are, or there is none. -/
theorem of_best (h : σ.Anchored n) (hσ : σ.Continues σ')
    (hbest : ∀ id m, (σ'.frame id).best = some m → id < σ.frames.size ∧
      (σ.frame id).best = some m) : σ'.Anchored n := by
  refine ⟨h.size_le.trans hσ.size_le, fun id hle m hm => ?_⟩
  obtain ⟨hlt, hm⟩ := hbest id m hm
  obtain ⟨hanchored, hfurther⟩ := h.best id hle m hm
  exact ⟨hanchored.mono hσ, (hσ.position_eq id hlt).symm ▸ hfurther⟩

theorem best_lt_size {id : FrameId} {m : Match} (h : (σ.frame id).best = some m) :
    id < σ.frames.size := by
  by_contra hle
  rw [frame, Array.getD_eq_getD_getElem?, Array.getElem?_eq_none (Nat.le_of_not_lt hle)] at h
  cases h

theorem of_frames (h : σ.Anchored n) (hσ : σ.Continues σ') (hf : σ'.frames = σ.frames) :
    σ'.Anchored n := by
  refine h.of_best hσ fun id m hm => ?_
  rw [frame_of_frames hf] at hm
  exact ⟨best_lt_size hm, hm⟩

theorem recorded (h : σ.Anchored n) (verbose : Bool) (event : TraceEvent) :
    (σ.recorded verbose event).Anchored n :=
  h.of_frames (.recorded ..) (sameStore_recorded ..).frames

theorem modifyRegistry (h : σ.Anchored n) (id : RegistryId) (change : Registry → Registry) :
    (σ.modifyRegistry id change).Anchored n :=
  h.of_frames (continues_modifyRegistry ..) rfl

theorem begun (h : σ.Anchored n) (arrival : Arrival) (s : Cursor) :
    (arrival.begun s σ).Anchored n := by
  refine recorded (h.of_best (.push σ _) fun id m hm => ?_) ..
  rw [frame_push rfl] at hm
  split at hm
  · cases hm
  · exact ⟨best_lt_size hm, hm⟩

theorem best_marked (σ : Session) (id id' : FrameId) :
    ((σ.marked id).frame id').best = (σ.frame id').best := by
  refine apply_frame_modify Frame.best σ id ?_ id'
  exact fun _ => rfl

theorem mark (h : σ.Anchored n) (id : FrameId) : (σ.marked id).Anchored n := by
  refine h.of_best (.mark σ id) fun id' m hm => ?_
  rw [best_marked] at hm
  exact ⟨best_lt_size hm, hm⟩

/-- A match may be adopted that is anchored and further on than where the call began. -/
theorem adopted (h : σ.Anchored n) {call : Call} {m : Match} (hm : m.rest.Anchored n [] σ)
    (hfurther : m.rest.remaining < (σ.frame call.frame).position) :
    (call.adopted m σ).Anchored n := by
  have hσ := call.continues_adopted m σ
  refine ⟨h.size_le.trans hσ.size_le, fun id hle m' hm' => ?_⟩
  have hlt : id < σ.frames.size := by
    have hlt := best_lt_size hm'
    rwa [Call.adopted, Array.size_modify] at hlt
  rw [hσ.position_eq id hlt]
  rw [Call.adopted, frame_modify_eq] at hm'
  split at hm'
  · next heq =>
    cases hm'
    exact ⟨hm.mono hσ, heq.1 ▸ hfurther⟩
  · obtain ⟨hanchored, hfurther⟩ := h.best id hle m' hm'
    exact ⟨hanchored.mono hσ, hfurther⟩

end Session.Anchored

/-! ### Along the course -/

/-- The session and the cursor of the visit are anchored. -/
structure Visit.Anchored (n : ℕ) (pins : List Pin) (v : Visit ρ) : Prop where
  session : v.session.Anchored n
  cursor : v.cursor.Anchored n pins v.session

open Session

namespace Call

variable {call : Call} {body : Eval (Option Match)} {rounds : List Round} {result : Option Match}

/-- The frame of the call is there, under its number, with its position and its flag. -/
structure Seated (n : ℕ) (call : Call) (σ : Session) : Prop where
  le_frame : n ≤ call.frame
  frame_lt : call.frame < σ.frames.size
  position_eq : (σ.frame call.frame).position = call.position
  flag_eq : (σ.frame call.frame).flag = call.flag

theorem Seated.mono (h : call.Seated n σ) (hσ : σ.Continues σ') : call.Seated n σ' where
  le_frame := h.le_frame
  frame_lt := h.frame_lt.trans_le hσ.size_le
  position_eq := (hσ.position_eq _ h.frame_lt).trans h.position_eq
  flag_eq := (hσ.flag_eq _ h.frame_lt).trans h.flag_eq

/-- Rounds keep a session anchored if the evaluations of the body do. -/
theorem Passes.anchored (h : call.Passes body σ rounds result σ') (hseated : call.Seated n σ)
    (hround : ∀ round ∈ rounds, round.first.Continues round.last ∧
      (round.first.Anchored n → σ.Continues round.first → round.last.Anchored n ∧
        ∀ m, round.result = some m → m.rest.Anchored n [] round.last))
    (hσ : σ.Anchored n) : σ'.Anchored n ∧ ∀ round ∈ rounds, round.first.Anchored n := by
  obtain ⟨-, hcontinues⟩ := h.continues fun round hmem => (hround round hmem).1
  refine h.keeps (fun τ event hτ => hτ.recorded ..) ?_ ?_ hσ
  · intro round hmem hfirst
    exact ((hround round hmem).2 hfirst (hcontinues round hmem).1).1
  · intro round hmem m τ hfirst hτ hframes hlonger
    obtain ⟨hlast, hrun⟩ := hround round hmem
    obtain ⟨hresult, -, hfurther⟩ := of_longer? hlonger
    obtain ⟨-, hanchored⟩ := hrun hfirst (hcontinues round hmem).1
    have hseated' := hseated.mono ((hcontinues round hmem).1.trans hlast)
    refine hτ.adopted ⟨fun p i id hp hid => ?_, by simp⟩ ?_
    · rw [hframes, frame_of_frames hframes]
      exact (hanchored m hresult).tied p i id hp hid
    · rw [frame_of_frames hframes, hseated'.position_eq]
      exact hfurther

end Call

/-- What a call begins with is anchored, and its cursor is pinned to its frame, which is not
marked. -/
structure Call.Starts (n : ℕ) (pins : List Pin) (call : Call) (s s' : Cursor) (σ : Session) :
    Prop where
  session : σ.Anchored n
  cursor : s'.Anchored n (⟨call.position, call.flag, call.frame⟩ :: pins) σ
  seated : call.Seated n σ
  unmarked : (σ.frame call.frame).reentered = false
  remaining_eq : s'.remaining = s.remaining
  position_eq : call.position = s.remaining
  flag_ne : ∀ pin ∈ pins, s.remaining = pin.position → pin.flag ≠ call.flag

theorem Call.starts_of_begin {name : Value} {bound : Option RegistryId} {arrival : Arrival}
    {pins : List Pin} {call : Call} {σ₁ σ₂ : Session} (hσ : σ.Anchored n)
    (hs : s.Anchored n pins σ) (harrive : arrive name bound s σ = (.ok arrival, σ₁))
    (hidle : arrival.active = false) (hbegin : arrival.begin s σ₁ = (.ok (call, s'), σ₂)) :
    call.Starts n pins s s'
      (σ₂.modifyRegistry call.registry fun r => { r with level := r.level + 1 }) := by
  obtain ⟨hframes, -⟩ := meets_of_arrive harrive
  have hsees := sees_of_arrive harrive
  have hcontinues := continues_of_arrive harrive
  have hσ₁ := hσ.of_frames hcontinues hframes
  have hs₁ := hs.mono hcontinues
  obtain ⟨hremaining, -⟩ := hsees.view_of_begin hbegin
  have hcursor := hs₁.begin hσ₁.size_le hsees hidle hbegin
  obtain ⟨rfl, rfl⟩ := Arrival.eq_of_begin hbegin
  have hpush := arrival.frames_begun s σ₁
  have hframe : (arrival.begun s σ₁).frame σ₁.frames.size =
      .begin arrival.name arrival.flag arrival.position := by
    rw [frame_push hpush, if_pos rfl]
  have hlt : σ₁.frames.size < (arrival.begun s σ₁).frames.size := by
    rw [hpush, Array.size_push]
    exact Nat.lt_succ_self _
  exact {
    session := (hσ₁.begun arrival s).modifyRegistry ..
    cursor := hcursor.mono (continues_modifyRegistry ..)
    seated := ⟨hσ₁.size_le, hlt, congrArg Frame.position hframe, congrArg Frame.flag hframe⟩
    unmarked := congrArg Frame.reentered hframe
    remaining_eq := hremaining
    position_eq := hsees.position_eq
    flag_ne := hs.flag_ne hsees hidle }

namespace Grammar.Course

variable {v w : Visit ρ} {result : Option Match} {pins : List Pin}

/-- Evaluations keep cursors and sessions anchored, and lead to others that begin so. -/
theorem anchored_and_leads (h : g.Course v result σ) (hv : v.Anchored n pins) :
    (σ.Anchored n ∧ ∀ m, result = some m →
      m.rest.Anchored n pins σ ∧ m.rest.remaining ≤ v.cursor.remaining) ∧
      ∀ u, g.Leads v u → u.Anchored n pins := by
  induction h generalizing pins with
  | still _ halone htrails =>
    refine ⟨⟨hv.session, fun m hm => ?_⟩, fun u hu => absurd hu (halone u)⟩
    exact ⟨hv.cursor.trails (htrails m hm), (htrails m hm).remaining_le⟩
  | @once v w last result σ _ hleads hcursor hsession hcourse hrest ih =>
    have hcontinues := hcourse.continues
    have hw : w.Anchored n pins := ⟨hsession ▸ hv.session, hcursor ▸ hsession ▸ hv.cursor⟩
    obtain ⟨⟨hσ, hlast⟩, -⟩ := ih hw
    rw [hsession] at hcontinues
    rw [hcursor] at hlast
    refine ⟨⟨hσ, fun m hm => ?_⟩, fun u hu => (hleads u).1 hu ▸ hw⟩
    rcases hrest m hm with heq | ⟨m', hm', heq⟩
    · rw [heq]
      exact ⟨hv.cursor.mono hcontinues, le_rfl⟩
    · rw [heq]
      exact hlast m' hm'
  | @twice v w w' first last result σ σ' _ hleads hcursor hsession hcourse hcursor' hsession'
      hcourse' hrest ih ih' =>
    have hcontinues := hcourse.continues
    have hcontinues' := hcourse'.continues
    have hw : w.Anchored n pins := ⟨hsession ▸ hv.session, hcursor ▸ hsession ▸ hv.cursor⟩
    obtain ⟨⟨hσ, hfirst⟩, -⟩ := ih hw
    rw [hsession] at hcontinues
    rw [hsession'] at hcontinues'
    rw [hcursor] at hfirst
    have hnext : w'.cursor.Anchored n pins σ ∧ w'.cursor.remaining ≤ v.cursor.remaining := by
      rcases hcursor' with heq | ⟨m, hm, heq⟩
      · rw [heq]
        exact ⟨hv.cursor.mono hcontinues, le_rfl⟩
      · rw [heq]
        exact hfirst m hm
    have hw' : w'.Anchored n pins := ⟨hsession' ▸ hσ, hsession' ▸ hnext.1⟩
    obtain ⟨⟨hσ', hlast⟩, -⟩ := ih' hw'
    refine ⟨⟨hσ', fun m hm => ?_⟩, fun u hu => ?_⟩
    · rcases hrest m hm with heq | ⟨m', hm', heq⟩
      · rw [heq]
        exact ⟨hv.cursor.mono (hcontinues.trans hcontinues'), le_rfl⟩
      · rw [heq]
        obtain ⟨hanchored, hle⟩ := hlast m' hm'
        exact ⟨hanchored, hle.trans hnext.2⟩
    · rcases (hleads u).1 hu with rfl | rfl
      · exact hw
      · exact hw'
  | @answered depth r s σ guard arrival σ₁ result σ₂ hr harrive hactive hanswer =>
    obtain ⟨hframes, hmeets⟩ := meets_of_arrive harrive
    have hcontinues := continues_of_arrive harrive
    have hσ₁ := hv.session.of_frames hcontinues hframes
    have hs₁ := hv.cursor.mono hcontinues
    refine ⟨?_, fun u hu => ?_⟩
    · rcases Arrival.eq_of_answer hanswer with ⟨-, rfl, rfl⟩ | ⟨id, hfound, rfl, rfl⟩
      · exact ⟨hσ₁, by simp⟩
      · refine ⟨(hσ₁.mark id).recorded .., fun m hm => ?_⟩
        -- The frame is that of a call at the position.
        rw [hmeets.frame?_eq] at hfound
        obtain ⟨hle, -, hposition, -⟩ := hs₁.tied _ _ id le_rfl hfound
        rw [Session.Anchored.best_marked] at hm
        obtain ⟨hanchored, hfurther⟩ := hσ₁.best id hle m hm
        rw [hposition] at hfurther
        have hend : σ₁.Continues ((σ₁.marked id).recorded arrival.verbose
            (.seeded arrival.level arrival.name ((σ₁.marked id).frame id).bestValue)) :=
          (Continues.mark σ₁ id).trans (.recorded ..)
        exact ⟨(hanchored.behind hs₁ hfurther).mono hend, hfurther.le⟩
    · obtain ⟨hidle, -⟩ := hu.of_guarded hr harrive
      rw [hactive] at hidle
      cases hidle
  | @evaluated depth r s σ guard arrival σ₁ call s' σ₂ rounds best σ₃ result σ₄ hr harrive hidle
      hbegin hpasses hcourses hfinish ih =>
    have hstarts := Call.starts_of_begin hv.session hv.cursor harrive hidle hbegin
    obtain ⟨hend, hfirsts⟩ :=
      hpasses.continues fun round hmem => (hcourses round hmem).continues
    -- Whenever the body is evaluated, its cursor is pinned to the frame of the call as well.
    have hbody : ∀ round ∈ rounds, round.first.Anchored n → round.last.Anchored n ∧
        ∀ m, round.result = some m → m.rest.Anchored n pins round.last ∧
          m.rest.remaining ≤ s.remaining := by
      intro round hmem hfirst
      have hcursor := hstarts.cursor.mono (hfirsts round hmem).1
      obtain ⟨⟨hlast, hresult⟩, -⟩ := ih round hmem ⟨hfirst, hcursor⟩
      refine ⟨hlast, fun m hm => ?_⟩
      obtain ⟨hanchored, hle⟩ := hresult m hm
      exact ⟨hanchored.fewer (List.subset_cons_self ..), hstarts.remaining_eq ▸ hle⟩
    obtain ⟨hσ₃, hanchored⟩ := hpasses.anchored hstarts.seated (fun round hmem =>
      ⟨(hcourses round hmem).continues, fun hfirst _ =>
        ⟨(hbody round hmem hfirst).1, fun m hm =>
          ((hbody round hmem hfirst).2 m hm).1.fewer (List.nil_subset _)⟩⟩) hstarts.session
    refine ⟨?_, fun u hu => ?_⟩
    · obtain ⟨rfl, hleaves⟩ := Call.eq_of_finish hfinish
      refine ⟨(hσ₃.modifyRegistry ..).recorded .., ?_⟩
      rintro m rfl
      obtain ⟨m', rfl, hleave⟩ := hleaves m rfl
      have hbest : m'.rest.Anchored n pins σ₃ ∧ m'.rest.remaining ≤ s.remaining := by
        rcases hpasses.result_eq with ⟨round, hmem, hresult, rfl⟩ | hresult
        · exact (hbody round hmem (hanchored round hmem)).2 m' hresult.symm
        · have hseated := hstarts.seated.mono hend
          obtain ⟨hbest, hfurther⟩ := hσ₃.best call.frame hseated.le_frame m' hresult.symm
          rw [hseated.position_eq, hstarts.position_eq] at hfurther
          exact ⟨hbest.behind hv.cursor hfurther, hfurther.le⟩
      obtain ⟨hremaining, -⟩ := Match.view_of_leave hleave
      refine ⟨(hbest.1.leave hleave fun pin hpin heq => ?_).mono
        ((continues_modifyRegistry ..).trans (.recorded ..)), hremaining.trans_le hbest.2⟩
      refine hstarts.flag_ne pin hpin (le_antisymm ?_ (heq ▸ hbest.2))
      exact (hv.cursor.pinned pin hpin).remaining_le
    · obtain ⟨round, hmem, rfl⟩ := hpasses.exists_round hr harrive hbegin hu
      have hcursor := hstarts.cursor.mono (hfirsts round hmem).1
      exact ⟨hanchored round hmem, hcursor.fewer (List.subset_cons_self ..)⟩

/-- All that an evaluation comes to begins anchored. -/
theorem reached_anchored (h : g.Course v result σ) (hv : v.Anchored n pins)
    (hr : Relation.ReflTransGen g.Leads v w) : w.Anchored n pins := by
  induction hr with
  | refl => exact hv
  | tail hr hl ih =>
    obtain ⟨last, τ, hcourse, -⟩ := h.reached hr
    exact (hcourse.anchored_and_leads ih).2 _ hl

/-- A call that finds the flag of a pin set, at its position, marks its frame. -/
theorem marked_of_answers (h : g.Course v result σ) (hv : v.Anchored n pins) {pin : Pin}
    (hpin : pin ∈ pins) (hr : Relation.ReflTransGen g.Leads v w) {arrival : Arrival} {τ : Session}
    (ha : g.Answers w arrival τ) (hflag : arrival.flag = pin.flag)
    (hposition : arrival.position = pin.position) : (σ.frame pin.frame).reentered = true := by
  have hw := h.reached_anchored hv hr
  obtain ⟨last, σ', hcourse, -, hafter⟩ := h.reached hr
  obtain rfl := ha.eq_of_course hcourse
  cases ha with
  | @called depth r s σ₀ guard _ σ₁ answer _ hguard harrive hactive hanswer =>
    obtain ⟨hframes, hmeets⟩ := meets_of_arrive harrive
    have hs : s.remaining = pin.position := hmeets.position_eq.symm.trans hposition
    have hframe := (hw.cursor.pinned pin hpin).frame_eq hs
    obtain ⟨-, hlt, -⟩ := hw.cursor.tied _ _ _ hs.ge hframe
    have hfound : arrival.anchor.frame? arrival.flag = some pin.frame := by
      rw [hmeets.frame?_eq, hs, hflag]
      exact hframe
    rcases Arrival.eq_of_answer hanswer with ⟨hnone, -⟩ | ⟨id, hsome, -, rfl⟩
    · rw [hfound] at hnone
      cases hnone
    · cases hfound.symm.trans hsome
      have hlt₁ : pin.frame < σ₁.frames.size := hframes ▸ hlt
      refine hafter.marked pin.frame ?_ ?_
      · rw [(sameStore_recorded ..).frames, Session.marked, Array.size_modify]
        exact hlt₁
      · rw [(sameStore_recorded ..).frame, Session.marked, frame_modify_eq, if_pos ⟨rfl, hlt₁⟩]

end Grammar.Course

end SeedGrowth
