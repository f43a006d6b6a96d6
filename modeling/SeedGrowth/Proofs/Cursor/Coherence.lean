import SeedGrowth.Proofs.Scope.Points
import SeedGrowth.Proofs.Session.Steps

/-!
# Cursors that agree with their source

A cursor is coherent with a source if what is left is the source from the offset on, and line
and column are those of the offset. It stands in the source if it has been reached from the
beginning over the text before it, and then it is coherent. Apart from flags a cursor takes
along what the first one did; through its flags it refers to frames, the best matches of
which may be handed out later, so that they have to stand in the source as well.
-/
namespace SeedGrowth

/-- The place is that of the last line feed in the text. -/
structure IsLastFeed (text : List Char) (k : Nat) : Prop where
  feed : text[k]? = some '\n'
  last : ∀ j, k < j → text[j]? ≠ some '\n'

/-- The fields of a cursor agree with the source and with each other, and its payload is that
of the first cursor up to flags. -/
structure Cursor.Coherent (source : List Char) (payload : Payload) (s : Cursor) : Prop where
  offset_nonneg : 0 ≤ s.place.offset
  offset_le : s.place.offset ≤ source.length
  fragment_eq : s.fragment = source.drop s.place.offset.toNat
  line_eq : s.place.line = 1 + (source.take s.place.offset.toNat).count '\n'
  column_eq : '\n' ∉ source.take s.place.offset.toNat → s.place.column = s.place.offset + 1
  column_eq_of_feed : ∀ k, IsLastFeed (source.take s.place.offset.toNat) k →
    s.place.column = s.place.offset - k
  payload_eq : ∃ flags, s.payload = payload.withFlags flags

/-- After the last line feed comes the last line. -/
theorem IsLastFeed.length_lastLine {text : List Char} {k : Nat} (h : IsLastFeed text k) :
    '\n' ∈ text ∧ text.length = k + 1 + (Place.lastLine text).length := by
  obtain ⟨hlt, hfeed⟩ := List.getElem?_eq_some_iff.1 h.feed
  have hsplit : text = text.take k ++ '\n' :: text.drop (k + 1) := by
    rw [← hfeed, List.getElem_cons_drop, List.take_append_drop]
  have hnot : '\n' ∉ text.drop (k + 1) := by
    intro hmem
    obtain ⟨j, hj⟩ := List.mem_iff_getElem?.1 hmem
    rw [List.getElem?_drop] at hj
    exact h.last (k + 1 + j) (by omega) hj
  have hline : Place.lastLine text = text.drop (k + 1) := by
    conv_lhs => rw [hsplit]
    rw [Place.lastLine_append_of_mem _ List.mem_cons_self]
    exact Place.lastLine_append_of_not_mem ['\n'] hnot
  refine ⟨List.mem_of_getElem? h.feed, ?_⟩
  rw [hline, List.length_drop]
  omega

/-- Where a text has a line feed there is a last one. -/
theorem exists_isLastFeed {text : List Char} (h : '\n' ∈ text) : ∃ k, IsLastFeed text k := by
  induction text with
  | nil => cases h
  | cons c text ih =>
    by_cases hlater : '\n' ∈ text
    · obtain ⟨k, hfeed, hlast⟩ := ih hlater
      refine ⟨k + 1, hfeed, fun j hj => ?_⟩
      obtain ⟨i, rfl⟩ : ∃ i, j = i + 1 := ⟨j - 1, by omega⟩
      exact hlast i (by omega)
    · have hc : '\n' = c := (List.mem_cons.1 h).resolve_right hlater
      refine ⟨0, congrArg some hc.symm, fun j hj hfeed => ?_⟩
      obtain ⟨i, rfl⟩ : ∃ i, j = i + 1 := ⟨j - 1, by omega⟩
      exact hlater (List.mem_of_getElem? hfeed)

/-- A coherent cursor is reached from the beginning of the source. -/
theorem Cursor.Coherent.reached {source : List Char} {payload : Payload} {s : Cursor}
    (h : s.Coherent source payload) :
    ∃ text, source = text ++ s.fragment ∧ s.place = Place.start.after text := by
  let text := source.take s.place.offset.toNat
  have hnonneg := h.offset_nonneg
  have hle := h.offset_le
  have hlength : (text.length : Int) = s.place.offset := by
    simp only [text, List.length_take]
    omega
  refine ⟨text, ?_, ?_⟩
  · rw [h.fragment_eq, List.take_append_drop]
  · have hoffset : s.place.offset = (Place.start.after text).offset := by
      rw [Place.offset_after, hlength]
      exact (Int.zero_add _).symm
    have hline : s.place.line = (Place.start.after text).line := h.line_eq
    have hcolumn : s.place.column = (Place.start.after text).column := by
      by_cases hfeed : '\n' ∈ text
      · obtain ⟨k, hk⟩ := exists_isLastFeed hfeed
        obtain ⟨-, hlast⟩ := hk.length_lastLine
        rw [h.column_eq_of_feed k hk]
        simp only [Place.after, hfeed, if_true]
        omega
      · rw [h.column_eq hfeed]
        simp only [Place.after, Place.start, hfeed, if_false]
        omega
    cases hplace : s.place with
    | mk offset line column =>
      rw [hplace] at hoffset hline hcolumn
      subst hoffset hline hcolumn
      rfl

/-- Where the cursors of a run come from: the source, where it begins, what the first of them
takes along, how many frames there were then, and which of them the first cursor leads to, each
with the position where it is found. -/
structure Origin where
  source : List Char
  place : Place
  payload : Payload
  first : Nat
  held : Nat → FrameId → Prop

variable {o : Origin} {σ σ' σ'' : Session} {s : Cursor}

/-- The cursor is reached from the beginning of the source and takes along what the first one
did, up to flags. A frame in its anchor is a held one or was made where the anchor was; an anchor
from before the source does not matter. -/
structure Cursor.Stands (o : Origin) (σ : Session) (s : Cursor) : Prop where
  reached : ∃ text, o.source = text ++ s.fragment ∧ s.place = o.place.after text
  payload_eq : ∃ flags, s.payload = o.payload.withFlags flags
  frame : ∀ p i id, p ≤ o.source.length → s.frameAt p i = some id → id < o.first ∧ o.held p id ∨
    o.first ≤ id ∧ id < σ.frames.size ∧ (σ.frame id).position = p

/-- There is no match, or one that stands in the source where no more is left than the
position says. -/
inductive Origin.Admits (o : Origin) (σ : Session) (position : Nat) : Option Match → Prop where
  | none : Admits o σ position none
  | some {m : Match} : m.rest.Stands o σ → m.rest.remaining ≤ position →
      Admits o σ position (some m)

/-- The best matches of held frames are behind where they are found, and those of new ones behind
where their calls began. -/
structure Session.Upright (o : Origin) (σ : Session) : Prop where
  first_le : o.first ≤ σ.frames.size
  held : ∀ p id, id < o.first → o.held p id → o.Admits σ p (σ.frame id).best
  best : ∀ id, o.first ≤ id → o.Admits σ (σ.frame id).position (σ.frame id).best

/-- The later session has the frames of the other one, with their positions. -/
structure Session.Proceeds (σ σ' : Session) : Prop where
  size_le : σ.frames.size ≤ σ'.frames.size
  position_eq : ∀ id, id < σ.frames.size → (σ'.frame id).position = (σ.frame id).position

/-- Where a cursor stands, its fields agree with the source, if that begins like a text. -/
theorem Cursor.Stands.coherent (h : s.Stands o σ) (hstart : o.place = .start := by rfl) :
    s.Coherent o.source o.payload := by
  obtain ⟨text, hsource, hplace⟩ := h.reached
  rw [hstart] at hplace
  have hoffset : s.place.offset = text.length := by
    rw [hplace]
    simp [Place.start]
  have htake : o.source.take s.place.offset.toNat = text := by
    rw [hoffset, Int.toNat_natCast, hsource, List.take_left]
  refine ⟨by omega, ?_, ?_, ?_, ?_, ?_, h.payload_eq⟩
  · rw [hoffset, hsource, List.length_append]
    omega
  · rw [hoffset, Int.toNat_natCast, hsource, List.drop_left]
  · rw [htake, hplace]
    rfl
  · intro hnot
    rw [htake] at hnot
    rw [hoffset, hplace]
    simp only [Place.after, Place.start, hnot, if_false]
    omega
  · intro k hk
    rw [htake] at hk
    obtain ⟨hmem, hlength⟩ := hk.length_lastLine
    rw [hoffset, hplace]
    simp only [Place.after, hmem, if_true]
    omega

/-- No more is left than the source has. -/
theorem Cursor.Stands.remaining_le (h : s.Stands o σ) : s.remaining ≤ o.source.length := by
  obtain ⟨text, hsource, -⟩ := h.reached
  rw [hsource, List.length_append]
  exact Nat.le_add_left _ _

/-- Behind a cursor less is left. -/
theorem Cursor.Stands.offset_le {s' : Cursor} (h : s.Stands o σ) (h' : s'.Stands o σ')
    (hle : s'.remaining ≤ s.remaining) : s.place.offset ≤ s'.place.offset := by
  obtain ⟨text, hsource, hplace⟩ := h.reached
  obtain ⟨text', hsource', hplace'⟩ := h'.reached
  have hlength : text.length + s.remaining = text'.length + s'.remaining := by
    have heq := congrArg List.length (hsource.symm.trans hsource')
    simpa [Cursor.remaining] using heq
  rw [hplace, hplace', Place.offset_after, Place.offset_after]
  omega

namespace Session.Proceeds

theorem refl (σ : Session) : σ.Proceeds σ := ⟨le_rfl, fun _ _ => rfl⟩

theorem trans (h : σ.Proceeds σ') (h' : σ'.Proceeds σ'') : σ.Proceeds σ'' :=
  ⟨h.size_le.trans h'.size_le, fun id hid =>
    (h'.position_eq id (hid.trans_le h.size_le)).trans (h.position_eq id hid)⟩

theorem of_frames (h : σ'.frames = σ.frames) : σ.Proceeds σ' :=
  ⟨h ▸ le_rfl, fun id _ => congrArg Frame.position (Session.frame_of_frames h id)⟩

theorem push {f : Frame} (h : σ'.frames = σ.frames.push f) : σ.Proceeds σ' := by
  refine ⟨by simp [h], fun id hid => ?_⟩
  rw [frame_push h, if_neg (Nat.ne_of_lt hid)]

theorem modify {id : FrameId} {change : Frame → Frame} (h : σ'.frames = σ.frames.modify id change)
    (hid : id < σ.frames.size) (hposition : ∀ f, (change f).position = f.position) :
    σ.Proceeds σ' := by
  refine ⟨by simp [h], fun id' _ => ?_⟩
  rw [frame_modify h hid]
  split
  · next heq => rw [heq, hposition]
  · rfl

end Session.Proceeds

namespace Cursor.Stands

/-- A cursor keeps standing as more frames are made. -/
theorem mono (h : s.Stands o σ) (hσ : σ.Proceeds σ') : s.Stands o σ' := by
  refine ⟨h.reached, h.payload_eq,
    fun p i id hle hframe => (h.frame p i id hle hframe).imp_right ?_⟩
  rintro ⟨hnew, hlt, hposition⟩
  exact ⟨hnew, hlt.trans_le hσ.size_le, (hσ.position_eq id hlt).trans hposition⟩

theorem advance (h : s.Stands o σ) (count : Nat) : (s.advance count).Stands o σ := by
  obtain ⟨text, hsource, hplace⟩ := h.reached
  refine ⟨⟨text ++ s.fragment.take count, ?_, ?_⟩, h.payload_eq, h.frame⟩
  · rw [List.append_assoc, fragment_advance, List.take_append_drop, hsource]
  · rw [place_advance, Place.after_append, hplace]

/-- Other flags do not matter, as long as they refer to frames in the same way. -/
theorem withFlags (h : s.Stands o σ) {flags : Flags Carried}
    (hframe : ∀ p i id, p ≤ o.source.length → (s.withFlags flags).frameAt p i = some id →
      id < o.first ∧ o.held p id ∨
        o.first ≤ id ∧ id < σ.frames.size ∧ (σ.frame id).position = p) :
    (s.withFlags flags).Stands o σ := by
  obtain ⟨old, hold⟩ := h.payload_eq
  refine ⟨h.reached, ⟨flags, ?_⟩, hframe⟩
  change s.payload.withFlags flags = _
  rw [hold]
  cases o.payload <;> rfl

end Cursor.Stands

namespace Origin.Admits

variable {position : Nat} {result : Option Match}

theorem mono (h : o.Admits σ position result) (hσ : σ.Proceeds σ') :
    o.Admits σ' position result := by
  cases h with
  | none => exact .none
  | some hstands hle => exact .some (hstands.mono hσ) hle

end Origin.Admits

namespace Session.Upright

theorem of_frames (h : σ.Upright o) (hframes : σ'.frames = σ.frames) : σ'.Upright o := by
  have hframe : ∀ id, σ'.frame id = σ.frame id := Session.frame_of_frames hframes
  refine ⟨hframes ▸ h.first_le, fun p id hid hheld => ?_, fun id hid => ?_⟩
  · rw [hframe]
    exact (h.held p id hid hheld).mono (.of_frames hframes)
  · rw [hframe]
    exact (h.best id hid).mono (.of_frames hframes)

/-- A new frame has no best match. -/
theorem push (h : σ.Upright o) {name : Value} {flag position : Nat}
    (hframes : σ'.frames = σ.frames.push (.begin name flag position)) : σ'.Upright o := by
  have hproceeds : σ.Proceeds σ' := .push hframes
  refine ⟨h.first_le.trans hproceeds.size_le, fun p id hid hheld => ?_, fun id hid => ?_⟩
  · rw [frame_push hframes, if_neg (hid.trans_le h.first_le).ne]
    exact (h.held p id hid hheld).mono hproceeds
  · rw [frame_push hframes]
    split
    · exact .none
    · exact (h.best id hid).mono hproceeds

/-- A frame may be changed as long as one from before gets no other match, and a new one none but
behind where its call began. -/
theorem modify (h : σ.Upright o) {id : FrameId} {change : Frame → Frame}
    (hframes : σ'.frames = σ.frames.modify id change) (hid : id < σ.frames.size)
    (hposition : ∀ f, (change f).position = f.position)
    (hbefore : id < o.first → (change (σ.frame id)).best = (σ.frame id).best)
    (hbest : o.first ≤ id → o.Admits σ (σ.frame id).position (change (σ.frame id)).best) :
    σ'.Upright o := by
  have hproceeds : σ.Proceeds σ' := .modify hframes hid hposition
  refine ⟨h.first_le.trans hproceeds.size_le, fun p id' hid' hheld => ?_, fun id' hid' => ?_⟩
  · have hadmits := (h.held p id' hid' hheld).mono hproceeds
    rw [frame_modify hframes hid]
    split
    · next heq =>
      subst heq
      rwa [hbefore hid']
    · exact hadmits
  · rw [frame_modify hframes hid]
    split
    · next heq =>
      subst heq
      rw [hposition]
      exact (hbest hid').mono hproceeds
    · exact (h.best id' hid').mono hproceeds

end Session.Upright

end SeedGrowth
