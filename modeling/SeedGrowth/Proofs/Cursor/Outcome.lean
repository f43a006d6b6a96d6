import SeedGrowth.Proofs.Cursor.Evaluation
import SeedGrowth.Proofs.LeftRecursion.Outcome
import SeedGrowth.Proofs.Visit.History

/-!
# Cursors stay coherent

All cursors of a run agree with the source, wherever line feeds are, however far parsers go
back, and whatever matches are handed out again. A visit of the run begins upright, since what
leads to it does, and so do the rounds of guarded calls.
-/
namespace SeedGrowth

variable {ρ : Type} {g : Grammar ρ} {o : Origin}

/-- A combinator is evaluated at a cursor that stands in the source, in an upright session. -/
structure Visit.Upright (o : Origin) (v : Visit ρ) : Prop where
  session : v.session.Upright o
  stands : v.cursor.Stands o v.session
  combinator : v.parser.isCombinator = true

/-- An evaluation that goes well leaves the session upright, and gives a match behind the
cursor. -/
theorem Visit.Upright.eval {v : Visit ρ} (h : v.Upright o) {result : Option Match} {σ : Session}
    (hv : v.eval g = (.ok result, σ)) :
    σ.Upright o ∧ v.session.Proceeds σ ∧ o.Admits σ v.cursor.remaining result :=
  Parser.eval_upholds (g.call_upholds v.depth) v.parser v.cursor v.session h.session h.stands
    result σ hv

/-- In every round of a call the session is upright, and later than the one before. -/
theorem Call.Evaluates.upright {call : Call} {body : Eval (Option Match)} {σ : Session}
    (h : σ.Upright o) (hc : call.InPlace o σ)
    (hbody : ∀ σ', σ'.Upright o → σ.Proceeds σ' →
      Eval.Upholds o σ' body fun result σ'' => o.Admits σ'' call.position result)
    {round : Nat} {σ' : Session} (he : call.Evaluates body σ round σ') :
    σ'.Upright o ∧ σ.Proceeds σ' := by
  induction he with
  | first => exact ⟨h, .refl σ⟩
  | @again round σ₁ σ₂ σ₃ σ₄ result frame m _ hrun _ hreview hlonger hadopt ih =>
    obtain ⟨h₁, hσ₁⟩ := ih
    obtain ⟨h₂, hσ₂, hresult⟩ := hbody σ₁ h₁ hσ₁ result σ₂ hrun
    obtain ⟨h₃, hσ₃, -⟩ := review_upholds h₂ (round + 1) result frame σ₃ hreview
    have hσ := hσ₁.trans (hσ₂.trans hσ₃)
    have hm := (eq_of_longer? hlonger ▸ hresult).mono hσ₃
    obtain ⟨h₄, hσ₄, -⟩ := adopt_upholds h₃ (hc.mono hσ) hm () σ₄ hadopt
    exact ⟨h₄, hσ.trans hσ₄⟩

/-- A visit of another combinator in the same place. -/
theorem Visit.Upright.part {v : Visit ρ} (h : v.Upright o) {parser : Parser ρ}
    (hp : parser.isCombinator = true) : Visit.Upright o ⟨v.depth, parser, v.cursor, v.session⟩ :=
  ⟨h.session, h.stands, hp⟩

/-- What an upright visit leads to is upright. -/
theorem Visit.Upright.leads {v v' : Visit ρ} (h : v.Upright o) (hg : g.OfCombinators)
    (hl : g.Leads v v') : v'.Upright o := by
  cases hl with
  | branch => exact h.part (Bool.and_eq_true_iff.1 h.combinator).1
  | otherwise hv =>
    obtain ⟨hparser, hrest⟩ := Bool.and_eq_true_iff.1 h.combinator
    obtain ⟨hσ, hproceeds, -⟩ := (h.part hparser).eval hv
    exact ⟨hσ, h.stands.mono hproceeds, hrest⟩
  | item => exact h.part (Bool.and_eq_true_iff.1 h.combinator).1
  | after hv =>
    obtain ⟨hparser, hrest⟩ := Bool.and_eq_true_iff.1 h.combinator
    obtain ⟨hσ, -, hm⟩ := (h.part hparser).eval hv
    cases hm with
    | some hstands _ => exact ⟨hσ, hstands, hrest⟩
  | mapped => exact h.part h.combinator
  | opt => exact h.part h.combinator
  | many => exact h.part h.combinator
  | @further depth parser _ _ _ _ hv _ =>
    have hp : parser.isCombinator = true := h.combinator
    obtain ⟨hσ, -, hm⟩ := (h.part hp).eval hv
    cases hm with
    | some hstands _ => exact ⟨hσ, hstands, hp⟩
  | plain _ => exact ⟨h.session, h.stands, hg _⟩
  | @guarded depth r s σ guard arrival σ₁ call s' σ₂ round σ₃ _ harrive _ hbegin hround =>
    obtain ⟨h₁, hσ₁, ha⟩ := arrive_upholds h.session arrival σ₁ harrive
    obtain ⟨h₂, -, hs', hremaining, hc, hcall⟩ :=
      Arrival.begin_upholds h₁ (h.stands.mono hσ₁) ha (call, s') σ₂ hbegin
    have hdeeper : σ₂.Proceeds
        (σ₂.modifyRegistry call.registry fun r => { r with level := r.level + 1 }) := .of_frames rfl
    have hlower : (σ₂.modifyRegistry call.registry
        fun r => { r with level := r.level + 1 }).Upright o := h₂.of_frames rfl
    obtain ⟨h₃, hσ₃⟩ := hround.upright hlower (hc.mono hdeeper) fun σ' hσ' hproceeds => by
      rw [hcall, ← hremaining]
      exact Parser.eval_upholds (g.call_upholds depth) _ s' σ' hσ'
        (hs'.mono (hdeeper.trans hproceeds))
    exact ⟨h₃, hs'.mono (hdeeper.trans hσ₃), hg r⟩

theorem Visit.Upright.reached {v v' : Visit ρ} (h : v.Upright o) (hg : g.OfCombinators)
    (hr : Relation.ReflTransGen g.Leads v v') : v'.Upright o := by
  induction hr with
  | refl => exact h
  | tail _ hl ih => exact ih.leads hg hl

/-- The frames a cursor leads to, each with the position where it is found: those in its anchor,
and those in the anchor of the best match of such a frame. Positions beyond the limit are left
out, since a run that begins with less text does not come there. -/
inductive Cursor.Refers (session : Session) (limit : Nat) (s : Cursor) : Nat → FrameId → Prop where
  | found {position flag : Nat} {id : FrameId} (hle : position ≤ limit)
      (hframe : s.frameAt position flag = some id) : Refers session limit s position id
  | behind {position position' flag : Nat} {id id' : FrameId} {m : Match}
      (h : Refers session limit s position id) (hbest : (session.frame id).best = some m)
      (hle : position' ≤ limit) (hframe : m.rest.frameAt position' flag = some id') :
      Refers session limit s position' id'

/-- A cursor that finds no frame leads to none. -/
theorem Cursor.not_refers {s : Cursor} {session : Session} {limit : Nat}
    (h : ∀ p i, s.frameAt p i = none) (p : Nat) (id : FrameId) : ¬ s.Refers session limit p id := by
  intro hrefers
  induction hrefers with
  | @found p i _ _ hframe =>
    rw [h p i] at hframe
    cases hframe
  | behind _ _ _ _ ih => exact ih

/-- Where no frame that a cursor finds has a match, it leads to no other frames. -/
theorem Cursor.Refers.best_eq_none {s : Cursor} {session : Session} {limit p : Nat} {id : FrameId}
    (h : s.Refers session limit p id) (hframes : ∀ p i id, s.frameAt p i = some id →
      id < session.frames.size ∧ (session.frame id).best = none) :
    id < session.frames.size ∧ (session.frame id).best = none := by
  induction h with
  | found _ hframe => exact hframes _ _ _ hframe
  | behind _ hbest _ _ ih =>
    rw [ih.2] at hbest
    cases hbest

/-- A run that begins at a cursor has its text as its source. -/
def Cursor.origin (s : Cursor) (session : Session) : Origin where
  source := s.fragment
  place := s.place
  payload := s.payload
  first := session.frames.size
  held := s.Refers session s.fragment.length

/-- A match was reached in the text of the cursor, with its payload up to flags, and leaves no
more than the position says. -/
structure Match.Suits (m : Match) (s : Cursor) (position : Nat) : Prop where
  reached : ∃ text, s.fragment = text ++ m.rest.fragment ∧ m.rest.place = s.place.after text
  payload_eq : ∃ flags, m.rest.payload = s.payload.withFlags flags
  remaining_le : m.rest.remaining ≤ position

/-- Where a run begins everything is upright, if the matches of the frames that its cursor leads
to were reached in the same text. -/
theorem upright_of_suits {s : Cursor} {session : Session}
    (hframes : ∀ p id, s.Refers session s.fragment.length p id →
      id < session.frames.size ∧ ∀ m, (session.frame id).best = some m → m.Suits s p) :
    session.Upright (s.origin session) ∧ s.Stands (s.origin session) session := by
  refine ⟨⟨le_rfl, fun p id _ hheld => ?_, fun id hid => ?_⟩,
    ⟨[], rfl, (Place.after_nil _).symm⟩, ?_, fun p i id hle hframe => ?_⟩
  · cases hbest : (session.frame id).best with
    | none => exact .none
    | some m =>
      obtain ⟨hreached, hpayload, hle⟩ := (hframes p id hheld).2 m hbest
      refine .some ⟨hreached, hpayload, fun p' i id' hle' hframe => .inl ?_⟩ hle
      have hrefers := hheld.behind hbest hle' hframe
      exact ⟨(hframes p' id' hrefers).1, hrefers⟩
  · have hdefault : session.frame id = default := by
      simp only [Session.frame, Array.getD_eq_getD_getElem?]
      rw [Array.getElem?_eq_none hid]
      rfl
    rw [hdefault]
    exact .none
  · cases hpayload : s.payload with
    | absent => exact ⟨.none .standard .null, by rw [Cursor.origin, hpayload]; rfl⟩
    | bare f => exact ⟨f, by rw [Cursor.origin, hpayload]; rfl⟩
    | labelled label f => exact ⟨f, by rw [Cursor.origin, hpayload]; rfl⟩
  · have hrefers : s.Refers session s.fragment.length p id := .found hle hframe
    exact .inl ⟨(hframes p id hrefers).1, hrefers⟩

/-- Where a run begins everything is upright, if no frame that its cursor finds has a match. -/
theorem upright_start {s : Cursor} {session : Session}
    (hframes : ∀ p i id, s.frameAt p i = some id →
      id < session.frames.size ∧ (session.frame id).best = none) :
    session.Upright (s.origin session) ∧ s.Stands (s.origin session) session := by
  refine upright_of_suits fun p id h => ?_
  obtain ⟨hlt, hnone⟩ := h.best_eq_none hframes
  refine ⟨hlt, fun m hm => ?_⟩
  rw [hnone] at hm
  cases hm

theorem Visit.upright_start {s : Cursor} {session : Session}
    (hframes : ∀ p i id, s.frameAt p i = some id →
      id < session.frames.size ∧ (session.frame id).best = none)
    (depth : Nat) {parser : Parser ρ} (hp : parser.isCombinator = true) :
    Visit.Upright (s.origin session) ⟨depth, parser, s, session⟩ :=
  ⟨(SeedGrowth.upright_start hframes).1, (SeedGrowth.upright_start hframes).2, hp⟩

/-- In a run from the beginning of a source every parser is handed coherent cursors: a visit
begins whenever one is handed out. Every visit has a coherent cursor, and what it matches ends
at a coherent one, which does not lie before that. The payload the run begins with may be any,
but for one that leads to a match that is not coherent with the source, or lies before the
position where it is found. -/
theorem Grammar.run_coherent (hg : g.OfCombinators) {source : List Char} {payload : Payload}
    {session : Session}
    (hframes : ∀ p id, (Cursor.start source payload).Refers session source.length p id →
      id < session.frames.size ∧ ∀ m, (session.frame id).best = some m →
        m.rest.Coherent source payload ∧ m.rest.remaining ≤ p)
    (depth : Nat) {parser : Parser ρ} (hp : parser.isCombinator = true) :
    (∀ m ∈ (g.run depth parser (.start source payload) session).2.moments, ∀ parser' s',
      m.happening = .handed parser' s' → s'.Coherent source payload ∧ ∃ v,
        Relation.ReflTransGen g.Leads ⟨depth, parser, .start source payload, session⟩ v ∧
          v.parser = parser' ∧ v.cursor = s') ∧
      ∀ v, Relation.ReflTransGen g.Leads ⟨depth, parser, .start source payload, session⟩ v →
        v.cursor.Coherent source payload ∧ ∀ m σ, v.eval g = (.ok (some m), σ) →
          m.rest.Coherent source payload ∧ v.cursor.place.offset ≤ m.rest.place.offset := by
  have hstart : Visit.Upright ((Cursor.start source payload).origin session)
      ⟨depth, parser, .start source payload, session⟩ := by
    have hsuits : ∀ p id, (Cursor.start source payload).Refers session source.length p id →
        id < session.frames.size ∧
          ∀ m, (session.frame id).best = some m → m.Suits (.start source payload) p := by
      intro p id h
      obtain ⟨hlt, hbest⟩ := hframes p id h
      refine ⟨hlt, fun m hm => ?_⟩
      obtain ⟨hcoherent, hle⟩ := hbest m hm
      exact ⟨hcoherent.reached, hcoherent.payload_eq, hle⟩
    exact ⟨(upright_of_suits hsuits).1, (upright_of_suits hsuits).2, hp⟩
  have hvisit : ∀ v,
      Relation.ReflTransGen g.Leads ⟨depth, parser, .start source payload, session⟩ v →
      v.cursor.Coherent source payload ∧ ∀ m σ, v.eval g = (.ok (some m), σ) →
        m.rest.Coherent source payload ∧ v.cursor.place.offset ≤ m.rest.place.offset := by
    intro v hv
    have hupright := hstart.reached hg hv
    refine ⟨hupright.stands.coherent, fun m σ hm => ?_⟩
    obtain ⟨-, -, hadmits⟩ := hupright.eval hm
    cases hadmits with
    | some hstands hle => exact ⟨hstands.coherent, hupright.stands.offset_le hstands hle⟩
  refine ⟨fun m hm parser' s' hhanded => ?_, hvisit⟩
  obtain ⟨v, hv, hparser, rfl⟩ := g.run_visits hg depth hp _ session hm hhanded
  exact ⟨(hvisit v hv).1, v, hv, hparser, rfl⟩

/-- Lines of one letter each, read from the last one back. -/
def rows : Grammar Unit :=
  .single (.alt [.sequence [.ref (), .char '\n', .char 'a'], .char 'a'])
    (some ⟨.text "rows", some 0⟩)

/-- Three rows, each with its line feed. -/
def threeRows : List Char := ['a', '\n', 'a', '\n', 'a', '\n']

/-- The session where the rows have been read from the beginning. -/
def readRows : Session :=
  (Visit.eval rows
    ⟨20, .ref (), .start threeRows (.labelled (.text "note") (.none .standard .null)), .quiet⟩).2

/-- The payload that the body of the rule was handed there, with the frame of its call. -/
def handedRows : Payload := .labelled (.text "note") ⟨[1], .anchor ⟨6, [(0, 0)]⟩⟩

/-- The match that was found for the rows ends before the last line feed. -/
theorem readRows_rest {m : Match} (hm : (readRows.frame 0).best = some m) :
    m.rest = ⟨['\n'], ⟨5, 3, 2⟩, handedRows⟩ := by
  have hbest : (readRows.frame 0).best.map (·.rest) = some ⟨['\n'], ⟨5, 3, 2⟩, handedRows⟩ := rfl
  rw [hm] at hbest
  exact Option.some_inj.1 hbest

/-- The payload leads to the frame of that call alone, which its best match leads to again. -/
theorem handedRows_refers {p : Nat} {id : FrameId}
    (h : (Cursor.start threeRows handedRows).Refers readRows threeRows.length p id) :
    p = 6 ∧ id = 0 := by
  have hfound : ∀ {p i id}, (Cursor.start threeRows handedRows).frameAt p i = some id →
      p = 6 ∧ id = 0 := by
    intro p i id h
    obtain ⟨f, hf, hframe⟩ := Option.bind_eq_some_iff.1 h
    cases hf
    obtain ⟨a, ha, hid⟩ := Option.bind_eq_some_iff.1 hframe
    obtain ⟨heq, hp⟩ := Flags.anchorAt_eq_some.1 ha
    cases heq
    have hposition : (6 : Int) = p := hp
    refine ⟨by omega, ?_⟩
    cases i with
    | zero => exact (Option.some_inj.1 hid).symm
    | succ i => cases hid
  induction h with
  | found _ hframe => exact hfound hframe
  | behind _ hm _ hframe ih =>
    rw [ih.2] at hm
    rw [readRows_rest hm] at hframe
    exact hfound hframe

/-- A run may begin with the payload that leads to what was found in the same text. It takes that
match, the second column of line three, and reads the last line feed behind it. -/
theorem visit_rows_coherent :
    rows.OfCombinators ∧
      (∀ p id, (Cursor.start threeRows handedRows).Refers readRows threeRows.length p id →
        id < readRows.frames.size ∧ ∀ m, (readRows.frame id).best = some m →
          m.rest.Coherent threeRows handedRows ∧ m.rest.remaining ≤ p) ∧
      (Parser.sequence [.ref (), .char '\n'] : Parser Unit).isCombinator = true ∧
      (Cursor.start threeRows handedRows).Refers readRows threeRows.length 6 0 ∧
      (readRows.frame 0).best.map (·.rest.place) = some ⟨5, 3, 2⟩ ∧
      ∃ m σ, Visit.eval rows ⟨20, .sequence [.ref (), .char '\n'], .start threeRows handedRows,
          readRows⟩ = (.ok (some m), σ) ∧
        m.rest.place = ⟨6, 4, 1⟩ ∧ m.rest.Coherent threeRows handedRows := by
  have hg : rows.OfCombinators := fun _ => rfl
  have hp : (Parser.sequence [.ref (), .char '\n'] : Parser Unit).isCombinator = true := rfl
  have hcoherent : Cursor.Coherent threeRows handedRows ⟨['\n'], ⟨5, 3, 2⟩, handedRows⟩ := by
    refine ⟨by decide, by decide, rfl, rfl, fun h => absurd (by decide) h, fun k hk => ?_,
      ⟨_, rfl⟩⟩
    have hlength : 5 = k + 1 + 1 := hk.length_lastLine.2
    change (2 : Int) = 5 - k
    omega
  have hframes : ∀ p id,
      (Cursor.start threeRows handedRows).Refers readRows threeRows.length p id →
      id < readRows.frames.size ∧ ∀ m, (readRows.frame id).best = some m →
        m.rest.Coherent threeRows handedRows ∧ m.rest.remaining ≤ p := by
    intro p id h
    obtain ⟨rfl, rfl⟩ := handedRows_refers h
    refine ⟨by decide +kernel, fun m hm => ?_⟩
    rw [readRows_rest hm]
    exact ⟨hcoherent, by decide⟩
  have hnamed : (Cursor.start threeRows handedRows).frameAt 6 0 = some 0 := rfl
  refine ⟨hg, hframes, hp, .found le_rfl hnamed, rfl, ?_⟩
  have hplace : (Visit.eval rows ⟨20, .sequence [.ref (), .char '\n'],
      .start threeRows handedRows, readRows⟩).1.toOption.join.map
      (fun m => m.rest.place) = some ⟨6, 4, 1⟩ := by decide +kernel
  cases hm : Visit.eval rows ⟨20, .sequence [.ref (), .char '\n'],
      .start threeRows handedRows, readRows⟩ with
  | mk result σ =>
    rw [hm] at hplace
    rcases result with stop | _ | m
    · cases hplace
    · cases hplace
    · obtain ⟨hrest, -⟩ := ((Grammar.run_coherent hg hframes 20 hp).2 _ .refl).2 m σ hm
      exact ⟨m, σ, rfl, Option.some_inj.1 hplace, hrest⟩

/-- Two rows, and something behind them. -/
def twoRows : Cursor := .start ['a', '\n', 'a', '!'] (.bare (.none .standard .null))

/-- The payload of a cursor that a body was handed refers to what the rule had matched. Where a
run on another source of that length begins with the payload, it is told that the rest of the
first source is left. -/
theorem foreign_match_incoherent : rows.OfCombinators ∧
    ∃ v σ, Relation.ReflTransGen rows.Leads ⟨20, .ref (), twoRows, .quiet⟩ v ∧
      (Visit.eval rows ⟨20, .ref (), twoRows, .quiet⟩).2 = σ ∧
      ∃ m σ', Visit.eval rows ⟨20, .ref (), .start ['w', 'x', 'y', 'z'] v.cursor.payload, σ⟩ =
          (.ok (some m), σ') ∧ m.rest.fragment = ['!'] ∧
        ¬ m.rest.Coherent ['w', 'x', 'y', 'z'] v.cursor.payload := by
  refine ⟨fun _ => rfl, ⟨19, _, _, _⟩, _, .single (.guarded rfl rfl rfl rfl .first), rfl, ?_⟩
  refine ⟨_, _, rfl, rfl, fun h => ?_⟩
  have hdrop : ['!'] = ['w', 'x', 'y', 'z'].drop 3 := h.fragment_eq
  revert hdrop
  decide

end SeedGrowth
