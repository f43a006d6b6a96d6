import SeedGrowth.Calculator.Grammar
import SeedGrowth.Proofs.Scope.Outcome
import SeedGrowth.Proofs.Verbosity.Evaluation

/-!
# Parsing with traced registries

Parsing a source comes out alike in sessions that differ only in which registries are traced,
and leaves the registries with the same names and levels, unless a trace is to quote a value
that cannot be written. Then that is the fault of the parse, whatever would have become of the
value.
-/
namespace SeedGrowth

variable {ρ : Type} {g : Grammar ρ} {σ τ : Session}

/-- The visit with which parsing the source begins: on a clear cursor, while the registry of
the request is current. -/
def Grammar.Begins (g : Grammar ρ) (parser : Parser ρ) (request : Request) (σ : Session)
    (v : Visit ρ) : Prop :=
  ∃ id σ₁ s, Eval.registryOr request.registry σ = (.ok id, σ₁) ∧
    Cursor.clear request.source.toList (σ₁.registry id).capacity = .ok s ∧
    v = ⟨g.nestingBound s.remaining, parser, s, { σ₁ with current := some id }⟩

/-- No frame is found on a clear cursor. -/
theorem Cursor.frameAt_of_clear {text : List Char} {capacity : Capacity} {s : Cursor}
    (h : Cursor.clear text capacity = .ok s) :
    ∃ payload, s = .start text payload ∧ ∀ p i, (Cursor.start text payload).frameAt p i = none := by
  obtain ⟨flags, hflags, h⟩ := bind_eq_ok.1 h
  cases h
  refine ⟨_, rfl, fun p i => ?_⟩
  unfold Flags.allocate at hflags
  split at hflags
  · cases hflags
  · split at hflags
    · cases hflags
    · split at hflags <;> cases hflags
      rfl

/-- Nothing has been said yet about frames that there are not. -/
theorem Session.Louder.echoes (h : σ.Louder τ) (said : Value → Prop) :
    σ.Echoes said σ.frames.size τ := by
  refine ⟨h, fun id hid m hm => ?_⟩
  rw [frame, Array.getD_eq_getD_getElem?, Array.getElem?_eq_none hid] at hm
  cases hm

/-- What parsing a source applies is echoed in louder sessions. -/
theorem Grammar.begins_echoed (hg : g.OfCombinators) {parser : Parser ρ}
    (hp : parser.isCombinator = true) {request : Request} {v : Visit ρ}
    (hv : g.Begins parser request σ v) (h : v.session.Louder τ) :
    EndsEchoed (v.Says g) v.session.frames.size (· = ·) (v.eval g)
      (v.parser.eval (g.call v.depth) v.cursor τ) := by
  obtain ⟨id, σ₁, s, -, hs, rfl⟩ := hv
  obtain ⟨payload, rfl, hframe⟩ := Cursor.frameAt_of_clear hs
  refine visit_echoed hg (Visit.upright_start (fun p i id hid => ?_) _ hp)
    (Cursor.not_refers hframe) (h.echoes _)
  rw [hframe] at hid
  cases hid

/-- Tracing does not change what parsing a source comes to, nor the names and levels in the
registries that are left, unless a visit is to report a value that cannot be written: the name
of a rule, or a result of its rounds, that may not even be part of the value parsed. -/
theorem Grammar.parse_echoed (hg : g.OfCombinators) {parser : Parser ρ}
    (hp : parser.isCombinator = true) (request : Request) (h : σ.Louder τ) :
    ((g.parse parser request τ).1 = (g.parse parser request σ).1 ∧
        (g.parse parser request σ).2.Louder (g.parse parser request τ).2) ∨
      ((g.parse parser request τ).1 = .error (.fault .unwritableInteger) ∧
        ∃ v, g.Begins parser request σ v ∧ ∃ x, v.Says g x ∧ x.writable = false) := by
  let said x := ∃ v, g.Begins parser request σ v ∧ v.Says g x
  have hparse : Eval.Echoed said σ.frames.size σ τ (g.parse parser request)
      (g.parse parser request) (· = ·) := by
    refine .bind (.registryOr (h.echoes said) request.registry) ?_
    rintro id _ σ₁ τ₁ hid h₁ rfl
    have hframes : σ₁.frames = σ.frames := Eval.frames_of_registryOr hid
    refine .bind (?_ : Eval.Echoed said σ.frames.size σ₁ τ₁ _ _ (· = ·)) ?_
    · refine .within h₁ fun h₂ => ?_
      refine .bind (.read h₂ (h₂.louder.registry id).capacity_eq.symm) ?_
      rintro capacity _ σ₂ τ₂ hread h₂ rfl
      cases hread
      refine .bind (.lift h₂ _) ?_
      rintro s _ σ₃ τ₃ hclear h₃ rfl
      obtain ⟨hs, rfl⟩ := Eval.eq_of_lift hclear
      have hbegins : g.Begins parser request σ
          ⟨g.nestingBound s.remaining, parser, s, { σ₁ with current := some id }⟩ :=
        ⟨id, σ₁, s, hid, hs, rfl⟩
      have happlied : Eval.Echoed said σ.frames.size { σ₁ with current := some id } τ₃
          (g.apply parser s) (g.apply parser s) (· = ·) := by
        rw [← hframes]
        exact (begins_echoed hg hp hbegins h₃.louder).mono fun x hx => ⟨_, hbegins, hx⟩
      refine .bind happlied ?_
      rintro result _ σ₄ τ₄ - h₄ rfl
      exact .pure h₄ rfl
    · rintro ⟨start, result⟩ _ σ₂ τ₂ - h₂ rfl
      cases result with
      | none => exact .throw h₂ _
      | some m =>
        dsimp only
        split
        · exact .throw h₂ _
        · exact .pure h₂ rfl
  unfold Eval.Echoed at hparse
  generalize g.parse parser request σ = runs at hparse ⊢
  generalize g.parse parser request τ = runs' at hparse ⊢
  cases hparse with
  | answered h' hrelated => exact .inl ⟨congrArg Except.ok hrelated.symm, h'.louder⟩
  | stopped h' => exact .inl ⟨rfl, h'⟩
  | silenced hsaid hwritable =>
    obtain ⟨v, hv, hsays⟩ := hsaid
    exact .inr ⟨rfl, v, hv, _, hsays, hwritable⟩

/-- A session that is traced is louder than one that is not. -/
theorem Session.quiet_louder_traced : Session.quiet.Louder .traced := by
  refine ⟨rfl, fun id => ?_, rfl, rfl, rfl⟩
  cases id with
  | zero => exact ⟨rfl, rfl, rfl, fun h => nomatch h⟩
  | succ id => exact .refl _

/-- A calculation is the same if it is traced, and the flags of its rules have been given away
as if it were not. -/
theorem Calculator.evaluate_difference_echoed :
    Calculator.grammar.OfCombinators ∧ Calculator.start.isCombinator = true ∧
      Session.quiet.Louder .traced ∧
      (Calculator.evaluate "7-(2-3)" (some 0) .traced).1 =
        (Calculator.evaluate "7-(2-3)" (some 0) .quiet).1 ∧
      (Calculator.evaluate "7-(2-3)" (some 0) .quiet).2.Louder
        (Calculator.evaluate "7-(2-3)" (some 0) .traced).2 := by
  have hg : Calculator.grammar.OfCombinators := by
    intro r
    cases r <;> rfl
  have hp : Calculator.start.isCombinator = true := rfl
  have h := Session.quiet_louder_traced
  refine ⟨hg, hp, h, ?_⟩
  have hvalue : (Calculator.evaluate "7-(2-3)" (some 0) .traced).1.isOk = true := by
    decide +kernel
  rcases Grammar.parse_echoed hg hp ⟨"7-(2-3)", some 0, true, unnamedFile⟩ h with
    ⟨heq, hlouder⟩ | ⟨hfault, -⟩
  · exact ⟨heq, hlouder⟩
  · unfold Calculator.evaluate at hvalue
    rw [hfault] at hvalue
    cases hvalue

/-- The value of a letter cannot be written. It is not part of the value that is parsed, but
the parse does not come to that if it is traced. -/
theorem parse_letter_departs :
    Session.quiet.Louder .traced ∧
      ((letter (.int (10 ^ 4300))).parse (.mapped (.ref ()) fun _ => .ok (.int 0))
        ⟨"a", some 0, true, unnamedFile⟩ .quiet).1 = .ok (.int 0) ∧
      ((letter (.int (10 ^ 4300))).parse (.mapped (.ref ()) fun _ => .ok (.int 0))
        ⟨"a", some 0, true, unnamedFile⟩ .traced).1 = .error (.fault .unwritableInteger) := by
  refine ⟨Session.quiet_louder_traced, rfl, ?_⟩
  have hfault : (match ((letter (.int (10 ^ 4300))).parse (.mapped (.ref ()) fun _ => .ok (.int 0))
        ⟨"a", some 0, true, unnamedFile⟩ .traced).1 with
      | .error (.fault .unwritableInteger) => true
      | _ => false) = true := by decide +kernel
  split at hfault
  · next heq => exact heq
  · cases hfault

end SeedGrowth
