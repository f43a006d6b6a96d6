import SeedGrowth.Calculator.Grammar
import SeedGrowth.Proofs.Cursor.Outcome
import SeedGrowth.Proofs.Grammar.Parsing
import SeedGrowth.Proofs.Text.Lines

/-!
# Where a source does not match

A source that does not match is reported at a place, with the line and the column of a cursor,
and with a line of the source. The place is that of the cursor where the match ended. The line
is the one that the number stands for among the lines of the source, and that is the one that
holds the place as long as every line break before it ends in a line feed.
-/
namespace SeedGrowth

variable {ρ : Type} {request : Request} {s : Cursor} {result : Option Match}

/-- A report shows the place of a cursor in a source. -/
structure Mismatched.Shows (place : Mismatched) (request : Request) (s : Cursor) : Prop where
  file_eq : place.file = request.file
  line_eq : place.line = s.place.line
  column_eq : place.column = s.place.column
  /-- The text before the cursor says which line is shown. -/
  text_eq : ∃ before, request.source.toList = before ++ s.fragment ∧
    s.place = Place.start.after before ∧
    ∀ c rest, s.fragment = c :: rest → Text.isLineBreak c = false →
      (Text.lines request.source.toList)[before.count '\n']? = some place.text.toList ∧
      (Text.lines request.source.toList)[Text.breaks before]? =
        some (Text.lineAround before s.fragment) ∧
      (Text.breaks before = before.count '\n' ↔ Text.FedOnly before) ∧
      (Text.FedOnly before → place.text.toList = Text.lineAround before s.fragment ∧
        place.text.toList[(place.column - 1).toNat]? = some c)

/-- The cursor where a match ended, or the one where none began. -/
def Cursor.ended (s : Cursor) : Option Match → Cursor
  | none => s
  | some m => m.rest

theorem Fault.unmatchedAt_of_getElem? {source : String} {n : ℕ} {line : List Char}
    (hline : (Text.lines source.toList)[n]? = some line) (hsource : source.length < placeLimit)
    (column : ℤ) (file : String) :
    Fault.unmatchedAt source (1 + n) column file =
      .unmatched ⟨file, 1 + n, column, String.ofList line⟩ := by
  obtain ⟨hlt, -⟩ := List.getElem?_eq_some_iff.1 hline
  have hlines := Text.length_lines_le source.toList
  rw [String.length_toList] at hlines
  have hfits : fitsPlace n = true := by
    simp only [fitsPlace, Bool.and_eq_true, decide_eq_true_eq]
    omega
  have hitem : itemOf .list (Text.lines source.toList) (.int n) = .ok line := by
    have hplace : (Value.int n).place .list = .ok (n : ℤ) := by
      simp [Value.place, Value.whole?, hfits]
    rw [itemOf, hplace, ok_bind, itemAt, if_pos (by omega), Int.toNat_natCast, hline]
  rw [unmatchedAt, if_pos (by omega), show (1 + n - 1 : ℤ) = n by omega, hitem]

theorem Place.column_after_start (text : List Char) :
    (Place.start.after text).column = (Place.lastLine text).length + 1 := by
  by_cases hfeed : '\n' ∈ text
  · simp only [after, hfeed, if_true]
  · have hall : lastLine text = text := by
      have hsplit := lastLine_append_of_not_mem [] hfeed
      simpa [lastLine] using hsplit
    simp only [after, start, hfeed, if_false, hall]
    omega

/-- The report at a cursor in a source shows its place. -/
theorem Cursor.unmatched_shows {before : List Char}
    (hbefore : request.source.toList = before ++ s.fragment)
    (hplace : s.place = Place.start.after before) (hsource : request.source.length < placeLimit) :
    ∃ place, s.unmatched request.source request.file = .unmatched place ∧
      place.Shows request s := by
  have hline : s.place.line = 1 + (before.count '\n' : ℕ) := by
    rw [hplace]
    rfl
  by_cases hrest : ∃ c rest, s.fragment = c :: rest ∧ Text.isLineBreak c = false
  · obtain ⟨c, rest, hfragment, hc⟩ := hrest
    have haround := Text.getElem?_lines hc before rest
    rw [← hfragment, ← hbefore] at haround
    have hlt : before.count '\n' < (Text.lines request.source.toList).length :=
      (Text.count_le_breaks before).trans_lt (List.getElem?_eq_some_iff.1 haround).1
    have hshown := List.getElem?_eq_getElem hlt
    have hreport := Fault.unmatchedAt_of_getElem? hshown hsource s.place.column request.file
    rw [← hline] at hreport
    refine ⟨_, hreport, rfl, rfl, rfl, before, hbefore, hplace, fun c' rest' hcons hc' => ?_⟩
    rw [hfragment] at hcons
    cases hcons
    rw [String.toList_ofList]
    refine ⟨hshown, haround, Text.breaks_eq_count_iff before, fun hfed => ?_⟩
    rw [(Text.breaks_eq_count_iff before).2 hfed, hshown] at haround
    have htext := Option.some_inj.1 haround
    rw [htext]
    refine ⟨rfl, ?_⟩
    have hcolumn : (s.place.column - 1).toNat = (Text.openLine before).length := by
      rw [hplace, Place.column_after_start, hfed.openLine_eq]
      omega
    rw [hcolumn, Text.lineAround, List.getElem?_append_right le_rfl, Nat.sub_self, hfragment,
      List.takeWhile_cons_of_pos (by simp [hc])]
    rfl
  · have hpos : 1 ≤ s.place.line := by omega
    obtain ⟨text, htext⟩ := Fault.unmatchedAt_eq hpos hsource s.place.column request.file
    exact ⟨_, htext, rfl, rfl, rfl, before, hbefore, hplace, fun c rest hfragment hc =>
      absurd ⟨c, rest, hfragment, hc⟩ hrest⟩

/-- A parser that goes well ends at a place in the source. -/
theorem Grammar.exists_ended (g : Grammar ρ) (parser : Parser ρ) {source : List Char}
    {payload : Payload} {σ σ' : Session}
    (hframes : ∀ p i id, (Cursor.start source payload).frameAt p i = some id →
      id < σ.frames.size ∧ (σ.frame id).best = none)
    (happly : g.apply parser (.start source payload) σ = (.ok result, σ')) :
    ∃ before, source = before ++ ((Cursor.start source payload).ended result).fragment ∧
      ((Cursor.start source payload).ended result).place = Place.start.after before := by
  obtain ⟨hupright, hstands⟩ := upright_start hframes
  obtain ⟨-, -, hadmits⟩ :=
    Parser.eval_upholds (g.call_upholds _) parser _ σ hupright hstands result σ' happly
  cases hadmits with
  | none => exact hstands.reached
  | some hm _ => exact hm.reached

/-- A source that is parsed has a value, or it is reported where it does not match: where the
parser ended, with the line that holds this place if all line breaks before it are line feeds
or end in one. Nothing goes wrong with a report. -/
theorem Grammar.parse_shows (g : Grammar ρ) (parser : Parser ρ) {session σ σ' : Session}
    {home : RegistryId} (hregistry : Eval.registryOr request.registry session = (.ok home, σ))
    (hclear : Cursor.clear request.source.toList (σ.registry home).capacity = .ok s)
    (happly : g.apply parser s { σ with current := some home } = (.ok result, σ'))
    (hsource : request.source.length < placeLimit) :
    (∃ m, result = some m ∧ (request.complete = true → m.rest.fragment = []) ∧
      (g.parse parser request session).1 = .ok m.value) ∨
      (∀ m, result = some m → request.complete = true ∧ m.rest.fragment ≠ []) ∧
        ∃ place, (g.parse parser request session).1 = .error (.fault (.unmatched place)) ∧
          place.Shows request (s.ended result) := by
  have houtcome := congrArg Prod.fst (g.parse_of_clear parser hregistry hclear)
  rw [happly] at houtcome
  have hstart : s = .start request.source.toList (.bare (.none (σ.registry home).capacity .null)) := by
    obtain ⟨flags, hflags, hs⟩ := bind_eq_ok.1 hclear
    cases hs
    rw [Flags.eq_of_allocate hflags]
  have hended : ∃ before, request.source.toList = before ++ (s.ended result).fragment ∧
      (s.ended result).place = Place.start.after before := by
    subst hstart
    exact g.exists_ended parser (by rintro _ _ _ ⟨⟩) happly
  obtain ⟨before, hbefore, hplace⟩ := hended
  obtain ⟨place, hreport, hshows⟩ := Cursor.unmatched_shows hbefore hplace hsource
  rw [houtcome]
  cases result with
  | none =>
    refine .inr ⟨fun m hm => (by cases hm), place, ?_, hshows⟩
    rw [ok_bind, Request.outcome]
    exact congrArg (fun fault => Except.error (Stop.fault fault)) hreport
  | some m =>
    by_cases hrest : request.complete = true ∧ m.rest.fragment ≠ []
    · refine .inr ⟨fun m' hm' => (by cases hm'; exact hrest), place, ?_, hshows⟩
      rw [ok_bind, Request.outcome, if_pos (by simpa using hrest)]
      exact congrArg (fun fault => Except.error (Stop.fault fault)) hreport
    · refine .inl ⟨m, rfl, fun hcomplete => ?_, ?_⟩
      · by_contra hne
        exact hrest ⟨hcomplete, hne⟩
      · rw [ok_bind, Request.outcome, if_neg (by simpa using hrest)]
        rfl

/-- Two numbers without an operator, on the second line. The first is matched, and so is the
blank behind it. -/
theorem Calculator.evaluate_gap_shows :
    let request : Request := ⟨"1+\n2 3", none, true, unnamedFile⟩
    let s := Cursor.start request.source.toList (.bare (.none .standard .null))
    Eval.registryOr none .empty = (.ok 0, Session.empty.currentRegistry.2) ∧
      Cursor.clear request.source.toList
        (Session.empty.currentRegistry.2.registry 0).capacity = .ok s ∧
      request.source.length < placeLimit ∧
      ∃ result σ', grammar.apply start s
          { Session.empty.currentRegistry.2 with current := some 0 } = (.ok result, σ') ∧
        ∃ place, (evaluate "1+\n2 3" none .empty).1 = .error (.fault (.unmatched place)) ∧
          place.Shows request (s.ended result) ∧ place = ⟨unnamedFile, 2, 3, "2 3"⟩ := by
  intro request s
  have hregistry : Eval.registryOr none .empty = (.ok 0, Session.empty.currentRegistry.2) := rfl
  have hclear : Cursor.clear request.source.toList
      (Session.empty.currentRegistry.2.registry 0).capacity = .ok s := rfl
  have hsource : request.source.length < placeLimit := by decide +kernel
  refine ⟨hregistry, hclear, hsource, ?_⟩
  have hok : (grammar.apply start s
      { Session.empty.currentRegistry.2 with current := some 0 }).1.toOption.isSome := by
    decide +kernel
  have hfault : fault? (evaluate "1+\n2 3" none .empty).1 =
      some (.unmatched ⟨unnamedFile, 2, 3, "2 3"⟩) := by decide +kernel
  have hreport := fault?_eq_some.1 hfault
  cases happly : grammar.apply start s
      { Session.empty.currentRegistry.2 with current := some 0 } with
  | mk result σ' =>
    rw [happly] at hok
    cases result with
    | error stop => cases hok
    | ok result =>
      rcases grammar.parse_shows start hregistry hclear happly hsource with
        ⟨m, -, -, hvalue⟩ | ⟨-, place, hplace, hshows⟩
      · cases hreport.symm.trans hvalue
      · refine ⟨result, σ', rfl, place, hplace, hshows, ?_⟩
        have heq := hreport.symm.trans hplace
        cases heq
        rfl

/-- Behind a form feed the place is on the first line, and so is the line that is shown. But
that line ends at the form feed, so it does not hold the place. -/
theorem Calculator.evaluate_misses_line :
    ∃ place, (evaluate "1\x0c2" none .empty).1 = .error (.fault (.unmatched place)) ∧
      place.line = 1 ∧ place.column = 3 ∧ "1\x0c2".toList[2]? = some '2' ∧
      Text.isLineBreak '2' = false ∧ place.text.toList[2]? = none := by
  have hfault : fault? (evaluate "1\x0c2" none .empty).1 =
      some (.unmatched ⟨unnamedFile, 1, 3, "1"⟩) := by decide +kernel
  exact ⟨_, fault?_eq_some.1 hfault, rfl, rfl, by decide +kernel, by decide, by decide +kernel⟩

end SeedGrowth
