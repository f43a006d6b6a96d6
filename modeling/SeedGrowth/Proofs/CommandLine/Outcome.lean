import SeedGrowth.Proofs.Binary64.Range
import SeedGrowth.Proofs.Calculator.Derivation
import SeedGrowth.Proofs.CommandLine.Settings
import SeedGrowth.Proofs.Decimal.Layout
import SeedGrowth.Proofs.Room.Outcome
import SeedGrowth.Proofs.Verbosity.Silence

/-!
# What the command reports

The command line is a row of options that asks to be verbose once at most, with a text. Where the
number of flags can be granted, the command prints the value that the text has in a new session,
or reports the fault that it stops at there. Any other number of flags is a wrong use, except that
for the earlier release of the reader a separator which is attached counts as no number at all and
is not dealt with.
-/
namespace SeedGrowth.CommandLine

variable {release : Release}

/-- The last line of a report. -/
def reportLine? : Fault → Option String
  | .unmatched _ => some s!"SyntaxError: {unmatchedMessage}"
  | fault => (arithmeticTitle? fault).map fun title => s!"{title}: {fault.message}"

/-- The value or fault that the text comes to in a new session is what the outcome tells: the
value on the first line, unless the row asks to be quiet, and after it nothing, or statistics if
the row asks to be verbose; a fault by the last line of the report. -/
structure Row.Reports (row : Row) (text : String) (outcome : Outcome) : Prop where
  value : ∀ v shown, (Calculator.evaluate text none .empty).1 = .ok v → v.plain = .ok shown →
    OneLine shown ∧ ∃ rest,
      outcome = ⟨(if row.quiet then "" else shown ++ "\n") ++ rest, "", .exit 0⟩ ∧
      (row.verbosity = 0 → rest = "") ∧ (row.verbosity = 1 → ∃ figures, rest = "Total time: " ++ figures)
  fault : ∀ fault line, (Calculator.evaluate text none .empty).1 = .error (.fault fault) →
    reportLine? fault = some line →
      ∃ above, outcome = ⟨"", above ++ line ++ "\n", .exit 1⟩

/-! ### Jobs -/

namespace Job

/-- A job that is not traced has the outcome of a new session, and leaves no trace. -/
theorem evaluate_eq {job : Job} (hquiet : job.registry.verbose = false)
    (hroom : Calculator.grammar.HasRoom job.registry)
    (hflags : job.registry.capacity.Allocated) (input : String) :
    (job.evaluate input).1 = (Calculator.evaluate (job.source input) none .empty).1 ∧
      traceText (job.evaluate input).2 = "" := by
  let session := (Session.empty.addRegistry job.registry).2
  have hregistry : session.registry 0 = job.registry := rfl
  have hserves : session.Serves (some 0) 0 := by
    refine ⟨fun _ => ⟨rfl, Nat.one_pos⟩, ?_, ?_, ?_⟩ <;> rw [hregistry]
    · exact hquiet
    · exact hroom
    · exact hflags
  have hmute : session.Mute := Session.mute_empty.addRegistry hquiet
  have hkeeps := Calculator.grammar.parse_keepsSilence Calculator.start
    ⟨job.source input, some 0, true, unnamedFile⟩ session
  have htrace : (job.evaluate input).2.trace = #[] := (hkeeps hmute).2
  constructor
  · rw [Calculator.evaluate_of_serves Session.serves_empty]
    exact Calculator.evaluate_of_serves hserves _
  · rw [traceText, Session.traceLines, htrace]
    rfl

/-- How many characters there were for every second can be told. -/
theorem exists_rateText {length : Nat} (h : length < placeLimit) (elapsed : Float) :
    ∃ text, rateText length (.real elapsed) = .ok text := by
  unfold rateText
  by_cases hzero : (Number.real elapsed).isZero = true
  · exact ⟨"", if_pos hzero⟩
  · obtain ⟨x, hx⟩ := Binary64.exists_ofInt? h
    have hreal : (Number.int length).toReal = .ok x := by rw [Number.toReal, hx]
    have hdivide : Operation.divide.onNumbers (.int length) (.real elapsed) =
        .ok (.real (x / elapsed)) := by
      change (do Operation.divide.onReal (← (Number.int length).toReal) elapsed) = _
      rw [hreal]
      exact if_neg hzero
    rw [if_neg hzero, hdivide]
    exact ⟨_, rfl⟩

/-- Statistics can be given if the clock shows reals. -/
theorem exists_statistics (job : Job) {input : String}
    (h : (job.source input).length < placeLimit) (session : Session) (before after : Float) :
    ∃ figures, job.statistics input session (.real before) (.real after) =
      .ok ("Total time: " ++ figures) := by
  obtain ⟨rate, hrate⟩ := exists_rateText h (after - before)
  have helapsed : Operation.subtract.onNumbers (.real after) (.real before) =
      .ok (.real (after - before)) := rfl
  unfold statistics
  simp only [helapsed, ok_bind, Number.toReal_real, hrate, String.append_assoc]
  exact ⟨_, rfl⟩

/-- After the value there is nothing, or statistics if the job is verbose. -/
theorem exists_epilogue (job : Job) {input : String}
    (h : (job.source input).length < placeLimit) (session : Session) (before after : Float) :
    ∃ rest, job.epilogue input session (.real before) (.real after) = .ok rest ∧
      (job.settings.verbose = 0 → rest = "") ∧
      (job.settings.verbose ≠ 0 → ∃ figures, rest = "Total time: " ++ figures) := by
  rw [epilogue]
  by_cases hzero : job.settings.verbose = 0
  · exact ⟨"", if_pos hzero, fun _ => rfl, fun hne => absurd hzero hne⟩
  · obtain ⟨figures, hfigures⟩ := job.exists_statistics h session before after
    rw [if_neg hzero]
    exact ⟨_, hfigures, fun h => absurd h hzero, fun _ => ⟨figures, rfl⟩⟩

end Job

/-- A fault that is reported is so in the last line. -/
theorem exists_report {fault : Fault} {line : String} (h : reportLine? fault = some line)
    (file : String) : ∃ above, faultReport? fault file = some (above ++ line ++ "\n") := by
  unfold reportLine? at h
  split at h
  · next place =>
    cases h
    refine ⟨s!"  File \"{file}\", line {place.line}\n" ++ Mismatched.excerpt place, ?_⟩
    simp only [faultReport?, Mismatched.report, String.append_assoc]
    rfl
  · next hne =>
    obtain ⟨title, htitle, rfl⟩ := Option.map_eq_some_iff.1 h
    refine ⟨"", ?_⟩
    unfold faultReport?
    split
    · next place => exact absurd rfl (hne place)
    · rw [htitle, String.empty_append]
      rfl

/-- Texts come to numbers. -/
theorem exists_number_of_evaluate {text : String} {v : Value}
    (h : (Calculator.evaluate text none .empty).1 = .ok v) : ∃ x : Number, v = x.toValue := by
  rw [Calculator.evaluate_of_serves Session.serves_empty] at h
  cases hresult : Calculator.Meaning.values.calculate text with
  | error fault =>
    rw [hresult] at h
    cases h
  | ok v' =>
    rw [hresult] at h
    cases h
    obtain ⟨tree, -, hvalue⟩ := Calculator.Tree.exists_derives hresult
    exact tree.exists_number hvalue

/-- What the command does with the outcome of an evaluation that leaves no trace. -/
theorem Row.reports_of_evaluate {row : Row} {text input : String} {job : Job} {v : Value}
    {expression : Option String} (hsettings : job.settings = row.settings v expression)
    (hsource : job.source input = text) (hlength : text.length < placeLimit)
    (hresult : (job.evaluate input).1 = (Calculator.evaluate text none .empty).1)
    (htrace : Job.traceText (job.evaluate input).2 = "") (before after : Float) :
    row.Reports text (job.outcome input (.real before) (.real after) (job.evaluate input)) := by
  generalize job.evaluate input = evaluation at *
  obtain ⟨result, session⟩ := evaluation
  change result = _ at hresult
  change Job.traceText session = "" at htrace
  have hquiet : job.settings.quiet = row.quiet := by rw [hsettings]; rfl
  have hverbose : job.settings.verbose = row.verbosity := by rw [hsettings]; rfl
  constructor
  · intro v shown hv hshown
    rw [hv] at hresult
    subst hresult
    have hline : OneLine shown := by
      obtain ⟨x, rfl⟩ := exists_number_of_evaluate hv
      exact Number.plain_oneLine hshown
    have htext : job.valueText v = .ok (if row.quiet then "" else shown ++ "\n") := by
      rw [Job.valueText, hquiet, hshown]
      cases row.quiet <;> rfl
    obtain ⟨rest, hrest, hnone, hsome⟩ :=
      job.exists_epilogue (hsource.symm ▸ hlength) session before after
    rw [hverbose] at hnone hsome
    refine ⟨hline, rest, ?_, hnone, fun hone => hsome (by omega)⟩
    simp only [Job.outcome, htext, hrest, htrace, String.empty_append]
  · intro fault line hfault hline
    rw [hfault] at hresult
    subst hresult
    obtain ⟨above, habove⟩ := exists_report hline job.file
    refine ⟨above, ?_⟩
    simp only [Job.outcome, habove, htrace]

/-! ### Command lines -/

theorem Row.unseparated_of_flags {row : Row} {v : Value} (h : row.flags = .ok v) :
    row.Unseparated := by
  intro asked hasked _ heq
  have hflags : row.flags = integerOfText asked.text := by
    rw [Row.flags, Option.mem_def.1 hasked]
    rfl
  have hrefused : (integerOfText "--").isOk = false := by decide +kernel
  rw [← heq, ← hflags, h] at hrefused
  cases hrefused

/-- The number of flags asked for can be written. -/
theorem Row.writable_of_flags {row : Row} {n : Int} (h : row.flags = .ok (.int n)) :
    (Value.int n).writable = true := by
  have hread : ∃ text, Decimal.readInteger text = .ok n := by
    unfold Row.flags at h
    cases hcapacity : row.capacity with
    | none =>
      rw [hcapacity] at h
      cases h
      exact ⟨['6', '4'], rfl⟩
    | some asked =>
      rw [hcapacity] at h
      obtain ⟨n', hn, hread⟩ := integerOfText_eq_ok h
      cases hn
      exact ⟨_, hread⟩
  obtain ⟨text, hread⟩ := hread
  exact writable_of_readInteger hread

/-- What is no capacity is told in the fault. -/
theorem ofValue_eq_error {n : Int} (h : ∀ c : Capacity, n ≠ c.size)
    (hwritable : (Value.int n).writable = true) :
    ∃ text, Capacity.ofValue (.int n) = .error (.badCapacity text) := by
  obtain ⟨text, htext⟩ := Value.exists_written _ hwritable
  have hnone : ((Number.int n).toInt?.bind (Capacity.ofInt? · false)) = none := by
    refine Option.eq_none_iff_forall_ne_some.2 fun c hc => ?_
    exact h c (Capacity.ofInt?_eq_some_iff.1 hc).1
  refine ⟨text, ?_⟩
  unfold Capacity.ofValue
  simp only [Value.number?, Number.isReal, hnone, htext]
  rfl

theorem real_of_allocated {c : Capacity} (h : c.Allocated) : c.real = false := by
  refine Bool.eq_false_iff.2 fun hreal => ?_
  rw [Capacity.Allocated, Flags.allocate, if_pos hreal] at h
  cases h

theorem Job.read_eq {arguments : List String} {settings : Settings}
    (h : Settings.read release arguments = .ok settings) : Job.read release arguments =
      match Capacity.ofValue settings.capacity with
      | .error fault => .error (.ofCapacityFault fault)
      | .ok capacity => .ok ⟨settings, .empty capacity (2 ≤ settings.verbose)⟩ := by
  rw [Job.read, h]
  dsimp only
  rw [Registry.create, Capacity.ofValue?]
  cases Capacity.ofValue settings.capacity <;> rfl

/-- The command prints the value that the text has in a new session, or reports the fault that it
stops at there, if the number of flags can be granted; any other number of flags is a wrong use,
unless the release is the earlier one and it is a separator that is attached. -/
theorem run_reports {row : Row} {text input : String} {arguments : List String}
    (h : row.Gives text arguments input) (hverbosity : row.verbosity ≤ 1)
    (hlength : text.length < placeLimit) :
    (∀ c : Capacity, row.flags = .ok (.int c.size) → c.Allocated → ∀ before after : Float,
      row.Reports text (run arguments input (.real before) (.real after) release)) ∧
    (release = .later ∨ row.Unseparated → (∀ c : Capacity, row.flags ≠ .ok (.int c.size)) →
      ∃ message, Job.read release arguments = .error (.ofUsage message) ∧
        ∀ input before after, run arguments input before after release = .ofUsage message) := by
  constructor
  · intro c hflags hallocated before after
    rcases h.read_settings (fun _ => Row.unseparated_of_flags hflags) with
      ⟨n, expression, hn, hsource, hread⟩ | ⟨hle, -⟩
    · obtain rfl : n = c.size := by
        rw [hflags] at hn
        cases hn
        rfl
      let registry := Registry.empty c (2 ≤ row.verbosity)
      let job : Job := ⟨row.settings (.int c.size) expression, registry⟩
      have hjob : Job.read release arguments = .ok job := by
        have hcapacity := Capacity.ofValue_int_eq_ok_iff.2 ⟨rfl, real_of_allocated hallocated⟩
        rw [Job.read_eq hread]
        simp only [Row.settings, hcapacity]
        rfl
      have hquiet : registry.verbose = false := decide_eq_false (by omega)
      have hroom : Calculator.grammar.HasRoom registry := by
        have hword : wordSize ≤ c.size := Nat.le_of_dvd c.size_pos c.wordSize_dvd_size
        exact Grammar.hasRoom_of_le (Nat.le_trans (by decide : 3 ≤ wordSize) hword)
      obtain ⟨hresult, htrace⟩ := job.evaluate_eq hquiet hroom hallocated input
      rw [run, hjob]
      have hsource : job.source input = text := hsource
      rw [hsource] at hresult
      exact Row.reports_of_evaluate rfl hsource hlength hresult htrace before after
    · have hpos := c.size_pos
      have := hle _ hflags
      omega
  · intro hu hrefused
    have hu' : release = .earlier → row.Unseparated := by
      rintro rfl
      exact hu.resolve_left (by decide)
    have hread : ∃ message, Job.read release arguments = .error (.ofUsage message) := by
      rcases h.read_settings hu' with ⟨n, expression, hn, -, hread⟩ | ⟨-, message, hread⟩
      · obtain ⟨text, hfault⟩ := ofValue_eq_error (fun c hc => hrefused c (hc ▸ hn))
          (Row.writable_of_flags hn)
        refine ⟨(Fault.badCapacity text).message, ?_⟩
        rw [Job.read_eq hread]
        simp only [Row.settings, hfault]
        rfl
      · refine ⟨message, ?_⟩
        rw [Job.read, hread]
        rfl
    obtain ⟨message, hread⟩ := hread
    refine ⟨message, hread, fun input before after => ?_⟩
    rw [run, hread]

/-- Verbose once, with 128 flags. -/
def wide : Row :=
  ⟨[.letters .verbose []], some ⟨⟨0, by decide +kernel⟩, false, "128"⟩, []⟩

/-- Quiet, with a number of flags that do not fill words. -/
def ragged : Row :=
  ⟨[], some ⟨⟨7, by decide +kernel⟩, true, "65"⟩, [.named .quiet ⟨0, by decide +kernel⟩]⟩

/-- A separator for the number of flags. -/
def parted : Row := ⟨[], some ⟨⟨7, by decide +kernel⟩, true, "--"⟩, []⟩

/-- A value with statistics behind it, a division by zero, and numbers of flags that are refused. -/
theorem run_wide_reports :
    wide.Gives "8 - 4 -2" ["-v", "--c", "128", "--", "8 - 4 -2"] "" ∧ wide.verbosity ≤ 1 ∧
      "8 - 4 -2".length < placeLimit ∧
      (∃ figures, run ["-v", "--c", "128", "--", "8 - 4 -2"] "" (.real 0) (.real 0) .later =
        ⟨"2\n" ++ ("Total time: " ++ figures), "", .exit 0⟩) ∧
      (∃ above, run ["-v", "--c", "128"] "1/0" (.real 0) (.real 0) .later =
        ⟨"", above ++ "ZeroDivisionError: division by zero" ++ "\n", .exit 1⟩) ∧
      (∃ message, ∀ input before after,
        run ["--capacity=65", "--q"] input before after .earlier = .ofUsage message) ∧
      ∃ message, ∀ input before after,
        run ["--capacity=--"] input before after .later = .ofUsage message := by
  have hwide : ["-v", "--c", "128"] = wide.words := by decide +kernel
  have hragged : ["--capacity=65", "--q"] = ragged.words := by decide +kernel
  have hparted : ["--capacity=--"] = parted.words := by decide +kernel
  have hoperand : wide.Gives "8 - 4 -2" (["-v", "--c", "128"] ++ ["--", "8 - 4 -2"]) "" :=
    hwide ▸ .operand (by decide +kernel)
  let capacity : Capacity := ⟨2, by decide, false⟩
  have hsize : (capacity.size : Int) = 128 := rfl
  have hflags : wide.flags = .ok (.int capacity.size) := by
    rw [hsize]
    rfl
  have hverbosity : wide.verbosity ≤ 1 := by decide
  have hlength : "8 - 4 -2".length < placeLimit := by decide +kernel
  refine ⟨hoperand, hverbosity, hlength, ?_, ?_, ?_, ?_⟩
  · have hvalue : (Calculator.evaluate "8 - 4 -2" none .empty).1 = .ok (.int 2) := by
      rw [Calculator.evaluate_of_serves Session.serves_empty]
      rfl
    have hwritten : (Value.int 2).written = .ok "2" := by
      rw [Value.written, integerText, if_pos (by decide +kernel)]
      rfl
    have hplain : (Value.int 2).plain = .ok "2" := by
      rw [← hwritten]
      rfl
    obtain ⟨-, rest, hrun, -, hverbose⟩ :=
      ((run_reports hoperand hverbosity hlength).1 capacity hflags rfl 0 0).value _ _ hvalue hplain
    obtain ⟨figures, rfl⟩ := hverbose (by decide)
    exact ⟨figures, hrun⟩
  · have hfault : (Calculator.evaluate "1/0" none .empty).1 =
        .error (.fault (.zeroDivision .quotient)) := by
      rw [Calculator.evaluate_of_serves Session.serves_empty]
      rfl
    rw [hwide]
    exact ((run_reports .input hverbosity (by decide +kernel)).1 capacity hflags rfl 0 0).fault _ _
      hfault rfl
  · have hunseparated : ragged.Unseparated := by
      intro asked hasked _
      cases hasked
      decide +kernel
    have hrefused : ∀ c : Capacity, ragged.flags ≠ .ok (.int c.size) := by
      intro c h
      have hsize : (65 : Int) = c.size := by
        have hread : ragged.flags = .ok (.int 65) := rfl
        rw [hread] at h
        exact Value.int.inj (Except.ok.inj h)
      have hdvd := c.wordSize_dvd_size
      unfold wordSize at hdvd
      omega
    have hinput : ragged.Gives "7" ragged.words "7" := .input
    obtain ⟨message, -, hrun⟩ :=
      (run_reports hinput (by decide) (by decide +kernel)).2 (.inr hunseparated) hrefused
    exact ⟨message, hragged ▸ hrun⟩
  · have hrefused : ∀ c : Capacity, parted.flags ≠ .ok (.int c.size) := by
      intro c h
      have hread : parted.flags.isOk = false := by decide +kernel
      rw [h] at hread
      cases hread
    have hinput : parted.Gives "7" parted.words "7" := .input
    obtain ⟨message, -, hrun⟩ :=
      (run_reports hinput (by decide) (by decide +kernel)).2 (.inl rfl) hrefused
    exact ⟨message, hparted ▸ hrun⟩

/-- The earlier release takes a separator that is attached for no values, and the row of these is
no number of flags: the command is not ended as one of wrong use, whatever it is to read. -/
theorem run_separator_stops (input : String) (before after : Number) :
    run ["--capacity=--"] input before after .earlier =
      ⟨"", "", .stopped (.fault (.mismatch (.binary "divmod()" .list .int)))⟩ := by
  have hword : "--capacity=--" = String.ofList
      ((abbreviated "capacity" (⟨7, by decide +kernel⟩ : Fin "capacity".length)).toList ++
        '=' :: "--".toList) := by decide +kernel
  have hclassify := hword ▸ classify_attached ⟨7, by decide +kernel⟩ "--"
  have hread : readOn .earlier .begin ["--capacity=--"] =
      .ok ⟨⟨false, 0, .list [], none⟩, false, []⟩ := by
    rw [readOn, classifyAll_cons (ne_separator hclassify), hclassify]
    exact consume_attached ..
  rw [run, Job.read_eq (read_of_ok hread)]
  rfl

end SeedGrowth.CommandLine
