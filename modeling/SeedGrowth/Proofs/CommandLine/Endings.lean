import SeedGrowth.Proofs.Calculator.Faults
import SeedGrowth.Proofs.CommandLine.Words

/-!
# How the command ends

The command ends with help, as one of wrong use, with the value of its expression or with a report
of why there is none. Where it does not, that is for a whole number of too many digits, which is
written in the expression, or is the value or on the way to it when that is to be printed or traced;
for the separator, when it is attached to the name of the capacity and the release of the reader is
the earlier one; or for want of memory.
-/
namespace SeedGrowth.CommandLine

variable {release : Release}

open Calculator (HasDigits Stops)

namespace Job

variable {job : Job} {input : String} {fault : Fault} {outcome : Outcome}

/-! ### Evaluations -/

/-- The session that the job would have if it were not traced. -/
def silent (job : Job) : Session :=
  (Session.empty.addRegistry { job.registry with verbose := false }).2

/-- A trace of the evaluation would quote the value. -/
def Quotes (job : Job) (input : String) (x : Value) : Prop :=
  ∃ v, Calculator.grammar.Begins Calculator.start ⟨job.source input, some 0, true, unnamedFile⟩
    job.silent v ∧ v.Says Calculator.grammar x

/-- The registry has no names, and a number of flags that was given as a whole number. -/
structure Fresh (job : Job) : Prop where
  names : job.registry.names = []
  whole : job.registry.capacity.real = false

/-- There is room for the names of all rules. -/
theorem Fresh.hasRoom (h : job.Fresh) : Calculator.grammar.HasRoom job.registry := by
  refine Grammar.hasRoom_of_le ?_
  have hword : wordSize ≤ job.registry.capacity.size :=
    Nat.le_of_dvd job.registry.capacity.size_pos job.registry.capacity.wordSize_dvd_size
  rw [Registry.size, h.names]
  exact Nat.le_trans (by decide : 3 ≤ wordSize) hword

theorem silent_louder (job : Job) :
    Session.Louder { job.silent with current := some 0 }
      { (Session.empty.addRegistry job.registry).2 with current := some 0 } := by
  refine ⟨rfl, fun id => ?_, rfl, rfl, rfl⟩
  change ((Session.empty.addRegistry { job.registry with verbose := false }).2.registry id).Louder
    ((Session.empty.addRegistry job.registry).2.registry id)
  rw [Session.registry_addRegistry, Session.registry_addRegistry]
  split
  · exact ⟨rfl, rfl, rfl, nofun⟩
  · exact .refl _

/-- The evaluation comes to what it does in a new session, unless a trace of it is to quote a
value that cannot be written. -/
theorem Fresh.evaluate_cases (h : job.Fresh) (hflags : job.registry.capacity.Allocated)
    (input : String) :
    (job.evaluate input).1 = (Calculator.evaluate (job.source input) none .empty).1 ∨
      (job.evaluate input).1 = .error (.fault .unwritableInteger) ∧ job.registry.verbose = true ∧
        ∃ x, job.Quotes input x ∧ x.writable = false := by
  cases hverbose : job.registry.verbose with
  | false => exact .inl (job.evaluate_eq hverbose h.hasRoom hflags input).1
  | true =>
    -- A job that is not traced is evaluated as in a new session, and the traced one echoes that.
    let twin : Job := { job with registry := { job.registry with verbose := false } }
    obtain ⟨hresult, -⟩ := twin.evaluate_eq rfl h.hasRoom hflags input
    let request : Request := ⟨job.source input, some 0, true, unnamedFile⟩
    let loud := (Session.empty.addRegistry job.registry).2
    let s := Cursor.start request.source.toList (.bare (.none job.registry.capacity .null))
    have hclear : Cursor.clear request.source.toList job.registry.capacity = .ok s :=
      Cursor.clear_of_allocated hflags _
    have hor : ∀ session : Session, Eval.registryOr request.registry session = (.ok 0, session) :=
      fun _ => rfl
    have hsilent := Calculator.grammar.parse_of_clear Calculator.start (hor job.silent) hclear
    have hloud := Calculator.grammar.parse_of_clear Calculator.start (hor loud) hclear
    have hbegins : Calculator.grammar.Begins Calculator.start request job.silent
        ⟨Calculator.grammar.nestingBound s.remaining, Calculator.start, s,
          { job.silent with current := some 0 }⟩ := ⟨0, job.silent, s, rfl, hclear, rfl⟩
    have hechoed := Grammar.begins_echoed Calculator.ofCombinators rfl hbegins job.silent_louder
    change EndsEchoed _ _ _
      (Calculator.grammar.apply Calculator.start s { job.silent with current := some 0 })
      (Calculator.grammar.apply Calculator.start s { loud with current := some 0 }) at hechoed
    change (Calculator.grammar.parse Calculator.start request job.silent).1 = _ at hresult
    change (Calculator.grammar.parse Calculator.start request loud).1 = _ ∨
      (Calculator.grammar.parse Calculator.start request loud).1 = _ ∧ _
    rw [hsilent] at hresult
    rw [hloud]
    generalize Calculator.grammar.apply Calculator.start s
      { job.silent with current := some 0 } = evaluated at hechoed hresult
    generalize Calculator.grammar.apply Calculator.start s
      { loud with current := some 0 } = evaluated' at hechoed
    cases hechoed with
    | answered _ heq => exact .inl (heq ▸ hresult)
    | stopped => exact .inl hresult
    | silenced hsaid hwritable => exact .inr ⟨rfl, rfl, _, ⟨_, hbegins, hsaid⟩, hwritable⟩

/-! ### Endings of jobs -/

/-- The faults of a job that the command does not deal with. -/
inductive Escapes (job : Job) (input : String) : Fault → Prop where
  /-- There are more flags than there is memory for. -/
  | memory : Flags.allocate job.registry.capacity Carried.null = .error .outOfMemory →
      Escapes job input .outOfMemory
  /-- A whole number in the source has too many digits to be read. -/
  | numeral {n} : HasDigits (job.source input).toList n → Decimal.digitLimit < n →
      Escapes job input (.integerTooLong n)
  /-- The value to be printed has too many digits to be written. -/
  | value {v} : job.settings.quiet = false → (job.evaluate input).1 = .ok v →
      v.writable = false → Escapes job input .unwritableInteger
  /-- A value to be traced has too many digits to be written. -/
  | trace {x} : job.registry.verbose = true → job.Quotes input x → x.writable = false →
      Escapes job input .unwritableInteger

/-- The command tells what the job comes to: its value, unless it is to be quiet, with statistics
after it if it is to be verbose; or else a report of the fault. -/
inductive Concludes (job : Job) (input : String) : Outcome → Prop where
  | answered {v text rest} : (job.evaluate input).1 = .ok v → job.valueText v = .ok text →
      (job.settings.verbose = 0 → rest = "") →
      (job.settings.verbose ≠ 0 → ∃ figures, rest = "Total time: " ++ figures) →
      Concludes job input ⟨traceText (job.evaluate input).2 ++ text ++ rest, "", .exit 0⟩
  | reported {fault report} : (job.evaluate input).1 = .error (.fault fault) →
      faultReport? fault job.file = some report →
      Concludes job input ⟨traceText (job.evaluate input).2, report, .exit 1⟩

/-- Arithmetic that has no answer is reported, and numerals are escaped from. -/
theorem report_or_escapes_of_stops (h : Stops (job.source input).toList fault) :
    (∃ report, faultReport? fault job.file = some report) ∨ job.Escapes input fault := by
  cases h with
  | zeroDivision | tooLargeForReal | quotientTooLarge => exact .inl ⟨_, rfl⟩
  | tooLong hdigits hlong => exact .inr (.numeral hdigits hlong)

/-- Whatever keeps a source from a value is reported, unless it is a numeral. -/
theorem report_or_escapes_of_calculate (hlength : (job.source input).length < placeLimit)
    (h : Calculator.Meaning.values.calculate (job.source input) = .error fault) :
    (∃ report, faultReport? fault job.file = some report) ∨ job.Escapes input fault := by
  rcases Calculator.calculate_stops h with ⟨line, column, hline, rfl⟩ | hstops
  · obtain ⟨text, htext⟩ := Fault.unmatchedAt_eq hline hlength column unnamedFile
    rw [htext]
    exact .inl ⟨_, rfl⟩
  · exact report_or_escapes_of_stops hstops

/-- Without flags nothing is evaluated. -/
theorem evaluate_of_allocate_error
    (h : Flags.allocate job.registry.capacity Carried.null = .error fault) (input : String) :
    (job.evaluate input).1 = .error (.fault fault) := by
  let request : Request := ⟨job.source input, some 0, true, unnamedFile⟩
  let session := (Session.empty.addRegistry job.registry).2
  have hor : Eval.registryOr request.registry session = (.ok 0, session) := rfl
  have hclear : Cursor.clear request.source.toList job.registry.capacity = .error fault := by
    rw [Cursor.clear, h]
    rfl
  exact congrArg Prod.fst (Calculator.grammar.parse_of_clear_error Calculator.start hor hclear)

theorem Fresh.allocate_cases (h : job.Fresh) : job.registry.capacity.Allocated ∨
    Flags.allocate job.registry.capacity Carried.null = .error .countTooLarge ∨
    Flags.allocate job.registry.capacity Carried.null = .error .outOfMemory := by
  unfold Capacity.Allocated Flags.allocate
  rw [h.whole, if_neg Bool.false_ne_true]
  split
  · exact .inr (.inl rfl)
  · split
    · exact .inr (.inr rfl)
    · exact .inl rfl

/-- An evaluation has a value, or a fault which is reported or escapes. -/
theorem Fresh.evaluate_ends (h : job.Fresh) (hlength : (job.source input).length < placeLimit) :
    (∃ v, (job.evaluate input).1 = .ok v) ∨
      ∃ fault, (job.evaluate input).1 = .error (.fault fault) ∧
        ((∃ report, faultReport? fault job.file = some report) ∨ job.Escapes input fault) := by
  rcases h.allocate_cases with hflags | hcount | hmemory
  · rcases h.evaluate_cases hflags input with hresult | ⟨hresult, hverbose, x, hquotes, hwritable⟩
    · rw [Calculator.evaluate_of_serves Session.serves_empty] at hresult
      rw [hresult]
      cases hvalue : Calculator.Meaning.values.calculate (job.source input) with
      | ok v => exact .inl ⟨v, rfl⟩
      | error fault => exact .inr ⟨fault, rfl, report_or_escapes_of_calculate hlength hvalue⟩
    · exact .inr ⟨_, hresult, .inr (.trace hverbose hquotes hwritable)⟩
  · exact .inr ⟨_, evaluate_of_allocate_error hcount input, .inl ⟨_, rfl⟩⟩
  · exact .inr ⟨_, evaluate_of_allocate_error hmemory input, .inr (.memory hmemory)⟩

/-- Printing stops at values that cannot be written, if it is asked for. -/
theorem valueText_error {v : Value} (h : job.valueText v = .error fault) :
    job.settings.quiet = false ∧ fault = .unwritableInteger ∧ v.writable = false := by
  unfold valueText at h
  split at h
  · cases h
  · next hquiet =>
    have hplain : v.plain = .error fault := by
      cases hplain : v.plain with
      | ok text =>
        rw [hplain] at h
        cases h
      | error fault' =>
        rw [hplain] at h
        cases h
        rfl
    refine ⟨by simpa using hquiet, Value.plain_error hplain, ?_⟩
    cases hwritable : v.writable with
    | false => rfl
    | true =>
      obtain ⟨text, htext⟩ := Value.exists_plain hwritable
      rw [hplain] at htext
      cases htext

/-- The command ends as the job does, unless a fault escapes it. -/
theorem Fresh.concludes (h : job.Fresh) (hlength : (job.source input).length < placeLimit)
    (before after : Float) :
    job.Concludes input (job.outcome input (.real before) (.real after) (job.evaluate input)) ∨
      ∃ fault, (job.outcome input (.real before) (.real after) (job.evaluate input)).status =
        .stopped (.fault fault) ∧ job.Escapes input fault := by
  have hpair : job.evaluate input = ((job.evaluate input).1, (job.evaluate input).2) := rfl
  rcases h.evaluate_ends hlength with ⟨v, hv⟩ | ⟨fault, hfault, hends⟩
  · rw [hv] at hpair
    obtain ⟨rest, hrest, hnone, hsome⟩ :=
      job.exists_epilogue hlength (job.evaluate input).2 before after
    cases htext : job.valueText v with
    | ok text =>
      have houtcome : job.outcome input (.real before) (.real after) (job.evaluate input) =
          ⟨traceText (job.evaluate input).2 ++ text ++ rest, "", .exit 0⟩ := by
        rw [hpair]
        simp only [outcome, htext, hrest]
      exact .inl (houtcome ▸ .answered hv htext hnone hsome)
    | error fault =>
      obtain ⟨hquiet, rfl, hwritable⟩ := valueText_error htext
      refine .inr ⟨.unwritableInteger, ?_, .value hquiet hv hwritable⟩
      rw [hpair]
      simp only [outcome, htext]
  · rw [hfault] at hpair
    cases hreport : faultReport? fault job.file with
    | some report =>
      have houtcome : job.outcome input (.real before) (.real after) (job.evaluate input) =
          ⟨traceText (job.evaluate input).2, report, .exit 1⟩ := by
        rw [hpair]
        simp only [outcome, hreport]
      exact .inl (houtcome ▸ .reported hfault hreport)
    | none =>
      refine .inr ⟨fault, ?_, hends.resolve_left ?_⟩
      · rw [hpair]
        simp only [outcome, hreport]
      · rintro ⟨report, hsome⟩
        rw [hreport] at hsome
        cases hsome

end Job

/-! ### Endings of the command -/

/-- The faults that the command does not deal with. -/
inductive Escapes (release : Release) (arguments : List String) (input : String) :
    Fault → Prop where
  /-- In the earlier release the separator is attached where the number of flags should be. -/
  | separator : release = .earlier → SeparatorAttached arguments →
      Escapes release arguments input (.mismatch (.binary "divmod()" .list .int))
  | job {job fault} : Job.read release arguments = .ok job → job.Escapes input fault →
      Escapes release arguments input fault

/-- The command gives help that was asked for, tells of a wrong use, or what the job comes to. -/
inductive Concludes (release : Release) (arguments : List String) (input : String) :
    Outcome → Prop where
  | helped : Settings.read release arguments = .error .help →
      Concludes release arguments input ⟨helpText, "", .exit 0⟩
  | misused {message} : Job.read release arguments = .error (.ofUsage message) →
      Concludes release arguments input (.ofUsage message)
  | carriedOut {job outcome} : Job.read release arguments = .ok job →
      job.Concludes input outcome → Concludes release arguments input outcome

/-- Help and values have status 0, reports have status 1, and a wrong use has status 2. -/
theorem Concludes.status {arguments : List String} {input : String} {outcome : Outcome}
    (h : Concludes release arguments input outcome) : ∃ code ≤ 2, outcome.status = .exit code := by
  cases h with
  | helped => exact ⟨0, by decide, rfl⟩
  | misused => exact ⟨2, by decide, rfl⟩
  | carriedOut _ hjob =>
    cases hjob with
    | answered => exact ⟨0, by decide, rfl⟩
    | reported => exact ⟨1, by decide, rfl⟩

/-- A job that is read is a fresh one, with a source that was given. -/
theorem exists_job_of_read {arguments : List String} {settings : Settings}
    (h : Settings.read release arguments = .ok settings) {n : Int} (hn : settings.capacity = .int n)
    (hwritable : (Value.int n).writable = true) :
    (∃ message, Job.read release arguments = .error (.ofUsage message)) ∨
      ∃ job, Job.read release arguments = .ok job ∧ job.Fresh ∧ job.settings = settings := by
  rw [Job.read_eq h, hn]
  by_cases hcapacity : ∃ c : Capacity, n = c.size
  · obtain ⟨c, hc⟩ := hcapacity
    let whole : Capacity := ⟨c.words, c.words_pos, false⟩
    have hvalue : Capacity.ofValue (.int n) = .ok whole :=
      Capacity.ofValue_int_eq_ok_iff.2 ⟨hc, rfl⟩
    rw [hvalue]
    exact .inr ⟨_, rfl, ⟨rfl, rfl⟩, rfl⟩
  · obtain ⟨text, htext⟩ := ofValue_eq_error (fun c hc => hcapacity ⟨c, hc⟩) hwritable
    rw [htext]
    exact .inl ⟨_, rfl⟩

theorem source_mem {arguments : List String} {job : Job}
    (h : job.settings.Offered release arguments) (input : String) :
    job.source input ∈ input :: arguments := by
  rw [Job.source, Job.operand?]
  cases hoperand : job.settings.expression.filter (· ≠ "-") with
  | none => exact List.mem_cons_self
  | some text =>
    obtain ⟨hsome, -⟩ := Option.filter_eq_some_iff.1 hoperand
    exact List.mem_cons_of_mem _ (h.expression text hsome)

/-- Whatever the arguments and the standard input are, the command ends with status 0, 1 or 2,
having told help, what was wrong with its use, the value of the expression or why there is none; or
it stops at a fault for one of the reasons that there are: there are more flags than there is memory
for, or a whole number has too many digits, be it written in the source, printed or traced; or, in
the earlier release of the reader, the separator is attached where the number of flags should be. -/
theorem run_concludes {arguments : List String} {input : String}
    (hlength : ∀ text ∈ input :: arguments, text.length < placeLimit) (before after : Float)
    (release : Release) :
    (Concludes release arguments input
          (run arguments input (.real before) (.real after) release) ∧
        ∃ code ≤ 2,
          (run arguments input (.real before) (.real after) release).status = .exit code) ∨
      ∃ fault, (run arguments input (.real before) (.real after) release).status =
        .stopped (.fault fault) ∧ Escapes release arguments input fault := by
  refine Or.imp_left (fun h => ⟨h, h.status⟩) ?_
  cases hread : Settings.read release arguments with
  | error ending =>
    cases ending with
    | help =>
      rw [run, Job.read, hread]
      exact .inl (.helped hread)
    | usage message =>
      have hjob : Job.read release arguments = .error (.ofUsage message) := by
        rw [Job.read, hread]
        rfl
      rw [run, hjob]
      exact .inl (.misused hjob)
  | ok settings =>
    have hoffered := offered_of_read hread
    rcases hoffered.capacity with ⟨n, hn, hwritable⟩ | ⟨hrelease, hlist, hseparator⟩
    · rcases exists_job_of_read hread hn hwritable with
        ⟨message, hjob⟩ | ⟨job, hjob, hfresh, hsettings⟩
      · rw [run, hjob]
        exact .inl (.misused hjob)
      · rw [run, hjob]
        have hsource : job.source input ∈ input :: arguments :=
          source_mem (hsettings ▸ hoffered) input
        refine (hfresh.concludes (hlength _ hsource) before after).imp (.carriedOut hjob) ?_
        rintro ⟨fault, hstatus, hescapes⟩
        exact ⟨fault, hstatus, .job hjob hescapes⟩
    · -- A row of values is no number of flags, nor a wrong one.
      rw [run, Job.read_eq hread, hlist]
      exact .inr ⟨_, rfl, .separator hrelease hseparator⟩

/-- A division by zero is reported: no whole number in it is long. -/
theorem run_concludes_division :
    (∀ text ∈ ["", "1/0"], text.length < placeLimit) ∧
      (Calculator.evaluate "1/0" none .empty).1 = .error (.fault (.zeroDivision .quotient)) ∧
      ∀ release, ∃ code ≤ 2, (run ["1/0"] "" (.real 0) (.real 0) release).status = .exit code := by
  have hlength : ∀ text ∈ ["", "1/0"], text.length < placeLimit := by decide +kernel
  have hfault : (Calculator.evaluate "1/0" none .empty).1 =
      .error (.fault (.zeroDivision .quotient)) := by
    rw [Calculator.evaluate_of_serves Session.serves_empty]
    rfl
  refine ⟨hlength, hfault, fun release => ?_⟩
  rcases run_concludes hlength 0 0 release with ⟨-, hstatus⟩ | ⟨fault, -, hescapes⟩
  · exact hstatus
  · exfalso
    cases hescapes with
    | separator _ h =>
      obtain ⟨kept, hkept⟩ := h
      revert kept
      decide +kernel
    | job hjob hescapes =>
      have hfree : '-' ∉ "1/0".toList := by decide +kernel
      obtain ⟨hread, hsource⟩ := read_unhyphenated hfree
      rw [Job.read_plain hread] at hjob
      cases hjob
      cases hescapes with
      | memory hmemory => cases hmemory
      | numeral hdigits hlong =>
        obtain ⟨first, digits, last, htext, -, rfl⟩ := hdigits
        have hshort : first.length + (digits.length + last.length) = 3 := by
          rw [← List.length_append, ← List.length_append, ← htext]
          rfl
        have hlimit : Decimal.digitLimit = 4300 := rfl
        omega
      | value _ hv _ =>
        rw [(Job.evaluate_plain (hsource "")).1, hfault] at hv
        cases hv
      | trace hverbose => cases hverbose

/-- A whole number that has too many digits to be read stops the command. -/
theorem run_numeral_stops (digits : List Char) (h : ∀ c ∈ digits, Text.isAsciiDigit c = true)
    (hlong : Decimal.digitLimit < digits.length) (input : String) (before after : Number)
    (release : Release) : run [String.ofList digits] input before after release =
      ⟨"", "", .stopped (.fault (.integerTooLong digits.length))⟩ := by
  have hhyphen : '-' ∉ (String.ofList digits).toList := by
    rw [String.toList_ofList]
    exact fun hmem => absurd (h '-' hmem) (by decide)
  obtain ⟨hread, hsource⟩ := read_unhyphenated hhyphen
  obtain ⟨hresult, htrace⟩ := Job.evaluate_plain (hsource input)
  let numeral : Calculator.Numeral := ⟨digits, none, List.ne_nil_of_length_pos (by omega), h, nofun⟩
  have hderives : (Calculator.Tree.term (.factor (.number numeral))).Derives
      (String.ofList digits) := by
    refine ⟨[] ++ numeral.text, [], .term (.factor (.number nofun)), nofun, ?_⟩
    simp [Calculator.Numeral.text, numeral]
  have hvalue : Calculator.Meaning.values.calculate (String.ofList digits) =
      .error (.integerTooLong digits.length) := by
    rw [hderives.calculate_eq]
    rcases numeral.number_cases with ⟨hshort, -⟩ | ⟨-, -, hnumber⟩
    · exact absurd (hshort rfl) (Nat.not_le.2 hlong)
    · exact hnumber
  rw [Calculator.evaluate_of_serves Session.serves_empty, hvalue] at hresult
  rw [run, Job.read_plain hread]
  dsimp only
  generalize (Job.plain (some (String.ofList digits))).evaluate input = evaluation at *
  obtain ⟨result, session⟩ := evaluation
  cases hresult
  simp only [Job.outcome, htrace]
  rfl

/-- A number of nines that has one digit too many. -/
theorem run_nines_stops :
    run [String.ofList (List.replicate 4301 '9')] "" (.real 0) (.real 0) .earlier =
        ⟨"", "", .stopped (.fault (.integerTooLong 4301))⟩ ∧
      run [String.ofList (List.replicate 4301 '9')] "" (.real 0) (.real 0) .later =
        ⟨"", "", .stopped (.fault (.integerTooLong 4301))⟩ := by
  have hdigits : ∀ c ∈ List.replicate 4301 '9', Text.isAsciiDigit c = true := by
    intro c hc
    rw [List.eq_of_mem_replicate hc]
    decide
  have hlength : (List.replicate 4301 '9').length = 4301 := List.length_replicate
  have hlong : Decimal.digitLimit < (List.replicate 4301 '9').length := by
    rw [hlength]
    decide
  have hstops := run_numeral_stops _ hdigits hlong "" (.real 0) (.real 0)
  rw [hlength] at hstops
  exact ⟨hstops .earlier, hstops .later⟩

end SeedGrowth.CommandLine
