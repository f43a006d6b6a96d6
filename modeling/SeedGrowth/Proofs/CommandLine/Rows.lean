import SeedGrowth.Proofs.CommandLine.Options
import SeedGrowth.Proofs.Decimal.Reading

/-!
# What command lines ask for

A command line is a row of options with a text, which stands behind a separator or comes from the
standard input. It is read as the settings that the row asks for, unless the capacity is refused
before: a text that is no whole number, or a word that is no operand. The latter begin with a
hyphen, and no number of flags does.
-/
namespace SeedGrowth.CommandLine

variable {release : Release}

/-- The number of flags that a row asks for. -/
def Row.flags (row : Row) : Literal :=
  (row.capacity.map fun asked => integerOfText asked.text).getD (.ok (.int 64))

/-- No separator is attached to the name of the capacity. -/
def Row.Unseparated (row : Row) : Prop :=
  ∀ asked ∈ row.capacity, asked.attached = true → asked.text ≠ "--"

/-- The command line consists of the row and a text, which stands behind a separator or else is
what comes from the standard input. -/
inductive Row.Gives (row : Row) (text : String) : List String → String → Prop where
  | operand {input : String} (h : text ≠ "-") :
    Row.Gives row text (row.words ++ ["--", text]) input
  | input : Row.Gives row text row.words text

/-! ### Capacities -/

/-- A text that is read as a number which is positive does not begin with a hyphen. -/
theorem le_zero_of_hyphen {text : String} (h : "-".isPrefixOf text = true) {n : Int}
    (hread : integerOfText text = .ok (.int n)) : n ≤ 0 := by
  obtain ⟨rest, htext⟩ := (startsHyphen_iff text).1 h
  obtain ⟨n', hn, hread⟩ := integerOfText_eq_ok hread
  cases hn
  rw [← htext] at hread
  exact Decimal.readInteger_hyphen hread

/-- The reading is refused, for a wrong use and not for help. -/
def Refused (result : Except Ending Progress) : Prop := ∃ message, result = .error (.usage message)

/-- A text sets the capacity if it is read as a whole number, and is refused otherwise, except for
the separator in the earlier release. -/
theorem setValued_capacity (progress : Progress) {text : String}
    (h : release = .earlier → text ≠ "--") :
    (∃ n, integerOfText text = .ok (.int n) ∧
      progress.setValued release .capacity text = .ok (progress.withCapacity (.int n))) ∨
    (∀ n, integerOfText text ≠ .ok (.int n)) ∧
      Refused (progress.setValued release .capacity text) := by
  rw [Progress.setValued, if_neg (not_and.2 h)]
  cases hread : integerOfText text with
  | ok v =>
    obtain ⟨n, rfl, -⟩ := integerOfText_eq_ok hread
    exact .inl ⟨n, rfl, rfl⟩
  | error fault => exact .inr ⟨fun n => nofun, _, rfl⟩

section

variable (release : Release) (progress : Progress) (short joined : Bool) (text : String)
  (words : List Word)

theorem consume_attached :
    consume release (.option ⟨.capacity, short, some text, joined⟩ :: words) progress =
      progress.setValued release .capacity text >>= consume release words := by
  rw [consume]
  rfl

theorem consume_operand :
    consume release (.option ⟨.capacity, short, none, joined⟩ :: .operand text :: words) progress =
      progress.setValued release .capacity text >>= consume release words := by
  rw [consume]
  rfl

/-- A capacity that no operand follows is refused. -/
theorem refused_consume {word : Word} (h : ∀ text, word ≠ .operand text) :
    Refused
      (consume release (.option ⟨.capacity, short, none, joined⟩ :: word :: words) progress) := by
  cases word with
  | operand text => exact absurd rfl (h text)
  | _ =>
    rw [consume]
    exact ⟨_, rfl⟩

end

/-- What comes of a line where a text is the capacity: it is read on with that number, or refused,
and then the text is no positive number. -/
inductive Decides (release : Release) (progress : Progress) (text : String) (rest : List String)
    (result : Except Ending Progress) : Prop where
  | sets (n : Int) (hread : integerOfText text = .ok (.int n))
      (hresult : result = readOn release (progress.withCapacity (.int n)) rest)
  | refuses (hread : ∀ n, integerOfText text = .ok (.int n) → n ≤ 0) (hrefused : Refused result)

section

variable {progress : Progress} {text : String} {rest : List String} {words : List Word}
  {result : Except Ending Progress}

/-- Once a text has been told to be the value, that value decides. -/
theorem decides_of_setValued (hrest : classifyAll rest = .ok words)
    (h : release = .earlier → text ≠ "--")
    (hresult : result = progress.setValued release .capacity text >>= consume release words) :
    Decides release progress text rest result := by
  subst hresult
  rcases setValued_capacity progress h with ⟨n, hread, hset⟩ | ⟨hread, message, hset⟩
  · refine .sets n hread ?_
    rw [hset, readOn, hrest]
    rfl
  · refine .refuses (fun n hn => absurd hn (hread n)) ⟨message, ?_⟩
    rw [hset]
    rfl

theorem decides_of_attached (hrest : classifyAll rest = .ok words)
    (h : release = .earlier → text ≠ "--") (kept : Fin "capacity".length) :
    Decides release progress text rest (readOn release progress
      (String.ofList ((abbreviated "capacity" kept).toList ++ '=' :: text.toList) :: rest)) := by
  let word := String.ofList ((abbreviated "capacity" kept).toList ++ '=' :: text.toList)
  have hclassify : classify word = .ok (.option ⟨.capacity, false, some text, true⟩) :=
    classify_attached kept text
  refine decides_of_setValued hrest h ?_
  rw [readOn, classifyAll_cons (ne_separator hclassify), hclassify, hrest]
  exact consume_attached ..

/-- A word of its own is the value if it is an operand, as those that do not begin with a hyphen
are. -/
theorem decides_of_apart (hrest : classifyAll rest = .ok words) (kept : Fin "capacity".length) :
    Decides release progress text rest
      (readOn release progress (abbreviated "capacity" kept :: text :: rest)) := by
  have hclassify := classify_capacity kept
  have hread : readOn release progress (abbreviated "capacity" kept :: text :: rest) =
      classifyAll (text :: rest) >>= fun words =>
        consume release (.option ⟨.capacity, false, none, false⟩ :: words) progress := by
    rw [readOn, classifyAll_cons (ne_separator hclassify), hclassify]
    cases classifyAll (text :: rest) <;> rfl
  have hhyphen : "-".isPrefixOf text = true → ∀ n, integerOfText text = .ok (.int n) → n ≤ 0 :=
    fun hstarts n => le_zero_of_hyphen hstarts
  by_cases hseparator : text = "--"
  · subst hseparator
    rw [hread]
    exact .refuses (hhyphen (by decide +kernel)) (refused_consume _ _ _ _ _ (by simp))
  · rw [classifyAll_cons hseparator, hrest] at hread
    by_cases hstarts : "-".isPrefixOf text = true
    · rcases classify_cases text with hword | ⟨found, hword⟩ | hword | ⟨message, hword⟩ <;>
        rw [hword] at hread
      · exact decides_of_setValued hrest (fun _ => hseparator) (hread.trans (consume_operand ..))
      · exact .refuses (hhyphen hstarts) (hread ▸ refused_consume _ _ _ _ _ (by simp))
      · exact .refuses (hhyphen hstarts) (hread ▸ refused_consume _ _ _ _ _ (by simp))
      · exact .refuses (hhyphen hstarts) ⟨message, hread⟩
    · have hword : classify text = .ok (.operand text) := by
        rw [classify, if_pos (by simpa using hstarts)]
      rw [hword] at hread
      exact decides_of_setValued hrest (fun _ => hseparator) (hread.trans (consume_operand ..))

/-- A capacity is carried out where it stands, or refused. -/
theorem readOn_capacity (progress : Progress) {asked : AskedCapacity}
    (h : release = .earlier → asked.attached = true → asked.text ≠ "--")
    (hrest : classifyAll rest = .ok words) :
    Decides release progress asked.text rest (readOn release progress (asked.words ++ rest)) := by
  obtain ⟨kept, attached, text⟩ := asked
  cases attached with
  | true => exact decides_of_attached hrest (fun hearlier => h hearlier rfl) kept
  | false => exact decides_of_apart hrest kept

end

/-! ### Whole command lines -/

/-- A text behind the row, if any, is the operand. -/
theorem Row.Gives.exists_rest {row : Row} {text input : String} {arguments : List String}
    (h : row.Gives text arguments input) : ∃ rest expression,
      arguments = row.words ++ rest ∧ (expression.filter (· ≠ "-")).getD input = text ∧
      (∃ words, classifyAll rest = .ok words) ∧
      ∀ settings : Settings, settings.expression = none → ∃ filled,
        readOn release ⟨settings, false, []⟩ rest =
          .ok ⟨{ settings with expression }, filled, []⟩ := by
  cases h with
  | operand h =>
    refine ⟨["--", text], some text, rfl, by simp [Option.filter, h], ⟨_, rfl⟩,
      fun settings _ => ⟨true, rfl⟩⟩
  | input =>
    refine ⟨[], none, by simp, rfl, ⟨_, rfl⟩, fun settings hnone => ⟨false, ?_⟩⟩
    obtain ⟨quiet, verbose, capacity, expression⟩ := settings
    cases hnone
    rfl

/-- The settings that a row asks for. -/
def Row.settings (row : Row) (capacity : Value) (expression : Option String) : Settings :=
  ⟨row.quiet, row.verbosity, capacity, expression⟩

theorem read_of_ok {arguments : List String} {settings : Settings} {filled : Bool}
    (h : readOn release .begin arguments = .ok ⟨settings, filled, []⟩) :
    Settings.read release arguments = .ok settings := by
  obtain ⟨words, hwords, hconsume⟩ := bind_eq_ok.1 h
  rw [Settings.read, hwords, ok_bind, hconsume]
  rfl

theorem read_of_refused {arguments : List String} (h : Refused (readOn release .begin arguments)) :
    ∃ message, Settings.read release arguments = .error (.usage message) := by
  obtain ⟨message, h⟩ := h
  refine ⟨message, ?_⟩
  rcases bind_eq_error h with hwords | ⟨words, hwords, hconsume⟩
  · rw [Settings.read, hwords]
    rfl
  · rw [Settings.read, hwords, ok_bind, hconsume]
    rfl

/-- A command line is read as what the row asks for, unless its capacity is refused. -/
theorem Row.Gives.read_settings {row : Row} {text input : String} {arguments : List String}
    (h : row.Gives text arguments input) (hu : release = .earlier → row.Unseparated) :
    (∃ n expression, row.flags = .ok (.int n) ∧
      (expression.filter (· ≠ "-")).getD input = text ∧
      Settings.read release arguments = .ok (row.settings (.int n) expression)) ∨
    (∀ n, row.flags = .ok (.int n) → n ≤ 0) ∧
      ∃ message, Settings.read release arguments = .error (.usage message) := by
  obtain ⟨rest, expression, rfl, hsource, ⟨words, hrest⟩, hread⟩ := h.exists_rest
  obtain ⟨words', hbehind⟩ := exists_classifyAll_asked row.behind hrest
  let ahead := row.ahead.flatMap Asked.toggles
  let behind := row.behind.flatMap Asked.toggles
  have htoggles : ahead ++ behind = row.toggles := List.flatMap_append.symm
  have hbegin : readOn release .begin (row.words ++ rest) =
    readOn release (Progress.begin.asked ahead)
      ((row.capacity.map AskedCapacity.words).getD [] ++ (row.behind.map Asked.word ++ rest)) := by
    rw [Row.words, List.append_assoc, List.append_assoc, readOn_map_asked]
  -- What stands behind the capacity is read whatever that is.
  have hlast : ∀ n : Int, ∃ filled,
      readOn release ((Progress.begin.asked ahead).withCapacity (.int n))
        (row.behind.map Asked.word ++ rest) =
        .ok ⟨row.settings (.int n) expression, filled, []⟩ := by
    intro n
    have hsettings : ((Progress.begin.asked ahead).withCapacity (.int n)).asked behind =
        ⟨row.settings (.int n) none, false, []⟩ := by
      simp [Row.settings, Row.quiet, Row.verbosity, ← htoggles, Progress.asked,
        Progress.withCapacity, Progress.begin]
    rw [readOn_map_asked, hsettings]
    exact hread _ rfl
  cases hcapacity : row.capacity with
  | none =>
    rw [hcapacity, Option.map_none, Option.getD_none, List.nil_append] at hbegin
    obtain ⟨filled, hlast⟩ := hlast 64
    refine .inl ⟨64, expression, ?_, hsource, read_of_ok (hbegin.trans hlast)⟩
    rw [Row.flags, hcapacity]
    rfl
  | some asked =>
    have hflags : row.flags = integerOfText asked.text := by
      rw [Row.flags, hcapacity]
      rfl
    rw [hcapacity, Option.map_some, Option.getD_some] at hbegin
    rw [hflags]
    rcases readOn_capacity (Progress.begin.asked ahead)
        (fun hearlier => hu hearlier asked hcapacity) hbehind with
      ⟨n, hn, hvalue⟩ | ⟨hn, hrefused⟩
    · obtain ⟨filled, hlast⟩ := hlast n
      exact .inl ⟨n, expression, hn, hsource, read_of_ok (hbegin.trans (hvalue.trans hlast))⟩
    · exact .inr ⟨hn, read_of_refused (hbegin ▸ hrefused)⟩

end SeedGrowth.CommandLine
