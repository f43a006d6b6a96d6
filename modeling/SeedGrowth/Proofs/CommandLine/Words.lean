import SeedGrowth.Proofs.CommandLine.Outcome

/-!
# Expressions as words

An expression that stands alone on the command line is an operand if it does not begin like an
option. No expression is an option, or short for one, as these are written in letters. One that
begins with a hyphen is an operand nevertheless if it has a space in it or is a number below zero,
and any other is refused. On the standard input, and behind a separator, every expression is read.
-/
namespace SeedGrowth

namespace Calculator

/-! ### The characters of expressions -/

/-- The characters that expressions are written in. -/
def isWritten (c : Char) : Bool :=
  Text.isBlank c || Text.isAsciiDigit c || ['.', '+', '-', '*', '/', '%', '(', ')'].contains c

theorem all_written_of_blank {gap : List Char} (h : Text.Blank gap) : gap.all isWritten = true := by
  refine List.all_eq_true.2 fun c hc => ?_
  rw [isWritten, h c hc]
  rfl

theorem all_written_of_digits {digits : List Char}
    (h : ∀ c ∈ digits, Text.isAsciiDigit c = true) : digits.all isWritten = true := by
  refine List.all_eq_true.2 fun c hc => ?_
  rw [isWritten, h c hc, Bool.or_true]
  rfl

theorem isWritten_sign (op : Operation) : isWritten op.sign = true := by
  cases op <;> decide +kernel

namespace Numeral

theorem all_written (n : Numeral) : n.text.all isWritten = true := by
  rw [text, List.all_append, all_written_of_digits n.whole_digits, Bool.true_and]
  cases hfraction : n.fraction with
  | none => rfl
  | some digits =>
    rw [Option.map_some, Option.getD_some, List.all_cons,
      all_written_of_digits (n.fraction_digits digits hfraction), Bool.and_true]
    decide +kernel

end Numeral

namespace Tree

/-- Expressions are blanks, digits, points, signs and brackets. -/
theorem Spells.all_written {r : Name} {tree : Tree r} {text : List Char} (h : tree.Spells text) :
    text.all isWritten = true := by
  have hminus : isWritten '-' = true := by decide +kernel
  have hopen : isWritten '(' = true := by decide +kernel
  have hclose : isWritten ')' = true := by decide +kernel
  induction h with
  | sum _ hgap _ ihleft ihright | product _ hgap _ ihleft ihright =>
    simp [ihleft, ihright, all_written_of_blank hgap, isWritten_sign]
  | term _ ih | factor _ ih => exact ih
  | opposite hgap _ ih => simp [ih, all_written_of_blank hgap, hminus]
  | brackets hgap _ hgap' ih =>
    simp [ih, all_written_of_blank hgap, all_written_of_blank hgap', hopen, hclose]
  | number hgap =>
    next numeral _ => simp [all_written_of_blank hgap, numeral.all_written]

/-- There is a number in every expression. -/
theorem Spells.any_digit {r : Name} {tree : Tree r} {text : List Char} (h : tree.Spells text) :
    text.any Text.isAsciiDigit = true := by
  induction h with
  | sum _ _ _ ih _ | product _ _ _ ih _ | brackets _ _ _ ih => simp [ih]
  | term _ ih | factor _ ih => exact ih
  | opposite _ _ ih => simp [ih]
  | number =>
    next numeral gap _ =>
      obtain ⟨c, rest, htext, hdigit⟩ := numeral.exists_digit
      simp [htext, hdigit]

end Tree

/-- A text that comes to a value is an expression. -/
theorem exists_tree_of_evaluate {text : String} {v : Value}
    (h : (evaluate text none .empty).1 = .ok v) : ∃ tree : Tree .expr, tree.Derives text := by
  rw [evaluate_of_serves Session.serves_empty] at h
  cases hresult : Meaning.values.calculate text with
  | error fault =>
    rw [hresult] at h
    cases h
  | ok v' =>
    obtain ⟨tree, hderives, -⟩ := Tree.exists_derives hresult
    exact ⟨tree, hderives⟩

end Calculator

namespace CommandLine

open Calculator (isWritten)

/-! ### Words -/

/-- A text in the characters of expressions, with a digit. -/
structure Numeric (text : String) : Prop where
  written : text.toList.all isWritten = true
  digit : text.toList.any Text.isAsciiDigit = true

/-- A word is an operand if it does not begin with a hyphen, is a number below zero, or has a
space in it. -/
def IsOperand (text : String) : Prop :=
  "-".isPrefixOf text = true → isNegativeNumber text = true ∨ ' ' ∈ text.toList

instance (text : String) : Decidable (IsOperand text) :=
  inferInstanceAs (Decidable (_ → _))

theorem numeric_of_derives {tree : Calculator.Tree .expr} {text : String} (h : tree.Derives text) :
    Numeric text := by
  obtain ⟨spelled, gap, hspells, hgap, htext⟩ := h
  refine ⟨?_, ?_⟩
  · rw [htext, List.all_append, hspells.all_written, Calculator.all_written_of_blank hgap]
    rfl
  · rw [htext, List.any_append, hspells.any_digit]
    rfl

namespace Numeric

variable {text : String}

/-- What has no digit is another text. -/
theorem ne_of_no_digit (h : Numeric text) {other : String}
    (hother : other.toList.any Text.isAsciiDigit = false) : text ≠ other := by
  rintro rfl
  rw [h.digit] at hother
  cases hother

theorem not_mem (h : Numeric text) {c : Char} (hc : isWritten c = false) : c ∉ text.toList := by
  intro hmem
  rw [List.all_eq_true.1 h.written c hmem] at hc
  cases hc

/-- An expression is no option. -/
theorem find?_eq_none (h : Numeric text) : Switch.find? text = none := by
  refine CommandLine.find?_eq_none fun spelling hmem => h.ne_of_no_digit ?_
  revert spelling
  decide +kernel

theorem splitAtEquals_eq (h : Numeric text) : splitAtEquals text = (text, none) := by
  have hfree : '=' ∉ text.toList := h.not_mem (by decide +kernel)
  have hsplit := splitAtEquals_self hfree
  rwa [String.ofList_toList] at hsplit

/-- An expression is not short for an option: names have no digits, and letters are not in
expressions. -/
theorem candidates_eq_nil (h : Numeric text) : candidates text = [] := by
  have hletters : ∀ pair ∈ Switch.spellings, pair.1.toList.any Text.isAsciiDigit = false ∧
      (pair.1.toList.length = 2 → pair.1.toList.all isWritten = false) := by decide +kernel
  rw [candidates]
  split
  · rw [h.splitAtEquals_eq]
    refine List.map_eq_nil_iff.2 (List.filter_eq_nil_iff.2 fun pair hpair hbegins => ?_)
    have hprefix : text.toList <+: pair.1.toList := by simpa [String.isPrefixOf] using hbegins
    obtain ⟨c, hmem, hdigit⟩ := List.any_eq_true.1 h.digit
    have hno := (hletters pair hpair).1
    rw [List.any_eq_true.2 ⟨c, hprefix.subset hmem, hdigit⟩] at hno
    cases hno
  · next hyphen letter rest _ htext =>
    refine List.map_eq_nil_iff.2 (List.filter_eq_nil_iff.2 fun pair hpair hsame => ?_)
    have hspelling : pair.1.toList = [hyphen, letter] := by
      rw [of_decide_eq_true hsame, String.toList_ofList]
    have hno := (hletters pair hpair).2 (by rw [hspelling]; rfl)
    have hall := h.written
    rw [htext, List.all_cons, List.all_cons] at hall
    rw [hspelling] at hno
    simp_all
  · rfl

/-- An expression is an operand, or it looks like an option that does not exist. -/
theorem classify_eq (h : Numeric text) :
    (IsOperand text → classify text = .ok (.operand text)) ∧
      (¬ IsOperand text → classify text = .ok (.unknown text)) := by
  have hhyphen : text ≠ "-" := h.ne_of_no_digit (by decide +kernel)
  have hbefore : findBeforeEquals text = none := by rw [findBeforeEquals, h.splitAtEquals_eq]
  rw [classify, h.find?_eq_none, hbefore, h.candidates_eq_nil]
  by_cases hstarts : "-".isPrefixOf text = true
  · have hiff : IsOperand text ↔ isNegativeNumber text = true ∨ ' ' ∈ text.toList :=
      ⟨fun h => h hstarts, fun h _ => h⟩
    simp only [hstarts, Bool.not_true, Bool.false_eq_true, if_false, hhyphen, hiff]
    exact ⟨fun h => if_pos h, fun h => if_neg h⟩
  · simp [IsOperand, hstarts]

end Numeric

/-! ### Command lines -/

variable {release : Release}

/-- The settings of a command line without options. -/
def Settings.plain (expression : Option String) : Settings := ⟨false, 0, .int 64, expression⟩

/-- A word that is an operand is the expression. -/
theorem read_operand {text : String} (hne : text ≠ "--")
    (h : classify text = .ok (.operand text)) :
    Settings.read release [text] = .ok (.plain (some text)) := by
  have hread : readOn release .begin [text] = .ok ⟨.plain (some text), true, []⟩ := by
    rw [readOn, classifyAll_cons hne, h]
    rfl
  exact read_of_ok hread

/-- A text without hyphens is the expression. -/
theorem read_unhyphenated {text : String} (h : '-' ∉ text.toList) :
    Settings.read release [text] = .ok (.plain (some text)) ∧
      ∀ input, ((some text).filter (· ≠ "-")).getD input = text := by
  have hne : ∀ other : String, '-' ∈ other.toList → text ≠ other := by
    rintro _ hmem rfl
    exact h hmem
  have hclassify : classify text = .ok (.operand text) := by
    rw [classify, if_pos]
    rw [Bool.not_eq_true', ← Bool.not_eq_true, startsHyphen_iff]
    exact fun hbegins => h (hbegins.subset List.mem_cons_self)
  refine ⟨read_operand (hne "--" (by decide +kernel)) hclassify, ?_⟩
  simp [Option.filter, hne "-" (by decide +kernel)]

/-- A word that looks like an option is refused. -/
theorem read_unknown {text : String} (hne : text ≠ "--")
    (h : classify text = .ok (.unknown text)) :
    Settings.read release [text] = .error (.usage s!"unrecognized arguments: {text}") := by
  have hconsume : readOn release .begin [text] = .ok (Progress.begin.extra text) := by
    rw [readOn, classifyAll_cons hne, h]
    rfl
  obtain ⟨words, hwords, hconsume⟩ := bind_eq_ok.1 hconsume
  rw [Settings.read, hwords, ok_bind, hconsume]
  rfl

/-- The job of a command line without options. -/
def Job.plain (expression : Option String) : Job := ⟨.plain expression, .empty .standard false⟩

theorem Job.read_plain {arguments : List String} {expression : Option String}
    (h : Settings.read release arguments = .ok (.plain expression)) :
    Job.read release arguments = .ok (.plain expression) := by
  rw [Job.read_eq h]
  rfl

/-- Without options the source is evaluated as in a new session, and not traced. -/
theorem Job.evaluate_plain {expression : Option String} {input text : String}
    (hsource : (expression.filter (· ≠ "-")).getD input = text) :
    ((Job.plain expression).evaluate input).1 = (Calculator.evaluate text none .empty).1 ∧
      traceText ((Job.plain expression).evaluate input).2 = "" := by
  have hroom : Calculator.grammar.HasRoom (Job.plain expression).registry :=
    Grammar.hasRoom_of_le (by decide : 3 ≤ wordSize)
  exact hsource ▸ (Job.plain expression).evaluate_eq rfl hroom rfl input

/-- Without options the command prints the value of its source. -/
theorem run_plain {arguments : List String} {text input : String} (expression : Option String)
    (hread : Settings.read release arguments = .ok (.plain expression))
    (hsource : (expression.filter (· ≠ "-")).getD input = text) {v : Value} {shown : String}
    (hv : (Calculator.evaluate text none .empty).1 = .ok v) (hshown : v.plain = .ok shown)
    (before after : Number) :
    run arguments input before after release = ⟨shown ++ "\n", "", .exit 0⟩ := by
  obtain ⟨hresult, htrace⟩ := Job.evaluate_plain hsource
  rw [hv] at hresult
  rw [run, Job.read_plain hread]
  dsimp only
  generalize (Job.plain expression).evaluate input = evaluation at *
  obtain ⟨result, session⟩ := evaluation
  cases hresult
  have htext : (Job.plain expression).valueText v = .ok (shown ++ "\n") := by
    rw [Job.valueText, hshown]
    rfl
  have hend : (Job.plain expression).epilogue input session before after = .ok "" := rfl
  simp only [Job.outcome, htext, hend, htrace, String.empty_append, String.append_empty]

/-- An expression is printed as well on the standard input, behind a separator, and where it is an
operand. If it looks like an option, it is refused as a word on its own. -/
theorem run_accepts {text shown : String} {v : Value}
    (hv : (Calculator.evaluate text none .empty).1 = .ok v) (hshown : v.plain = .ok shown)
    (input : String) (before after : Number) (release : Release) :
    run [] text before after release = ⟨shown ++ "\n", "", .exit 0⟩ ∧
      run ["--", text] input before after release = ⟨shown ++ "\n", "", .exit 0⟩ ∧
      (IsOperand text → run [text] input before after release = ⟨shown ++ "\n", "", .exit 0⟩) ∧
      (¬ IsOperand text → run [text] input before after release =
        .ofUsage s!"unrecognized arguments: {text}") := by
  obtain ⟨tree, hderives⟩ := Calculator.exists_tree_of_evaluate hv
  have hnumeric := numeric_of_derives hderives
  have hne : text ≠ "--" := hnumeric.ne_of_no_digit (by decide +kernel)
  have hhyphen : text ≠ "-" := hnumeric.ne_of_no_digit (by decide +kernel)
  have hsource : ∀ input, ((some text).filter (· ≠ "-")).getD input = text := by
    simp [Option.filter, hhyphen]
  refine ⟨run_plain none rfl rfl hv hshown before after, ?_, ?_, ?_⟩
  · exact run_plain (some text) rfl (hsource input) hv hshown before after
  · intro hoperand
    exact run_plain _ (read_operand hne (hnumeric.classify_eq.1 hoperand)) (hsource input) hv hshown
      before after
  · intro hoption
    rw [run, Job.read, read_unknown hne (hnumeric.classify_eq.2 hoption)]
    rfl

/-- A difference that begins with a hyphen is an operand if there is a space in it. -/
theorem run_accepts_difference :
    (Calculator.evaluate "-3 -4" none .empty).1 = .ok (.int (-7)) ∧
      (Value.int (-7)).plain = .ok "-7" ∧ IsOperand "-3 -4" ∧
      ∀ release, run ["-3 -4"] "" (.int 0) (.int 0) release = ⟨"-7\n", "", .exit 0⟩ := by
  have hv : (Calculator.evaluate "-3 -4" none .empty).1 = .ok (.int (-7)) := by
    rw [Calculator.evaluate_of_serves Session.serves_empty]
    rfl
  have hshown : (Value.int (-7)).plain = .ok "-7" := by
    have hwritten : (Value.int (-7)).written = .ok "-7" := by
      rw [Value.written, integerText, if_pos (by decide +kernel)]
      rfl
    rw [← hwritten]
    rfl
  have hoperand : IsOperand "-3 -4" := by decide +kernel
  exact ⟨hv, hshown, hoperand, fun release =>
    (run_accepts hv hshown "" (.int 0) (.int 0) release).2.2.1 hoperand⟩

/-- Without the space a sum is printed on the standard input only: as a word of its own it is
refused as an option that does not exist. -/
theorem run_refuses_sum :
    (Calculator.evaluate "-1+2" none .empty).1 = .ok (.int 1) ∧ (Value.int 1).plain = .ok "1" ∧
      ∀ release, run [] "-1+2" (.int 0) (.int 0) release = ⟨"1\n", "", .exit 0⟩ ∧
        run ["-1+2"] "" (.int 0) (.int 0) release =
          .ofUsage "unrecognized arguments: -1+2" := by
  have hv : (Calculator.evaluate "-1+2" none .empty).1 = .ok (.int 1) := by
    rw [Calculator.evaluate_of_serves Session.serves_empty]
    rfl
  have hshown : (Value.int 1).plain = .ok "1" := by
    have hwritten : (Value.int 1).written = .ok "1" := by
      rw [Value.written, integerText, if_pos (by decide +kernel)]
      rfl
    rw [← hwritten]
    rfl
  have hnumeric : Numeric "-1+2" := ⟨by decide +kernel, by decide +kernel⟩
  have hoption : classify "-1+2" = .ok (.unknown "-1+2") :=
    hnumeric.classify_eq.2 (by decide +kernel)
  refine ⟨hv, hshown, fun release =>
    ⟨run_plain none rfl rfl hv hshown (.int 0) (.int 0), ?_⟩⟩
  rw [run, Job.read, read_unknown (by decide +kernel) hoption]
  rfl

end CommandLine

end SeedGrowth
