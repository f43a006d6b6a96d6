import SeedGrowth.Proofs.Calculator.Derivation
import SeedGrowth.Proofs.Grammar.Parsing

/-!
# What calculations stop at

A source without a value does not match, or its arithmetic has no answer: a division by zero, or a
number beyond the reals. Apart from that only numerals can go wrong, and only by their length, for
whole numbers have a limit on digits. All numerals are in the source, so that one that is too long
is seen there.
-/
namespace SeedGrowth

open Text

/-! ### Numerals -/

namespace Text

theorem toLower_of_isAsciiDigit {c : Char} (h : isAsciiDigit c = true) : c.toLower = c := by
  simp only [isAsciiDigit, Bool.and_eq_true, decide_eq_true_eq, Char.le_def,
    UInt32.le_iff_toNat_le] at h
  have hhigh : c.toNat ≤ 57 := h.2
  unfold Char.toLower
  split
  · next hupper =>
    have hlow : 65 ≤ c.toNat := UInt32.le_iff_toNat_le.1 hupper.1
    omega
  · rfl

theorem digitValue?_of_isAsciiDigit {c : Char} (h : isAsciiDigit c = true) :
    digitValue? c = some (c.toNat - '0'.toNat) := by
  rw [digitValue?, if_pos h]

theorem ne_of_isAsciiDigit {c c' : Char} (h : isAsciiDigit c = true)
    (h' : isAsciiDigit c' = false) : c ≠ c' := by
  rintro rfl
  rw [h] at h'
  cases h'

end Text

namespace Decimal

variable {digits tail text : List Char}

theorem isMargin_of_isBlank {c : Char} (h : isBlank c = false) : isMargin c = false := by
  rw [isMargin, Bool.or_eq_false_iff]
  constructor
  · rw [← Bool.not_eq_true]
    intro hplain
    rw [isBlank_of_isPlainBlank hplain] at h
    cases h
  · exact (Bool.or_eq_false_iff.1 h).2

/-- Where there are no blanks nothing is taken away. -/
theorem trim_eq_self (h : ∀ c ∈ text, isBlank c = false) : trim text = text := by
  have hdrop : ∀ text : List Char, (∀ c ∈ text, isBlank c = false) →
      text.dropWhile isMargin = text := by
    intro text h
    cases text with
    | nil => rfl
    | cons c rest =>
      rw [List.dropWhile_cons_of_neg]
      rw [isMargin_of_isBlank (h c List.mem_cons_self)]
      exact Bool.false_ne_true
  rw [trim, hdrop text h, hdrop text.reverse fun c hc => h c (List.mem_reverse.1 hc),
    List.reverse_reverse]

theorem readSign_digit {c : Char} (h : isAsciiDigit c = true) (rest : List Char) :
    readSign (c :: rest) = (false, c :: rest) := by
  unfold readSign
  split
  · next heq =>
    cases heq
    exact absurd rfl (ne_of_isAsciiDigit h (by decide))
  · next heq =>
    cases heq
    exact absurd rfl (ne_of_isAsciiDigit h (by decide))
  · rfl

/-- A run of digits goes up to what does not go on with it. -/
theorem moreDigits_append (h : ∀ c ∈ digits, isAsciiDigit c = true)
    (htail : moreDigits tail = some ([], tail)) : ∃ values,
      moreDigits (digits ++ tail) = some (values, tail) ∧ values.length = digits.length := by
  induction digits with
  | nil => exact ⟨[], htail, rfl⟩
  | cons c digits ih =>
    obtain ⟨hc, hdigits⟩ := List.forall_mem_cons.1 h
    obtain ⟨values, hmore, hlength⟩ := ih hdigits
    refine ⟨(c.toNat - '0'.toNat) :: values, ?_, congrArg (· + 1) hlength⟩
    rw [List.cons_append, moreDigits]
    · rw [digitValue?_of_isAsciiDigit hc, hmore]
      rfl
    · exact ne_of_isAsciiDigit hc (by decide)

theorem readDigits_append (hne : digits ≠ []) (h : ∀ c ∈ digits, isAsciiDigit c = true)
    (htail : moreDigits tail = some ([], tail)) : ∃ values,
      readDigits (digits ++ tail) = some (values, tail) ∧ values.length = digits.length := by
  obtain ⟨c, digits, rfl⟩ := List.exists_cons_of_ne_nil hne
  obtain ⟨hc, hdigits⟩ := List.forall_mem_cons.1 h
  obtain ⟨values, hmore, hlength⟩ := moreDigits_append hdigits htail
  refine ⟨(c.toNat - '0'.toNat) :: values, ?_, congrArg (· + 1) hlength⟩
  rw [List.cons_append, readDigits, digitValue?_of_isAsciiDigit hc]
  dsimp only
  rw [hmore]
  rfl

/-- Digits are a whole number, unless there are too many. -/
theorem readInteger_digits (hne : digits ≠ []) (h : ∀ c ∈ digits, isAsciiDigit c = true) :
    (digitLimit < digits.length → readInteger digits = .error (.tooLong digits.length)) ∧
      (digits.length ≤ digitLimit → ∃ n, readInteger digits = .ok n) := by
  have htrim : trim digits = digits :=
    trim_eq_self fun c hc => isBlank_of_isAsciiDigit (h c hc)
  have hsign : readSign digits = (false, digits) := by
    obtain ⟨c, rest, rfl⟩ := List.exists_cons_of_ne_nil hne
    exact readSign_digit (h c List.mem_cons_self) rest
  obtain ⟨values, hread, hlength⟩ := readDigits_append hne h (rfl : moreDigits [] = some ([], []))
  rw [List.append_nil] at hread
  rw [readInteger, htrim, hsign]
  simp only [hread, hlength]
  constructor
  · intro hlong
    rw [if_pos hlong]
  · intro hshort
    rw [if_neg (Nat.not_lt.2 hshort)]
    exact ⟨_, rfl⟩

theorem readDigits?_append (h : ∀ c ∈ digits, isAsciiDigit c = true)
    (htail : moreDigits tail = some ([], tail)) (hend : readDigits? tail = some ([], tail)) :
    ∃ values, readDigits? (digits ++ tail) = some (values, tail) ∧
      values.length = digits.length := by
  cases digits with
  | nil => exact ⟨[], hend, rfl⟩
  | cons c digits =>
    obtain ⟨values, hread, hlength⟩ := readDigits_append (List.cons_ne_nil c digits) h htail
    refine ⟨values, ?_, hlength⟩
    rw [← hread, List.cons_append, readDigits?,
      digitValue?_of_isAsciiDigit (h c List.mem_cons_self)]
    rfl

/-- Digits with a point behind them are a real, however many there are. -/
theorem exists_readReal {whole fraction : List Char} (hne : whole ≠ [])
    (hwhole : ∀ c ∈ whole, isAsciiDigit c = true)
    (hfraction : ∀ c ∈ fraction, isAsciiDigit c = true) :
    ∃ x, readReal (whole ++ '.' :: fraction) = some x := by
  obtain ⟨first, rest, rfl⟩ := List.exists_cons_of_ne_nil hne
  have hfirst := hwhole first List.mem_cons_self
  have htrim : trim (first :: rest ++ '.' :: fraction) = first :: rest ++ '.' :: fraction := by
    refine trim_eq_self fun c hc => ?_
    rcases List.mem_append.1 hc with hc | hc
    · exact isBlank_of_isAsciiDigit (hwhole c hc)
    · rcases List.mem_cons.1 hc with rfl | hc
      · decide +kernel
      · exact isBlank_of_isAsciiDigit (hfraction c hc)
  have hword : readWord false (first :: rest ++ '.' :: fraction) = none := by
    have hne : ∀ word : String, word.toList.head?.any isAsciiDigit = false →
        String.ofList ((first :: rest ++ '.' :: fraction).map Char.toLower) ≠ word := by
      rintro _ hword rfl
      rw [String.toList_ofList, List.cons_append, List.map_cons, List.head?_cons, Option.any_some,
        toLower_of_isAsciiDigit hfirst, hfirst] at hword
      cases hword
    have hinf := hne "inf" (by decide +kernel)
    have hinfinity := hne "infinity" (by decide +kernel)
    have hnan := hne "nan" (by decide +kernel)
    simp only [readWord, hinf, hinfinity, hnan, or_self, if_false]
  have hpoint : moreDigits ('.' :: fraction) = some ([], '.' :: fraction) := rfl
  have hend : moreDigits [] = some ([], []) := rfl
  obtain ⟨values, hvalues, hlength⟩ := readDigits?_append hwhole hpoint rfl
  obtain ⟨values', hvalues', -⟩ := readDigits?_append hfraction hend rfl
  rw [List.append_nil] at hvalues'
  have hsome : values.isEmpty = false := by
    cases values with
    | nil => cases hlength
    | cons => rfl
  refine ⟨realOf false (values ++ values') (0 - values'.length), ?_⟩
  rw [readReal, htrim, List.cons_append, readSign_digit hfirst, ← List.cons_append]
  simp only [hword, hvalues, Option.bind_eq_bind, Option.bind_some, hvalues', hsome,
    Bool.false_eq_true, false_and, if_false]
  rfl

end Decimal

namespace Calculator

/-- The text has that many digits in a row. -/
def HasDigits (text : List Char) (n : Nat) : Prop :=
  ∃ before digits after, text = before ++ (digits ++ after) ∧
    (∀ c ∈ digits, isAsciiDigit c = true) ∧ digits.length = n

/-- A numeral without a point is a whole number, unless it is too long; one with a point is a
real. -/
theorem Numeral.number_cases (n : Numeral) :
    (n.fraction = none → n.whole.length ≤ Decimal.digitLimit) ∧
        (∃ x : Number, Meaning.values.number (String.ofList n.text) = .ok x.toValue) ∨
      n.fraction = none ∧ Decimal.digitLimit < n.whole.length ∧
        Meaning.values.number (String.ofList n.text) = .error (.integerTooLong n.whole.length) := by
  obtain ⟨whole, fraction, hne, hwhole, hfraction⟩ := n
  have hnumber : ∀ text, Meaning.values.number (String.ofList text) =
      if '.' ∈ text then realOfText (String.ofList text)
      else integerOfText (String.ofList text) := by
    intro text
    change readNumeral (.text _) = _
    rw [readNumeral, String.toList_ofList]
  rw [hnumber]
  cases fraction with
  | some digits =>
    obtain ⟨x, hx⟩ := Decimal.exists_readReal hne hwhole (hfraction digits rfl)
    refine .inl ⟨nofun, .real x, ?_⟩
    rw [if_pos (by simp [text]), realOfText, String.toList_ofList, text, Option.map_some,
      Option.getD_some, hx]
    rfl
  | none =>
    have hpoint : '.' ∉ whole := by
      intro hmem
      exact absurd (hwhole '.' hmem) (by decide)
    have htext : text ⟨whole, none, hne, hwhole, hfraction⟩ = whole := by simp [text]
    obtain ⟨hlong, hshort⟩ := Decimal.readInteger_digits hne hwhole
    rw [htext, if_neg hpoint, integerOfText, String.toList_ofList]
    rcases Nat.lt_or_ge Decimal.digitLimit whole.length with hlt | hle
    · exact .inr ⟨rfl, hlt, by rw [hlong hlt]⟩
    · obtain ⟨m, hm⟩ := hshort hle
      exact .inl ⟨fun _ => hle, .int m, by rw [hm]; rfl⟩

/-! ### Operations -/

/-- What stops a calculation on a text: arithmetic that has no answer, or a whole number with too
many digits in the text. -/
inductive Stops (text : List Char) : Fault → Prop where
  | zeroDivision {division} : Stops text (.zeroDivision division)
  | tooLargeForReal : Stops text .tooLargeForReal
  | quotientTooLarge : Stops text .quotientTooLarge
  | tooLong {n} : HasDigits text n → Decimal.digitLimit < n → Stops text (.integerTooLong n)

section

variable {text : List Char} {fault : Fault}

theorem stops_of_toReal {x : Number} (h : x.toReal = .error fault) : Stops text fault := by
  cases x with
  | int n =>
    rw [Number.toReal] at h
    split at h <;> cases h
    exact .tooLargeForReal
  | real x => cases h

theorem stops_of_onWhole {op : Operation} {m n : Int} (h : op.onWhole m n = .error fault) :
    Stops text fault := by
  cases op with
  | add | subtract | multiply => cases h
  | divide =>
    change divideWhole m n = _ at h
    unfold divideWhole at h
    split at h
    · cases h
      exact .zeroDivision
    · split at h <;> cases h
      exact .quotientTooLarge
  | remainder =>
    change (if _ then _ else _) = _ at h
    split at h <;> cases h
    exact .zeroDivision

theorem stops_of_onReal {op : Operation} {x y : Float} (h : op.onReal x y = .error fault) :
    Stops text fault := by
  cases op with
  | add | subtract | multiply => cases h
  | divide | remainder =>
    change (if _ then _ else _) = _ at h
    split at h <;> cases h
    exact .zeroDivision

/-- Operations on numbers stop at divisions by zero and at numbers beyond the reals. -/
theorem stops_of_onNumbers {op : Operation} {x y : Number}
    (h : op.onNumbers x y = .error fault) : Stops text fault := by
  have hreal : ∀ {x y : Number}, (do op.onReal (← x.toReal) (← y.toReal)) = .error fault →
      Stops text fault := by
    intro x y h
    rcases bind_eq_error h with hx | ⟨x', -, h⟩
    · exact stops_of_toReal hx
    · rcases bind_eq_error h with hy | ⟨y', -, h⟩
      · exact stops_of_toReal hy
      · exact stops_of_onReal h
  cases x with
  | int m =>
    cases y with
    | int n => exact stops_of_onWhole h
    | real y => exact hreal h
  | real x => exact hreal h

/-- A text before which there is more has the same digits in it. -/
theorem Stops.over {s s' : Point} (h : s.Over text s') (hs : Stops s'.fragment fault) :
    Stops s.fragment fault := by
  cases hs with
  | zeroDivision => exact .zeroDivision
  | tooLargeForReal => exact .tooLargeForReal
  | quotientTooLarge => exact .quotientTooLarge
  | tooLong hdigits hlong =>
    obtain ⟨before, digits, after, heq, hdigits, hlength⟩ := hdigits
    refine .tooLong ⟨text ++ before, digits, after, ?_, hdigits, hlength⟩ hlong
    rw [h.fragment_eq, heq, List.append_assoc]

end

/-! ### Loops -/

namespace Meaning

variable {r o : Name} {ops : List Operation} {fault : Fault} {s inner : Point}
  {operand : Point → Except Fault (Option (Partial Value))}

/-- A reader stops at nothing but faults of the text ahead. -/
def StopsOnly (parse : Point → Except Fault (Option (Partial Value))) : Prop :=
  ∀ s fault, parse s = .error fault → Stops s.fragment fault

/-- What has been read is a number, and there is text before what is left. -/
theorem Reads.number {found : Partial Value} (h : values.Reads r s found) :
    (∃ x : Number, found.1 = x.toValue) ∧ ∃ text, s.Over text found.2 := by
  obtain ⟨tree, text, -, hover, hfold⟩ := h
  exact ⟨tree.exists_number hfold, text, hover⟩

theorem numeral_stops : StopsOnly values.numeral := by
  intro s fault h
  unfold numeral at h
  split at h
  · cases h
  next count hscan =>
  obtain ⟨n, hn⟩ := scan_numeral hscan
  rw [hn] at h
  rcases n.number_cases with ⟨-, x, hx⟩ | ⟨hfraction, hlong, hnumber⟩
  · rw [hx] at h
    cases h
  · rw [hnumber] at h
    cases h
    obtain ⟨gap, -, hover⟩ := s.skipBlanks_spec
    refine Stops.over hover (.tooLong ⟨[], n.whole, s.skipBlanks.fragment.drop count, ?_,
      n.whole_digits, rfl⟩ hlong)
    have htext : n.text = n.whole := by simp [Numeral.text, hfraction]
    rw [List.nil_append, ← htext, ← hn, List.take_append_drop]

/-- An operation between numbers is a number, or it stops. -/
theorem operation_cases (op : Operation) (x y : Number) (text : List Char) :
    (∃ z : Number, values.operation op x.toValue y.toValue = .ok z.toValue) ∨
      ∃ fault, values.operation op x.toValue y.toValue = .error fault ∧ Stops text fault := by
  change (∃ z : Number, op.apply _ _ = _) ∨ ∃ fault, op.apply _ _ = _ ∧ _
  rw [Operation.apply_toValue]
  cases hz : op.onNumbers x y with
  | ok z => exact .inl ⟨z, rfl⟩
  | error fault => exact .inr ⟨fault, rfl, stops_of_onNumbers hz⟩

theorem further_stops (hreads : values.AllRead o operand) (hoperand : StopsOnly operand)
    {x : Number} (h : values.further ops operand (x.toValue, s) = .error fault) :
    Stops s.fragment fault := by
  rw [further] at h
  cases hahead : operationAhead ops s with
  | none =>
    rw [hahead] at h
    cases h
  | some ahead =>
    obtain ⟨op, s'⟩ := ahead
    rw [hahead] at h
    obtain ⟨gap, -, hover⟩ := Point.past?_spec (operationAhead_spec hahead).2
    rcases bind_eq_error h with hright | ⟨result, hright, h⟩
    · exact (hoperand _ _ hright).over hover
    · cases result with
      | none => cases h
      | some found =>
        obtain ⟨v, rest⟩ := found
        obtain ⟨⟨y, rfl : v = y.toValue⟩, -⟩ := (hreads _ _ hright).number
        dsimp only at h
        rcases operation_cases op x y s.fragment with ⟨z, hz⟩ | ⟨fault', hz, hstops⟩
        · rw [hz] at h
          cases h
        · rw [hz] at h
          cases h
          exact hstops

/-- A loop goes on from numbers to numbers. -/
theorem number_of_further (hreads : values.AllRead o operand) {x : Number}
    {found : Partial Value} (h : values.further ops operand (x.toValue, s) = .ok (some found)) :
    (∃ z : Number, found.1 = z.toValue) ∧ ∃ text, s.Over text found.2 := by
  obtain ⟨op, s', v, -, hpast, hright, hz⟩ := further_eq_ok h
  obtain ⟨gap, -, hover⟩ := Point.past?_spec hpast
  obtain ⟨⟨y, rfl : v = y.toValue⟩, text, hover'⟩ := (hreads _ _ hright).number
  refine ⟨?_, _, hover.trans hover'⟩
  rcases operation_cases op x y [] with ⟨z, hz'⟩ | ⟨fault, hz', -⟩
  · exact ⟨z, Except.ok.inj (hz.symm.trans hz')⟩
  · cases hz.symm.trans hz'

theorem chain_stops (hreads : values.AllRead o operand) (hoperand : StopsOnly operand)
    (rounds : Nat) {x : Number}
    (h : values.chain ops operand rounds (x.toValue, s) = .error fault) :
    Stops s.fragment fault := by
  induction rounds generalizing s x with
  | zero => cases h
  | succ rounds ih =>
    rw [chain] at h
    rcases bind_eq_error h with hfurther | ⟨result, hfurther, h⟩
    · exact further_stops hreads hoperand hfurther
    · cases result with
      | none => cases h
      | some found =>
        obtain ⟨v, rest⟩ := found
        obtain ⟨⟨z, rfl : v = z.toValue⟩, text, hover⟩ := number_of_further hreads hfurther
        exact (ih h).over hover

theorem grouped_stops (hreads : values.AllRead o operand) (hoperand : StopsOnly operand) :
    StopsOnly (values.grouped ops operand) := by
  intro s fault h
  rcases bind_eq_error h with hfirst | ⟨result, hfirst, h⟩
  · exact hoperand _ _ hfirst
  · cases result with
    | none => cases h
    | some found =>
      obtain ⟨v, rest⟩ := found
      obtain ⟨⟨x, rfl : v = x.toValue⟩, text, hover⟩ := (hreads _ _ hfirst).number
      rcases bind_eq_error h with hchain | ⟨last, -, h⟩
      · exact (chain_stops hreads hoperand _ hchain).over hover
      · cases h

/-- The opposite of a number can always be taken. -/
theorem opposed_stops (hreads : values.AllRead .factor operand) (hoperand : StopsOnly operand)
    (hsign : s.past? '-' = some inner) (h : values.opposed operand inner = .error fault) :
    Stops s.fragment fault := by
  obtain ⟨gap, -, hover⟩ := Point.past?_spec hsign
  rcases bind_eq_error h with hoperand' | ⟨result, hresult, h⟩
  · exact (hoperand _ _ hoperand').over hover
  · cases result with
    | none => cases h
    | some found =>
      obtain ⟨v, rest⟩ := found
      obtain ⟨⟨x, rfl : v = x.toValue⟩, -⟩ := (hreads _ _ hresult).number
      change (do let y ← x.toValue.negate; _) = _ at h
      rw [Value.negate, Value.number?_toValue] at h
      cases h

theorem enclosed_stops (hinside : StopsOnly operand) (hopen : s.past? '(' = some inner)
    (h : values.enclosed operand inner = .error fault) : Stops s.fragment fault := by
  obtain ⟨gap, -, hover⟩ := Point.past?_spec hopen
  rcases bind_eq_error h with hinner | ⟨result, -, h⟩
  · exact (hinside _ _ hinner).over hover
  · cases result <;> cases h

theorem factor_stops (size : Nat) : StopsOnly (values.factor size) := by
  induction size with
  | zero =>
    intro s fault h
    cases h
  | succ size ih =>
    intro s fault h
    have hterm : StopsOnly (values.term size) := grouped_stops (values.factor_reads size) ih
    rw [factor_succ] at h
    split at h
    · next inner hsign => exact opposed_stops (values.factor_reads size) ih hsign h
    · next inner _ hopen =>
      exact enclosed_stops (grouped_stops (values.term_reads size) hterm) hopen h
    · exact numeral_stops _ _ h

theorem expression_stops (size : Nat) : StopsOnly (values.expression size) :=
  grouped_stops (values.term_reads size) (grouped_stops (values.factor_reads size)
    (factor_stops size))

end Meaning

/-- A source that comes to no value does not match on some line, or stops on the way to one. -/
theorem calculate_stops {source : String} {fault : Fault}
    (h : Meaning.values.calculate source = .error fault) :
    (∃ line column, 1 ≤ line ∧ fault = .unmatchedAt source line column unnamedFile) ∨
      Stops source.toList fault := by
  rcases bind_eq_error h with hread | ⟨result, hread, h⟩
  · exact .inr (Meaning.expression_stops _ _ _ hread)
  · cases result with
    | none =>
      cases h
      exact .inl ⟨1, 1, le_rfl, rfl⟩
    | some found =>
      obtain ⟨v, rest⟩ := found
      obtain ⟨-, text, hover⟩ := (Meaning.expression_reads _ _ _ hread).number
      obtain ⟨gap, -, hgap⟩ := rest.skipBlanks_spec
      have hplace := (hover.trans hgap).place_eq
      dsimp only at h
      split at h
      · cases h
      · cases h
        refine .inl ⟨_, _, ?_, rfl⟩
        rw [hplace]
        exact Int.le_add_of_nonneg_right (Int.natCast_nonneg _)

end Calculator

end SeedGrowth
