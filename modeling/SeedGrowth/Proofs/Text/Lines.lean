import SeedGrowth.Proofs.Scope.Points
import SeedGrowth.Text.Lines

/-!
# Two ways to count lines

Places count line feeds, and lines end at any line break. For a place in a text the line that
holds it is the one after as many as there are line breaks before it. That is the line with
the number of the place just if all these breaks end in a line feed.
-/
namespace SeedGrowth.Text

variable {before rest : List Char}

/-- How many lines end in a text. -/
def breaks : List Char → ℕ
  | [] => 0
  | '\r' :: '\n' :: rest => breaks rest + 1
  | c :: rest => if isLineBreak c then breaks rest + 1 else breaks rest

/-- The line that is not ended: what comes after the last line break of a text. -/
def openLine (text : List Char) : List Char := (text.reverse.takeWhile (!isLineBreak ·)).reverse

/-- The line at the border between two texts. -/
def lineAround (before rest : List Char) : List Char :=
  openLine before ++ rest.takeWhile (!isLineBreak ·)

/-- Every line break of a text is a line feed or is ended by one. -/
def FedOnly (text : List Char) : Prop :=
  ∀ i c, text[i]? = some c → isLineBreak c = true →
    c = '\n' ∨ c = '\r' ∧ text[i + 1]? = some '\n'

/-! ### One character more -/

theorem lines_cons_break {c : Char} (hc : isLineBreak c = true)
    (h : ¬ (c = '\r' ∧ ∃ text, rest = '\n' :: text)) : lines (c :: rest) = [] :: lines rest := by
  rw [lines, if_pos hc]
  rintro text rfl rfl
  exact h ⟨rfl, text, rfl⟩

theorem openLine_of_no_break (h : ∀ c ∈ rest, isLineBreak c = false) : openLine rest = rest := by
  rw [openLine, List.takeWhile_eq_self_iff.2, List.reverse_reverse]
  intro c hc
  simp [h c (List.mem_reverse.1 hc)]

theorem openLine_append_of_break (before : List Char) (h : ∃ c ∈ rest, isLineBreak c = true) :
    openLine (before ++ rest) = openLine rest := by
  obtain ⟨c, hc, hbreak⟩ := h
  have hstop : (rest.reverse.takeWhile (!isLineBreak ·)).length ≠ rest.reverse.length := by
    intro heq
    have hall := (List.takeWhile_prefix _).eq_of_length heq
    have hne := List.mem_takeWhile_imp (hall ▸ List.mem_reverse.2 hc)
    simp [hbreak] at hne
  rw [openLine, List.reverse_append, List.takeWhile_append, if_neg hstop, openLine]

/-- Behind a line break a line begins. -/
theorem openLine_cons_break {c : Char} (hc : isLineBreak c = true) :
    openLine (c :: rest) = openLine rest := by
  by_cases h : ∃ d ∈ rest, isLineBreak d = true
  · exact openLine_append_of_break [c] h
  · have hnone : ∀ d ∈ rest, isLineBreak d = false := by
      intro d hd
      exact eq_false_of_ne_true fun hbreak => h ⟨d, hd, hbreak⟩
    have hall : rest.reverse.takeWhile (!isLineBreak ·) = rest.reverse := by
      rw [List.takeWhile_eq_self_iff]
      intro d hd
      simp [hnone d (List.mem_reverse.1 hd)]
    rw [openLine_of_no_break hnone, openLine, List.reverse_cons, List.takeWhile_append, hall]
    simp [hc]

theorem breaks_eq_zero_iff : breaks rest = 0 ↔ ∀ c ∈ rest, isLineBreak c = false := by
  fun_induction breaks rest with
  | case1 => simp
  | case2 rest ih =>
    constructor
    · intro h
      omega
    · intro h
      have hfalse := h '\n' (by simp)
      simp [isLineBreak] at hfalse
  | case3 c rest _ hbreak ih => simp [hbreak]
  | case4 c rest _ hbreak ih => simp [hbreak, ih]

/-! ### The line that holds a place -/

theorem exists_lines_eq {c : Char} (hc : isLineBreak c = false) (text : List Char) :
    ∃ more, lines (c :: text) = (c :: text).takeWhile (!isLineBreak ·) :: more := by
  induction text generalizing c with
  | nil => exact ⟨[], by simp [lines_cons hc, hc]⟩
  | cons d text ih =>
    rw [lines_cons hc, List.takeWhile_cons_of_pos (by simp [hc])]
    by_cases hd : isLineBreak d = true
    · have hempty : ∃ more, lines (d :: text) = [] :: more := by
        by_cases hreturn : d = '\r' ∧ ∃ text', text = '\n' :: text'
        · obtain ⟨rfl, text', rfl⟩ := hreturn
          exact ⟨_, lines_return_feed text'⟩
        · exact ⟨_, lines_cons_break hd hreturn⟩
      obtain ⟨more, hmore⟩ := hempty
      exact ⟨more, by rw [hmore, consLine_cons, List.takeWhile_cons_of_neg (by simp [hd])]⟩
    · obtain ⟨more, hmore⟩ := ih (eq_false_of_ne_true hd)
      exact ⟨more, by rw [hmore, consLine_cons]⟩

/-- Before the line that holds a place there are as many as there are breaks before the place. -/
theorem lines_append {line : List Char} {more : List (List Char)}
    (hrest : lines rest = line :: more) (hfeed : rest.head? ≠ some '\n') (before : List Char) :
    ∃ earlier, earlier.length = breaks before ∧
      lines (before ++ rest) = earlier ++ (openLine before ++ line) :: more := by
  fun_induction breaks before with
  | case1 => exact ⟨[], rfl, by simp [hrest, openLine]⟩
  | case2 before ih =>
    obtain ⟨earlier, hlength, hlines⟩ := ih
    refine ⟨[] :: earlier, by simp [hlength], ?_⟩
    have hopen : openLine ('\r' :: '\n' :: before) = openLine before := by
      rw [openLine_cons_break rfl, openLine_cons_break rfl]
    rw [List.cons_append, List.cons_append, lines_return_feed, hlines, hopen]
    rfl
  | case3 c before hreturn hbreak ih =>
    obtain ⟨earlier, hlength, hlines⟩ := ih
    refine ⟨[] :: earlier, by simp [hlength], ?_⟩
    have hcase : ¬ (c = '\r' ∧ ∃ text, before ++ rest = '\n' :: text) := by
      rintro ⟨rfl, text, htext⟩
      cases before with
      | nil => exact hfeed (by simp_all)
      | cons d before =>
        cases htext
        exact hreturn before rfl rfl
    rw [List.cons_append, lines_cons_break hbreak hcase, hlines, openLine_cons_break hbreak]
    rfl
  | case4 c before _ hbreak ih =>
    obtain ⟨earlier, hlength, hlines⟩ := ih
    have hc := eq_false_of_ne_true hbreak
    rw [List.cons_append, lines_cons hc, hlines]
    cases earlier with
    | nil =>
      have hnone := breaks_eq_zero_iff.1 hlength.symm
      refine ⟨[], hlength, ?_⟩
      rw [openLine_of_no_break hnone, openLine_of_no_break (by simpa [hc] using hnone)]
      rfl
    | cons first earlier =>
      have hsome : ∃ d ∈ before, isLineBreak d = true := by
        by_contra hnone
        have hzero := breaks_eq_zero_iff.2 fun d hd =>
          eq_false_of_ne_true fun hd' => hnone ⟨d, hd, hd'⟩
        rw [hzero] at hlength
        cases hlength
      refine ⟨(c :: first) :: earlier, hlength, ?_⟩
      rw [show c :: before = [c] ++ before from rfl, openLine_append_of_break [c] hsome]
      rfl

/-- The line that holds a place. -/
theorem getElem?_lines {c : Char} (hc : isLineBreak c = false) (before text : List Char) :
    (lines (before ++ c :: text))[breaks before]? = some (lineAround before (c :: text)) := by
  obtain ⟨more, hmore⟩ := exists_lines_eq hc text
  have hfeed : (c :: text).head? ≠ some '\n' := by
    rintro ⟨⟩
    simp [isLineBreak] at hc
  obtain ⟨earlier, hlength, hlines⟩ := lines_append hmore hfeed before
  rw [hlines, ← hlength, List.getElem?_append_right le_rfl, Nat.sub_self]
  rfl

/-! ### Line feeds -/

/-- Line feeds end lines, and so do others. -/
theorem count_le_breaks (text : List Char) : text.count '\n' ≤ breaks text := by
  fun_induction breaks text with
  | case1 => exact le_rfl
  | case2 rest ih => simpa using ih
  | case3 c rest _ _ ih =>
    have hle := List.count_le_length (a := '\n') (l := [c])
    rw [List.length_singleton] at hle
    rw [show c :: rest = [c] ++ rest from rfl, List.count_append]
    omega
  | case4 c rest _ hbreak ih =>
    have hc : c ≠ '\n' := by rintro rfl; exact hbreak rfl
    rwa [List.count_cons_of_ne hc]

theorem FedOnly.tail {c : Char} (h : FedOnly (c :: rest)) : FedOnly rest :=
  fun i d hd hbreak => h (i + 1) d hd hbreak

theorem fedOnly_cons {c : Char} : FedOnly (c :: rest) ↔
    (isLineBreak c = true → c = '\n' ∨ c = '\r' ∧ rest[0]? = some '\n') ∧ FedOnly rest := by
  constructor
  · intro h
    exact ⟨fun hbreak => h 0 c rfl hbreak, h.tail⟩
  · rintro ⟨hhead, htail⟩ i d hd hbreak
    cases i with
    | zero =>
      cases hd
      exact hhead hbreak
    | succ i => exact htail i d hd hbreak

/-- Just where every line break ends in a line feed, both counts agree. -/
theorem breaks_eq_count_iff (text : List Char) : breaks text = text.count '\n' ↔ FedOnly text := by
  fun_induction breaks text with
  | case1 => simp [FedOnly]
  | case2 rest ih =>
    simp [fedOnly_cons, ih]
  | case3 c rest hreturn hbreak ih =>
    have hle := count_le_breaks rest
    have hnot : ¬ (c = '\r' ∧ rest[0]? = some '\n') := by
      rintro ⟨rfl, hfeed⟩
      cases rest with
      | nil => cases hfeed
      | cons d rest =>
        cases hfeed
        exact hreturn rest rfl rfl
    by_cases hc : c = '\n'
    · subst hc
      simp [fedOnly_cons, ih]
    · rw [List.count_cons_of_ne hc, fedOnly_cons]
      constructor
      · intro h
        omega
      · rintro ⟨hhead, -⟩
        rcases hhead hbreak with h | h
        · exact absurd h hc
        · exact absurd h hnot
  | case4 c rest _ hbreak ih =>
    have hc : c ≠ '\n' := by rintro rfl; exact hbreak rfl
    rw [List.count_cons_of_ne hc, fedOnly_cons, ih]
    simp [hbreak]

theorem FedOnly.mem_feed (h : FedOnly rest) (hbreak : ∃ c ∈ rest, isLineBreak c = true) :
    '\n' ∈ rest := by
  obtain ⟨c, hc, hc'⟩ := hbreak
  obtain ⟨i, hi⟩ := List.mem_iff_getElem?.1 hc
  rcases h i c hi hc' with rfl | ⟨-, hfeed⟩
  · exact hc
  · exact List.mem_of_getElem? hfeed

/-- Where every line break ends in a line feed, the line begins behind the last line feed. -/
theorem FedOnly.openLine_eq {text : List Char} (h : FedOnly text) :
    openLine text = Place.lastLine text := by
  induction text with
  | nil => rfl
  | cons c text ih =>
    have hsplit : c :: text = [c] ++ text := rfl
    by_cases hbreak : ∃ d ∈ text, isLineBreak d = true
    · rw [hsplit, openLine_append_of_break _ hbreak,
        Place.lastLine_append_of_mem _ (h.tail.mem_feed hbreak), ih h.tail]
    · have hnone : ∀ d ∈ text, isLineBreak d = false := fun d hd =>
        eq_false_of_ne_true fun hd' => hbreak ⟨d, hd, hd'⟩
      have hfeed : '\n' ∉ text := fun hmem => absurd (hnone _ hmem) (by decide)
      rw [hsplit, Place.lastLine_append_of_not_mem _ hfeed, ← hsplit]
      by_cases hc : isLineBreak c = true
      · have hc' : c = '\n' := by
          rcases (fedOnly_cons.1 h).1 hc with hc' | ⟨-, hnext⟩
          · exact hc'
          · exact absurd (List.mem_of_getElem? hnext) hfeed
        rw [openLine_cons_break hc, openLine_of_no_break hnone, hc']
        rfl
      · have hc' : c ≠ '\n' := by rintro rfl; exact hc rfl
        rw [openLine_of_no_break (by simpa [hc] using hnone)]
        simp [Place.lastLine, hc']

end SeedGrowth.Text
