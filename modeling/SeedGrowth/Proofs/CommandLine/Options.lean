import Mathlib.Data.List.Basic
import SeedGrowth.CommandLine.Command
import SeedGrowth.Proofs.Program

/-!
# Rows of options

A row of options asks to be quiet or verbose, by letters behind one hyphen or by names behind
two, and perhaps for a capacity. All of its words are recognised, whatever spellings are
abbreviated and which letters are written together, and what follows the row is read as if the
row had been carried out before.
-/
namespace SeedGrowth.CommandLine

/-! ### What rows are made of -/

/-- The options that take no value, apart from help. -/
inductive Toggle where
  | quiet
  | verbose
deriving DecidableEq

namespace Toggle

def switch : Toggle → Switch
  | quiet => .quiet
  | verbose => .verbose

def letter : Toggle → Char
  | quiet => 'q'
  | verbose => 'v'

def name : Toggle → String
  | quiet => "quiet"
  | verbose => "verbose"

end Toggle

/-- A name behind two hyphens, cut off behind the first characters; one is kept at least. -/
def abbreviated (name : String) (kept : Nat) : String :=
  String.ofList ('-' :: '-' :: name.toList.take (kept + 1))

/-- A word that asks for options without a value. -/
inductive Asked where
  | letters (first : Toggle) (rest : List Toggle)
  | named (toggle : Toggle) (kept : Fin toggle.name.length)

namespace Asked

/-- What the word asks for, in order. -/
def toggles : Asked → List Toggle
  | letters first rest => first :: rest
  | named toggle _ => [toggle]

/-- The word. -/
def word : Asked → String
  | letters first rest => String.ofList ('-' :: first.letter :: rest.map Toggle.letter)
  | named toggle kept => abbreviated toggle.name kept

end Asked

/-- A capacity that is asked for by a text, which is attached or a word of its own. -/
structure AskedCapacity where
  kept : Fin "capacity".length
  attached : Bool
  text : String

/-- The words that ask for the capacity. -/
def AskedCapacity.words (asked : AskedCapacity) : List String :=
  if asked.attached then
    [String.ofList ((abbreviated "capacity" asked.kept).toList ++ '=' :: asked.text.toList)]
  else [abbreviated "capacity" asked.kept, asked.text]

/-- A row of options, one of which may be a capacity. -/
structure Row where
  ahead : List Asked
  capacity : Option AskedCapacity
  behind : List Asked

namespace Row

def words (row : Row) : List String :=
  row.ahead.map Asked.word ++ ((row.capacity.map AskedCapacity.words).getD [] ++
    row.behind.map Asked.word)

/-- What the row asks for besides a capacity. -/
def toggles (row : Row) : List Toggle := (row.ahead ++ row.behind).flatMap Asked.toggles

/-- The row asks to be quiet. -/
def quiet (row : Row) : Bool := row.toggles.contains .quiet

/-- How often the row asks to be verbose. -/
def verbosity (row : Row) : Nat := row.toggles.count .verbose

end Row

/-! ### Single words -/

/-- The option that a word is found to be. -/
def found? : Except Ending Word → Option (Switch × Bool × Option String × Bool)
  | .ok (.option found) => some (found.switch, found.short, found.attached, found.joined)
  | _ => none

theorem found?_eq_some {word : Except Ending Word} {switch : Switch} {short : Bool}
    {attached : Option String} {joined : Bool}
    (h : found? word = some (switch, short, attached, joined)) :
    word = .ok (.option ⟨switch, short, attached, joined⟩) := by
  unfold found? at h
  split at h
  · cases h
    rfl
  · cases h

theorem startsHyphen_iff (text : String) : "-".isPrefixOf text = true ↔ ['-'] <+: text.toList := by
  simp [String.isPrefixOf]

/-- Names without a sign of equality stand alone before one. -/
theorem splitAtEquals_append {name text : List Char} (h : '=' ∉ name) :
    splitAtEquals (String.ofList (name ++ '=' :: text)) =
      (String.ofList name, some (String.ofList text)) := by
  have htake : (name ++ '=' :: text).takeWhile (· ≠ '=') = name := by
    rw [List.takeWhile_append_of_pos fun c hc => by simpa using ne_of_mem_of_not_mem hc h]
    simp
  simp only [splitAtEquals, String.toList_ofList, htake, List.drop_left]

theorem splitAtEquals_self {text : List Char} (h : '=' ∉ text) :
    splitAtEquals (String.ofList text) = (String.ofList text, none) := by
  have htake : text.takeWhile (· ≠ '=') = text := by
    have happend : (text ++ []).takeWhile (· ≠ '=') = text ++ [].takeWhile (· ≠ '=') :=
      List.takeWhile_append_of_pos fun c hc => by simpa using ne_of_mem_of_not_mem hc h
    simpa using happend
  simp only [splitAtEquals, String.toList_ofList, htake, List.drop_length]

/-- A text with a character that is in no spelling is no spelling. -/
theorem find?_eq_none {text : String}
    (h : ∀ spelling ∈ Switch.spellings.map Prod.fst, text ≠ spelling) :
    Switch.find? text = none := by
  rw [Switch.find?, List.lookup_eq_none_iff]
  intro pair hpair
  simpa using h pair.1 (List.mem_map_of_mem hpair)

namespace Toggle

theorem find?_letter (toggle : Toggle) :
    Switch.find? (String.ofList ['-', toggle.letter]) = some toggle.switch := by
  cases toggle <;> decide +kernel

theorem letter_ne (toggle : Toggle) : toggle.letter ≠ '-' ∧ toggle.letter ≠ '=' := by
  cases toggle <;> decide

/-- Letters that are written together ask for one option after the other. -/
theorem clusterTail_eq (release : Release) (toggle : Toggle) (rest : List Toggle) :
    clusterTail release toggle.switch (rest.map letter) =
      .ok ⟨(toggle :: rest).map switch, none, none⟩ := by
  induction rest generalizing toggle with
  | nil => rfl
  | cons next rest ih =>
    have htakes : next.switch.takesValue = false := by cases next <;> rfl
    rw [List.map_cons, clusterTail, find?_letter]
    dsimp only
    rw [htakes, if_neg Bool.false_ne_true, ih next]
    rfl

end Toggle

/-- A beginning of a name is recognised. -/
theorem classify_abbreviated (toggle : Toggle) (kept : Fin toggle.name.length) :
    classify (abbreviated toggle.name kept) =
      .ok (.option ⟨toggle.switch, false, none, false⟩) := by
  apply found?_eq_some
  revert kept
  cases toggle <;> decide +kernel

/-- A letter that stands for a switch is the only spelling of it with one hyphen. -/
theorem filter_letter (toggle : Toggle) :
    (Switch.spellings.filter fun (spelling, _) => spelling = String.ofList ['-', toggle.letter]) =
      [(String.ofList ['-', toggle.letter], toggle.switch)] := by
  cases toggle <;> decide +kernel

/-- Letters are recognised, the first one as the option and the others as attached to it. -/
theorem classify_letters (first : Toggle) (rest : List Toggle) (h : rest ≠ []) :
    classify (Asked.letters first rest).word =
      .ok (.option ⟨first.switch, true, some (String.ofList (rest.map Toggle.letter)), false⟩) := by
  obtain ⟨next, rest, rfl⟩ := List.exists_cons_of_ne_nil h
  let text := '-' :: first.letter :: (next :: rest).map Toggle.letter
  obtain ⟨hhyphen, hequals⟩ := first.letter_ne
  have hnone : Switch.find? (String.ofList text) = none := by
    refine find?_eq_none fun spelling hmem heq => ?_
    -- The spellings of more than two characters have a second hyphen.
    have hsecond : ∀ spelling ∈ Switch.spellings.map Prod.fst,
        spelling.toList.length ≤ 2 ∨ spelling.toList[1]? = some '-' := by decide +kernel
    rcases hsecond spelling hmem with hlength | hsecond
    · rw [← heq, String.toList_ofList] at hlength
      simp [text] at hlength
    · rw [← heq, String.toList_ofList] at hsecond
      exact hhyphen (Option.some.inj hsecond)
  have hfree : '=' ∉ text := by
    simp only [text, List.mem_cons, List.mem_map, not_or, not_exists, not_and]
    refine ⟨by decide, hequals.symm, fun toggle _ => toggle.letter_ne.2⟩
  have hstarts : "-".isPrefixOf (String.ofList text) = true := by
    rw [startsHyphen_iff, String.toList_ofList]
    exact ⟨_, rfl⟩
  have hlong : String.ofList text ≠ "-" := by
    intro heq
    have hlength := congrArg (fun s : String => s.toList.length) heq
    simp [text] at hlength
  have hcandidates : candidates (String.ofList text) =
      [(String.ofList ['-', first.letter],
        ⟨first.switch, true, some (String.ofList ((next :: rest).map Toggle.letter)), false⟩)] := by
    simp only [candidates, String.toList_ofList, text]
    split
    · next heq => exact absurd (List.cons.inj (List.cons.inj heq).2).1 hhyphen
    · next heq =>
      cases heq
      rw [filter_letter]
      rfl
    · next hne => exact absurd rfl (hne _ _ _)
  change classify (String.ofList text) = _
  rw [classify, hstarts, hnone]
  simp only [Bool.not_true, Bool.false_eq_true, if_false, if_neg hlong]
  rw [findBeforeEquals, splitAtEquals_self hfree, hcandidates]

/-- The name of the capacity is recognised from its first character on. -/
theorem classify_capacity (kept : Fin "capacity".length) :
    classify (abbreviated "capacity" kept) = .ok (.option ⟨.capacity, false, none, false⟩) := by
  apply found?_eq_some
  revert kept
  decide +kernel

/-- A full name is found as it is, the beginning of one among those that begin with it. -/
theorem spellings_capacity (kept : Fin "capacity".length) :
    (Switch.find? (abbreviated "capacity" kept) = some .capacity ∧
      isShort (abbreviated "capacity" kept) = false) ∨
    (Switch.find? (abbreviated "capacity" kept) = none ∧
      (Switch.spellings.filter fun (spelling, _) =>
        (abbreviated "capacity" kept).isPrefixOf spelling) = [("--capacity", .capacity)]) := by
  revert kept
  decide +kernel

/-- What has two hyphens and a text attached may be short for the names that begin so. -/
theorem candidates_attached {word name text : String} {tail : List Char}
    (hword : word.toList = '-' :: '-' :: tail) (hsplit : splitAtEquals word = (name, some text)) :
    candidates word = (Switch.spellings.filter fun (spelling, _) =>
      name.isPrefixOf spelling).map fun (spelling, switch) =>
        (spelling, ⟨switch, false, some text, true⟩) := by
  rw [candidates, hword]
  dsimp only
  rw [hsplit]
  rfl

/-- A text attached to the name of the capacity is taken off. -/
theorem classify_attached (kept : Fin "capacity".length) (text : String) :
    classify (String.ofList ((abbreviated "capacity" kept).toList ++ '=' :: text.toList)) =
      .ok (.option ⟨.capacity, false, some text, true⟩) := by
  let name := abbreviated "capacity" kept
  have hfree : ∀ kept : Fin "capacity".length,
      '=' ∉ (abbreviated "capacity" kept).toList := by decide +kernel
  have hsplit : splitAtEquals (String.ofList (name.toList ++ '=' :: text.toList)) =
      (String.ofList name.toList, some (String.ofList text.toList)) :=
    splitAtEquals_append (hfree kept)
  rw [String.ofList_toList, String.ofList_toList] at hsplit
  let word := String.ofList (name.toList ++ '=' :: text.toList)
  have hequals : '=' ∈ word.toList := by simp [word]
  have hnone : Switch.find? word = none := by
    refine find?_eq_none fun spelling hmem heq => ?_
    have hfree : ∀ spelling ∈ Switch.spellings.map Prod.fst, '=' ∉ spelling.toList := by
      decide +kernel
    exact hfree spelling hmem (heq ▸ hequals)
  obtain ⟨tail, htail⟩ : ∃ tail, name.toList = '-' :: '-' :: tail :=
    ⟨_, String.toList_ofList⟩
  have hword : word.toList = '-' :: '-' :: (tail ++ '=' :: text.toList) := by simp [word, htail]
  have hstarts : "-".isPrefixOf word = true := by
    rw [startsHyphen_iff, hword]
    exact ⟨_, rfl⟩
  have hlong : word ≠ "-" := by
    intro heq
    rw [heq] at hequals
    exact absurd hequals (by decide)
  have hcandidates := candidates_attached hword hsplit
  change classify word = _
  rw [classify, hstarts, hnone]
  simp only [Bool.not_true, Bool.false_eq_true, if_false, if_neg hlong]
  rw [findBeforeEquals, hsplit]
  rcases spellings_capacity kept with ⟨hfind, hshort⟩ | ⟨hfind, hfilter⟩
  · have hfind : Switch.find? name = some .capacity := hfind
    have hshort : isShort name = false := hshort
    simp only [hfind, Option.map_some, hshort]
  · have hfind : Switch.find? name = none := hfind
    simp only [hfind, Option.map_none]
    rw [hcandidates, hfilter]
    rfl

/-- A word that is no operand makes no sense behind an option that has a value to come. -/
theorem classify_cases (text : String) : classify text = .ok (.operand text) ∨
    (∃ found, classify text = .ok (.option found)) ∨ classify text = .ok (.unknown text) ∨
      ∃ message, classify text = .error (.usage message) := by
  unfold classify
  split
  · exact .inl rfl
  · split
    · exact .inr (.inl ⟨_, rfl⟩)
    · split
      · exact .inl rfl
      · split
        · exact .inr (.inl ⟨_, rfl⟩)
        · split
          · exact .inr (.inl ⟨_, rfl⟩)
          · exact .inr (.inr (.inr ⟨_, rfl⟩))
          · split
            · exact .inl rfl
            · exact .inr (.inr (.inl rfl))

/-! ### Rows of words -/

/-- Reads words when others have been read before. -/
def readOn (release : Release) (progress : Progress) (words : List String) :
    Except Ending Progress := do
  consume release (← classifyAll words) progress

/-- What is asked for is noted. -/
def Progress.asked (progress : Progress) (toggles : List Toggle) : Progress :=
  { progress with settings := { progress.settings with
      quiet := progress.settings.quiet || toggles.contains .quiet,
      verbose := progress.settings.verbose + toggles.count .verbose } }

theorem Progress.asked_nil (progress : Progress) : progress.asked [] = progress := by
  simp [asked]

theorem Progress.asked_append (progress : Progress) (toggles toggles' : List Toggle) :
    (progress.asked toggles).asked toggles' = progress.asked (toggles ++ toggles') := by
  simp [asked, Bool.or_assoc, Nat.add_assoc]

theorem foldlM_setPlain (progress : Progress) (toggles : List Toggle) :
    (toggles.map Toggle.switch).foldlM Progress.setPlain progress =
      .ok (progress.asked toggles) := by
  induction toggles generalizing progress with
  | nil => rw [Progress.asked_nil]; rfl
  | cons toggle rest ih =>
    have hset : progress.setPlain toggle.switch = .ok (progress.asked [toggle]) := by
      cases toggle <;> simp [Progress.setPlain, Toggle.switch, Progress.asked]
    rw [List.map_cons, List.foldlM_cons, hset, ok_bind, ih, Progress.asked_append]
    rfl

theorem classifyAll_cons {text : String} (h : text ≠ "--") (rest : List String) :
    classifyAll (text :: rest) =
      (do return (← classify text) :: (← classifyAll rest) : Except Ending (List Word)) := by
  rw [classifyAll, if_neg h]

/-- The separator is no option, since it begins more than one name. -/
theorem ne_separator {text : String} {found : Found} (h : classify text = .ok (.option found)) :
    text ≠ "--" := by
  rintro rfl
  have hambiguous : found? (classify "--") = none := by decide +kernel
  rw [h] at hambiguous
  cases hambiguous

/-- A word that asks for options is recognised as these. -/
theorem Asked.exists_found (asked : Asked) : ∃ found, classify asked.word = .ok (.option found) ∧
    ∀ release, found.cluster release = .ok ⟨asked.toggles.map Toggle.switch, none, none⟩ := by
  cases asked with
  | letters first others =>
    by_cases hothers : others = []
    · subst hothers
      refine ⟨⟨first.switch, true, none, false⟩, found?_eq_some ?_, ?_⟩
      · cases first <;> decide +kernel
      · intro release
        cases first <;> rfl
    · refine ⟨_, classify_letters first others hothers, ?_⟩
      have htakes : first.switch.takesValue = false := by cases first <;> rfl
      have hne : String.ofList (others.map Toggle.letter) ≠ "" := by
        intro heq
        have hlength := congrArg String.length heq
        simp [hothers] at hlength
      intro release
      rw [Found.cluster]
      simp only [htakes, Bool.false_eq_true, if_false]
      rw [if_pos ⟨trivial, hne, False.elim⟩, String.toList_ofList]
      exact first.clusterTail_eq release others
  | named toggle kept =>
    refine ⟨_, classify_abbreviated toggle kept, fun release => ?_⟩
    cases toggle <;> rfl

theorem exists_classifyAll_asked (row : List Asked) {rest : List String} {words : List Word}
    (h : classifyAll rest = .ok words) :
    ∃ words', classifyAll (row.map Asked.word ++ rest) = .ok words' := by
  induction row with
  | nil => exact ⟨words, h⟩
  | cons asked row ih =>
    obtain ⟨words', hrow⟩ := ih
    obtain ⟨found, hclassify, -⟩ := asked.exists_found
    refine ⟨.option found :: words', ?_⟩
    rw [List.map_cons, List.cons_append, classifyAll_cons (ne_separator hclassify), hclassify, hrow]
    rfl

/-- A word that asks for options is carried out where it stands. -/
theorem readOn_asked (release : Release) (progress : Progress) (asked : Asked)
    (rest : List String) : readOn release progress (asked.word :: rest) =
      readOn release (progress.asked asked.toggles) rest := by
  obtain ⟨found, hclassify, hcluster⟩ := asked.exists_found
  rw [readOn, readOn, classifyAll_cons (ne_separator hclassify), hclassify]
  cases classifyAll rest with
  | error ending => rfl
  | ok words =>
    simp only [ok_bind, pure, Except.pure]
    rw [consume, hcluster release]
    simp only [ok_bind, foldlM_setPlain, Option.elim_none]

theorem readOn_map_asked (release : Release) (progress : Progress) (row : List Asked)
    (rest : List String) : readOn release progress (row.map Asked.word ++ rest) =
      readOn release (progress.asked (row.flatMap Asked.toggles)) rest := by
  induction row generalizing progress with
  | nil => rw [List.map_nil, List.flatMap_nil, Progress.asked_nil]; rfl
  | cons asked row ih =>
    rw [List.map_cons, List.cons_append, readOn_asked, ih, Progress.asked_append,
      List.flatMap_cons]

end SeedGrowth.CommandLine
