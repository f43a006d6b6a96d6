import SeedGrowth.Value.Conversion

/-!
# Options

A command line is a row of words. First every word is classified by itself: an
option, perhaps with a value attached, the separator, or an operand. Then the
words are gone through from the front. Options can be abbreviated to any unique
beginning, short options can be written together, and a value is attached with a
sign of equality or follows as the next operand. Negative numbers, and words with
a space in them, are operands although they begin with a hyphen, and all words
after the separator are. Releases of the reader differ in what they make of texts
that are attached.
-/
namespace SeedGrowth.CommandLine

/-- The releases of the reader of options. -/
inductive Release where
  /-- An attached separator is dropped, and letters are taken for options behind a
  sign of equality, too. -/
  | earlier
  /-- An attached separator is a text like others. Letters behind an option that are
  no options mean nothing, instead of being a wrong use. -/
  | later
deriving DecidableEq

/-- The options there are. -/
inductive Switch where
  | help
  | quiet
  | verbose
  | capacity
deriving DecidableEq

namespace Switch

/-- All spellings of all options. -/
def spellings : List (String × Switch) :=
  [("-h", help), ("--help", help), ("-q", quiet), ("--quiet", quiet), ("-v", verbose),
   ("--verbose", verbose), ("--capacity", capacity)]

/-- The option with a spelling. -/
def find? (spelling : String) : Option Switch := spellings.lookup spelling

/-- An option as messages name it, by all its spellings. -/
def label (switch : Switch) : String :=
  "/".intercalate ((spellings.filter (·.2 = switch)).map (·.1))

/-- The option has a value. -/
def takesValue : Switch → Bool
  | capacity => true
  | _ => false

end Switch

/-- An option that was recognised in a word. -/
structure Found where
  switch : Switch
  /-- It is spelt with one hyphen. -/
  short : Bool
  /-- The text attached to it. -/
  attached : Option String
  /-- A sign of equality stands before that text. -/
  joined : Bool

/-- A classified word. -/
inductive Word where
  | operand (text : String)
  | separator
  | option (found : Found)
  /-- It looks like an option, but there is none such. -/
  | unknown (text : String)

/-- Why a command line is not carried out. -/
inductive Ending where
  /-- Help was asked for. -/
  | help
  | usage (message : String)

/-- A text up to its first sign of equality, and what follows that. -/
def splitAtEquals (text : String) : String × Option String :=
  let name := text.toList.takeWhile (· ≠ '=')
  match text.toList.drop name.length with
  | [] => (text, none)
  | _ :: rest => (String.ofList name, some (String.ofList rest))

/-- A text is a number below zero: a hyphen and digits, or digits after a point.
A line feed may follow it. -/
def isNegativeNumber (text : String) : Bool :=
  match text.toList with
  | '-' :: rest =>
    let rest := if rest.getLast? = some '\n' then rest.dropLast else rest
    match rest.dropWhile Text.isDecimalDigit with
    | [] => !rest.isEmpty
    | '.' :: places => !places.isEmpty && places.all Text.isDecimalDigit
    | _ => false
  | _ => false

/-- The options that a word may be an abbreviation of, by their spellings. -/
def candidates (text : String) : List (String × Found) :=
  match text.toList with
  | '-' :: '-' :: _ =>
    let (name, attached) := splitAtEquals text
    (Switch.spellings.filter fun (spelling, _) => name.isPrefixOf spelling).map
      fun (spelling, switch) => (spelling, ⟨switch, false, attached, attached.isSome⟩)
  | hyphen :: letter :: rest =>
    let short := String.ofList [hyphen, letter]
    (Switch.spellings.filter fun (spelling, _) => spelling = short).map
      fun (spelling, switch) => (spelling, ⟨switch, true, some (String.ofList rest), false⟩)
  | _ => []

/-- An option with one hyphen. -/
def isShort (spelling : String) : Bool := !"--".isPrefixOf spelling

/-- The option whose full spelling stands before a sign of equality. -/
def findBeforeEquals (text : String) : Option Found :=
  match splitAtEquals text with
  | (name, some value) => (Switch.find? name).map (⟨·, isShort name, some value, true⟩)
  | (_, none) => none

/-- Classifies a word that is not the separator. -/
def classify (text : String) : Except Ending Word :=
  if !"-".isPrefixOf text then .ok (.operand text)
  else
    match Switch.find? text with
    | some switch => .ok (.option ⟨switch, isShort text, none, false⟩)
    | none =>
      if text = "-" then .ok (.operand text)
      else
        match findBeforeEquals text with
        | some found => .ok (.option found)
        | none =>
          match candidates text with
          | [(_, found)] => .ok (.option found)
          | _ :: _ :: _ =>
            let spellings := ", ".intercalate ((candidates text).map (·.1))
            .error (.usage s!"ambiguous option: {text} could match {spellings}")
          | [] =>
            if isNegativeNumber text ∨ ' ' ∈ text.toList then .ok (.operand text)
            else .ok (.unknown text)

/-- Classifies all words; those after the separator are operands. -/
def classifyAll : List String → Except Ending (List Word)
  | [] => .ok []
  | text :: rest =>
    if text = "--" then .ok (.separator :: rest.map .operand)
    else do return (← classify text) :: (← classifyAll rest)

/-- What was asked for. -/
structure Settings where
  quiet : Bool
  /-- How often more output was asked for. -/
  verbose : Nat
  capacity : Value
  expression : Option String

/-- How far a command line has been read. -/
structure Progress where
  settings : Settings
  /-- The operand there is room for has been read. -/
  filled : Bool
  /-- Words that mean nothing, the latest first. -/
  extras : List String

/-- Nothing has been read. -/
def Progress.begin : Progress := ⟨⟨false, 0, .int 64, none⟩, false, []⟩

/-- An error in the use of an option. -/
def misuse (switch : Switch) (message : String) : Ending :=
  .usage s!"argument {switch.label}: {message}"

/-- An option takes no value, but one is attached. -/
def ignored (switch : Switch) (text : List Char) : Ending :=
  misuse switch ("ignored explicit argument " ++ Text.quoteString (String.ofList text))

/-- The options in one word. -/
structure Cluster where
  /-- Options without a value, in order. -/
  plain : List Switch
  /-- An option with a value, which is attached or follows. -/
  valued : Option (Switch × Option String)
  /-- Letters that mean nothing, as a word of their own. -/
  stray : Option String

/-- What is made of letters behind an option the first of which is no option. -/
def Release.strayLetters (release : Release) (switch : Switch) (letters : List Char) :
    Except Ending Cluster :=
  if release = .earlier ∨ letters.head? = some '-' then .error (ignored switch letters)
  else if letters.head? = some '=' then .error (ignored switch letters.tail)
  else .ok ⟨[switch], none, some (String.ofList ('-' :: letters))⟩

/-- The value that is attached to a letter, if any. The later release passes over a
sign of equality. -/
def Release.attachedValue (release : Release) (letters : List Char) : Option String :=
  if letters.isEmpty then none
  else if release = .later ∧ letters.head? = some '=' then some (String.ofList letters.tail)
  else some (String.ofList letters)

/-- The short options that are written together with one that takes no value. -/
def clusterTail (release : Release) (switch : Switch) : List Char → Except Ending Cluster
  | [] => .ok ⟨[switch], none, none⟩
  | c :: rest =>
    match Switch.find? (String.ofList ['-', c]) with
    | none => release.strayLetters switch (c :: rest)
    | some next => do
      let tail ←
        if next.takesValue then .ok ⟨[], some (next, release.attachedValue rest), none⟩
        else clusterTail release next rest
      return { tail with plain := switch :: tail.plain }

/-- The options in the word that an option was found in. -/
def Found.cluster (release : Release) (found : Found) : Except Ending Cluster :=
  if found.switch.takesValue then .ok ⟨[], some (found.switch, found.attached), none⟩
  else
    match found.attached with
    | none => .ok ⟨[found.switch], none, none⟩
    | some text =>
      if found.short ∧ text ≠ "" ∧ (found.joined → release = .earlier) then
        clusterTail release found.switch text.toList
      else .error (ignored found.switch text.toList)

/-- Sets an option without a value. -/
def Progress.setPlain (progress : Progress) : Switch → Except Ending Progress
  | .help => .error .help
  | .quiet => .ok { progress with settings := { progress.settings with quiet := true } }
  | .verbose =>
    .ok { progress with
      settings := { progress.settings with verbose := progress.settings.verbose + 1 } }
  | .capacity => .ok progress

/-- The progress with another capacity. -/
def Progress.withCapacity (progress : Progress) (capacity : Value) : Progress :=
  { progress with settings := { progress.settings with capacity } }

/-- Sets an option with a value; the only one there is takes a whole number. In the
earlier release a separator that is attached does not count as a value, and the row of
values that is left is empty. -/
def Progress.setValued (progress : Progress) (release : Release) (switch : Switch)
    (text : String) : Except Ending Progress :=
  if release = .earlier ∧ text = "--" then .ok (progress.withCapacity (.list []))
  else
    match integerOfText text with
    | .ok n => .ok (progress.withCapacity n)
    | .error _ => .error (misuse switch ("invalid int value: " ++ Text.quoteString text))

/-- A word that means nothing. -/
def Progress.extra (progress : Progress) (text : String) : Progress :=
  { progress with extras := text :: progress.extras }

/-- The operand. -/
def Progress.fill (progress : Progress) (text : String) : Progress :=
  { progress with settings := { progress.settings with expression := some text }, filled := true }

/-- The text of a word. -/
def Word.text : Word → String
  | .operand text => text
  | .separator => "--"
  | .option found => found.switch.label
  | .unknown text => text

/-- The word is or looks like an option. -/
def Word.isOption : Word → Bool
  | .option _ | .unknown _ => true
  | _ => false

/-- Reads the words behind the last option. One separator next to the operand is
passed over. -/
def finish (progress : Progress) (words : List Word) : Progress :=
  if progress.filled then words.foldl (fun p word => p.extra word.text) progress
  else
    match words with
    | .operand text :: .separator :: rest | .separator :: .operand text :: rest
    | .operand text :: rest => rest.foldl (fun p word => p.extra word.text) (progress.fill text)
    | .separator :: rest | rest => rest.foldl (fun p word => p.extra word.text) progress

/-- Reads the words from the front. -/
def consume (release : Release) : List Word → Progress → Except Ending Progress
  | [], progress => .ok (finish progress [])
  | .unknown text :: rest, progress => consume release rest (progress.extra text)
  | .option found :: rest, progress => do
    let cluster ← found.cluster release
    match cluster.valued with
    | none => do
      let progress ← cluster.plain.foldlM Progress.setPlain progress
      consume release rest (cluster.stray.elim progress progress.extra)
    | some (switch, some text) => do
      let progress ← cluster.plain.foldlM Progress.setPlain progress
      consume release rest (← progress.setValued release switch text)
    | some (switch, none) =>
      match rest with
      | .operand text :: rest => do
        let progress ← cluster.plain.foldlM Progress.setPlain progress
        consume release rest (← progress.setValued release switch text)
      | _ => .error (misuse switch "expected one argument")
  | word :: rest, progress =>
    if rest.any Word.isOption then
      consume release rest
        (if progress.filled then progress.extra word.text else progress.fill word.text)
    else .ok (finish progress (word :: rest))

/-- What a command line asks for. -/
def Settings.read (release : Release) (arguments : List String) : Except Ending Settings := do
  let progress ← consume release (← classifyAll arguments) .begin
  if progress.extras.isEmpty then return progress.settings
  else
    let extras := " ".intercalate progress.extras.reverse
    .error (.usage s!"unrecognized arguments: {extras}")

end SeedGrowth.CommandLine
