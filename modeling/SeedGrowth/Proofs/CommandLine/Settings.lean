import SeedGrowth.Proofs.CommandLine.Rows

/-!
# Settings that can be read

Whatever a command line is, the settings that are read from it ask for a whole number of flags that
can be written, and for an expression that is a word of it. There is one exception: the earlier
release of the reader takes the separator for a row of values when it is attached to the name of the
capacity.
-/
namespace SeedGrowth.CommandLine

variable {release : Release}

/-! ### Words -/

/-- What is split at a sign of equality is put together again with one. -/
theorem eq_of_splitAtEquals {text name value : String}
    (h : splitAtEquals text = (name, some value)) : text = name ++ "=" ++ value := by
  let before := text.toList.takeWhile (· ≠ '=')
  have hparts : text.toList = before ++ text.toList.dropWhile (· ≠ '=') :=
    List.takeWhile_append_dropWhile.symm
  have hdrop : text.toList.drop before.length = text.toList.dropWhile (· ≠ '=') := by
    conv_lhs => rw [hparts]
    exact List.drop_left
  have hhead := List.head?_dropWhile_not (· ≠ '=') text.toList
  simp only [splitAtEquals, before, hdrop] at h
  split at h
  · cases h
  · next c rest hrest =>
    rw [hrest] at hhead hparts
    obtain rfl : c = '=' := by simpa using hhead
    cases h
    rw [← String.toList_inj]
    simpa [before] using hparts

theorem mem_of_find? {spelling : String} {switch : Switch}
    (h : Switch.find? spelling = some switch) : (spelling, switch) ∈ Switch.spellings := by
  obtain ⟨before, after, hspellings, -⟩ := List.lookup_eq_some_iff.1 h
  simp [hspellings]

/-- There is one spelling for the capacity. -/
theorem eq_of_mem_spellings {spelling : String} (h : (spelling, .capacity) ∈ Switch.spellings) :
    spelling = "--capacity" := by
  have hspellings : ∀ pair ∈ Switch.spellings, pair.2 = .capacity → pair.1 = "--capacity" := by
    decide +kernel
  exact hspellings _ h rfl

/-- A text that only the capacity begins with is an abbreviation of it. -/
theorem exists_abbreviated {name spelling : String}
    (h : (Switch.spellings.filter fun (spelling, _) => name.isPrefixOf spelling) =
      [(spelling, .capacity)]) :
    ∃ kept : Fin "capacity".length, name = abbreviated "capacity" kept := by
  have hmem : (spelling, Switch.capacity) ∈
      Switch.spellings.filter fun (spelling, _) => name.isPrefixOf spelling := by rw [h]; simp
  obtain ⟨hmem, hbegins⟩ := List.mem_filter.1 hmem
  obtain rfl := eq_of_mem_spellings hmem
  have hprefix : name.toList <+: "--capacity".toList := by simpa [String.isPrefixOf] using hbegins
  obtain ⟨n, hn⟩ : ∃ n : Fin ("--capacity".toList.length + 1),
      name = String.ofList ("--capacity".toList.take n) := by
    refine ⟨⟨name.toList.length, Nat.lt_succ_of_le hprefix.length_le⟩, ?_⟩
    rw [← List.prefix_iff_eq_take.1 hprefix, String.ofList_toList]
  have hshort : ∀ n : Fin ("--capacity".toList.length + 1),
      (Switch.spellings.filter fun (spelling, _) =>
        (String.ofList ("--capacity".toList.take n)).isPrefixOf spelling) =
          [("--capacity", .capacity)] →
      ∃ kept : Fin "capacity".length,
        String.ofList ("--capacity".toList.take n) = abbreviated "capacity" kept := by
    decide +kernel
  rw [hn] at h ⊢
  exact hshort n h

/-- What may be the capacity with a text attached, and nothing else, begins as its name does. -/
theorem eq_of_candidates {text spelling value : String} {short joined : Bool}
    (h : candidates text = [(spelling, ⟨.capacity, short, some value, joined⟩)]) :
    ∃ kept : Fin "capacity".length, text = abbreviated "capacity" kept ++ "=" ++ value := by
  unfold candidates at h
  split at h
  · cases hsplit : splitAtEquals text with
    | mk name attached =>
      rw [hsplit] at h
      obtain ⟨⟨spelling, switch⟩, hfilter, hpair⟩ := List.map_eq_singleton_iff.1 h
      cases hpair
      obtain ⟨kept, rfl⟩ := exists_abbreviated hfilter
      exact ⟨kept, eq_of_splitAtEquals hsplit⟩
  · next hyphen letter rest _ _ =>
    obtain ⟨⟨spelling', switch⟩, hfilter, hpair⟩ := List.map_eq_singleton_iff.1 h
    cases hpair
    have hmem : (spelling, Switch.capacity) ∈ Switch.spellings.filter
        fun (spelling, _) => spelling = String.ofList [hyphen, letter] := by
      rw [hfilter]
      exact List.mem_singleton_self _
    obtain ⟨hmem, hshort⟩ := List.mem_filter.1 hmem
    -- One hyphen and a letter are not the spelling of the capacity.
    have hlong := eq_of_mem_spellings hmem
    rw [of_decide_eq_true hshort, ← String.toList_inj, String.toList_ofList] at hlong
    exact absurd (congrArg List.length hlong) (by simp)
  · cases h

/-- Names of the capacity alone are recognised as the capacity with a text attached. -/
theorem eq_of_classify {text value : String} {short joined : Bool}
    (h : classify text = .ok (.option ⟨.capacity, short, some value, joined⟩)) :
    ∃ kept : Fin "capacity".length, text = abbreviated "capacity" kept ++ "=" ++ value := by
  unfold classify at h
  split at h
  · cases h
  split at h
  · cases h
  split at h
  · cases h
  split at h
  · next found hfound =>
    cases h
    unfold findBeforeEquals at hfound
    split at hfound
    · next name value' hsplit =>
      obtain ⟨switch, hfind, hfound⟩ := Option.map_eq_some_iff.1 hfound
      cases hfound
      have hname : name = abbreviated "capacity" (⟨7, by decide +kernel⟩ : Fin "capacity".length) :=
        (eq_of_mem_spellings (mem_of_find? hfind)).trans (by decide +kernel)
      exact ⟨_, hname ▸ eq_of_splitAtEquals hsplit⟩
    · cases hfound
  · split at h
    · next hcandidates =>
      cases h
      exact eq_of_candidates hcandidates
    · cases h
    · split at h <;> cases h

/-! ### Rows of words -/

/-- The separator is attached to the name of the capacity. -/
def SeparatorAttached (arguments : List String) : Prop :=
  ∃ kept : Fin "capacity".length, abbreviated "capacity" kept ++ "=" ++ "--" ∈ arguments

/-- The words come from a command line: those that are no options are words of it, the separator
is attached in it if it is so in them, and the separator is no operand behind an option. -/
structure ComeFrom (arguments : List String) (words : List Word) : Prop where
  text_mem : ∀ word ∈ words, word.isOption = false → word.text ∈ arguments
  attached : ∀ short joined, .option ⟨.capacity, short, some "--", joined⟩ ∈ words →
    SeparatorAttached arguments
  separated : ∀ found, ¬ [.option found, .operand "--"] <:+: words

namespace ComeFrom

variable {arguments : List String} {words : List Word}

theorem tail {word : Word} (h : ComeFrom arguments (word :: words)) : ComeFrom arguments words where
  text_mem word' hmem := h.text_mem word' (List.mem_cons_of_mem _ hmem)
  attached short joined hmem := h.attached short joined (List.mem_cons_of_mem _ hmem)
  separated found hbeside := h.separated found (hbeside.trans (List.suffix_cons word words).isInfix)

/-- A word may be put before others if it does not part an option from the separator. -/
theorem cons {text : String} {word : Word} (hword : classify text = .ok word)
    (hhead : words.head? ≠ some (.operand "--")) (h : ComeFrom arguments words) :
    ComeFrom (text :: arguments) (word :: words) where
  text_mem := by
    intro word' hmem hoption
    rcases List.mem_cons.1 hmem with rfl | hmem
    · rcases classify_cases text with h | ⟨found, h⟩ | h | ⟨message, h⟩ <;>
        rw [hword] at h <;> cases h
      · exact List.mem_cons_self
      · cases hoption
      · cases hoption
    · exact List.mem_cons_of_mem _ (h.text_mem word' hmem hoption)
  attached := by
    intro short joined hmem
    rcases List.mem_cons.1 hmem with rfl | hmem
    · obtain ⟨kept, rfl⟩ := eq_of_classify hword
      exact ⟨kept, List.mem_cons_self⟩
    · obtain ⟨kept, hkept⟩ := h.attached short joined hmem
      exact ⟨kept, List.mem_cons_of_mem _ hkept⟩
  separated := by
    intro found hbeside
    rcases List.infix_cons_iff.1 hbeside with ⟨rest, hrest⟩ | hbeside
    · obtain ⟨-, rfl⟩ := List.cons.inj hrest
      exact hhead rfl
    · exact h.separated found hbeside

end ComeFrom

/-- No word is taken for the separator as an operand, unless a separator is before it. -/
theorem head?_ne_of_classifyAll {arguments : List String} {words : List Word}
    (h : classifyAll arguments = .ok words) : words.head? ≠ some (.operand "--") := by
  cases arguments with
  | nil =>
    cases h
    simp
  | cons text rest =>
    by_cases htext : text = "--"
    · rw [classifyAll, if_pos htext] at h
      cases h
      simp
    · rw [classifyAll_cons htext] at h
      obtain ⟨word, hword, h⟩ := bind_eq_ok.1 h
      obtain ⟨words', -, h⟩ := bind_eq_ok.1 h
      cases h
      rcases classify_cases text with h | ⟨found, h⟩ | h | ⟨message, h⟩ <;>
        rw [hword] at h <;> cases h <;> simp [htext]

theorem comeFrom_of_classifyAll {arguments : List String} {words : List Word}
    (h : classifyAll arguments = .ok words) : ComeFrom arguments words := by
  induction arguments generalizing words with
  | nil =>
    cases h
    exact ⟨nofun, nofun, fun found hbeside => by simp at hbeside⟩
  | cons text rest ih =>
    by_cases htext : text = "--"
    · -- What is behind the separator is no option.
      rw [classifyAll, if_pos htext] at h
      cases h
      have hoption : ∀ found, Word.option found ∉ Word.separator :: rest.map .operand := by simp
      refine ⟨?_, fun short joined hmem => absurd hmem (hoption _), fun found hbeside => ?_⟩
      · intro word hmem _
        rcases List.mem_cons.1 hmem with rfl | hmem
        · exact htext ▸ List.mem_cons_self
        · obtain ⟨text', htext', rfl⟩ := List.mem_map.1 hmem
          exact List.mem_cons_of_mem _ htext'
      · exact hoption found (hbeside.subset List.mem_cons_self)
    · rw [classifyAll_cons htext] at h
      obtain ⟨word, hword, h⟩ := bind_eq_ok.1 h
      obtain ⟨words', hwords', h⟩ := bind_eq_ok.1 h
      cases h
      exact (ih hwords').cons hword (head?_ne_of_classifyAll hwords')

/-! ### Settings -/

theorem writable_of_readInteger {text : List Char} {n : Int}
    (h : Decimal.readInteger text = .ok n) : (Value.int n).writable = true := by
  rw [Value.writable]
  exact decide_eq_true (Decimal.natAbs_readInteger_lt h)

/-- What settings there can be for a command line: the number of flags can be written, unless the
release is the earlier one and the separator is attached, and the expression is a word. -/
structure Settings.Offered (release : Release) (arguments : List String) (settings : Settings) :
    Prop where
  capacity : (∃ n : Int, settings.capacity = .int n ∧ (Value.int n).writable = true) ∨
    release = .earlier ∧ settings.capacity = .list [] ∧ SeparatorAttached arguments
  expression : ∀ text ∈ settings.expression, text ∈ arguments

namespace Settings.Offered

variable {arguments : List String} {progress progress' : Progress}

theorem begin : Progress.begin.settings.Offered release arguments :=
  ⟨.inl ⟨64, rfl, by decide +kernel⟩, nofun⟩

theorem setPlain (h : progress.settings.Offered release arguments) {switch : Switch}
    (hset : progress.setPlain switch = .ok progress') :
    progress'.settings.Offered release arguments := by
  cases switch <;> cases hset
  · exact ⟨h.capacity, h.expression⟩
  · exact ⟨h.capacity, h.expression⟩
  · exact h

theorem foldlM_setPlain (h : progress.settings.Offered release arguments) {switches : List Switch}
    (hset : switches.foldlM Progress.setPlain progress = .ok progress') :
    progress'.settings.Offered release arguments := by
  induction switches generalizing progress with
  | nil =>
    cases hset
    exact h
  | cons switch rest ih =>
    rw [List.foldlM_cons] at hset
    obtain ⟨next, hnext, hset⟩ := bind_eq_ok.1 hset
    exact ih (h.setPlain hnext) hset

theorem setValued (h : progress.settings.Offered release arguments) {switch : Switch}
    {text : String}
    (htext : text = "--" → SeparatorAttached arguments)
    (hset : progress.setValued release switch text = .ok progress') :
    progress'.settings.Offered release arguments := by
  unfold Progress.setValued at hset
  split at hset
  · next hseparator =>
    cases hset
    exact ⟨.inr ⟨hseparator.1, rfl, htext hseparator.2⟩, h.expression⟩
  · split at hset
    · next v hread =>
      cases hset
      obtain ⟨n, rfl, hdigits⟩ := integerOfText_eq_ok hread
      exact ⟨.inl ⟨n, rfl, writable_of_readInteger hdigits⟩, h.expression⟩
    · cases hset

theorem fill (h : progress.settings.Offered release arguments) {text : String}
    (htext : text ∈ arguments) :
    (progress.fill text).settings.Offered release arguments :=
  ⟨h.capacity, fun _ hsome => Option.some.inj hsome ▸ htext⟩

/-- Words that mean nothing are no settings. -/
theorem settings_extras (progress : Progress) (words : List Word) :
    (words.foldl (fun p word => p.extra word.text) progress).settings = progress.settings := by
  induction words generalizing progress with
  | nil => rfl
  | cons word rest ih => exact ih (progress.extra word.text)

theorem finish (h : progress.settings.Offered release arguments) {words : List Word}
    (hwords : ComeFrom arguments words) :
    (finish progress words).settings.Offered release arguments := by
  have hfill : ∀ text (rest : List Word), .operand text ∈ words →
      (rest.foldl (fun p word => p.extra word.text) (progress.fill text)).settings.Offered
        release arguments := by
    intro text rest hmem
    rw [settings_extras]
    exact h.fill (hwords.text_mem _ hmem rfl)
  have hpass : ∀ rest : List Word,
      (rest.foldl (fun p word => p.extra word.text) progress).settings.Offered release
        arguments := by
    intro rest
    rw [settings_extras]
    exact h
  unfold CommandLine.finish
  split
  · exact hpass words
  · split
    · exact hfill _ _ (by simp)
    · exact hfill _ _ (by simp)
    · exact hfill _ _ (by simp)
    · exact hpass _
    · exact hpass _

end Settings.Offered

/-- Letters that are no options have no value. -/
theorem strayLetters_valued {switch : Switch} {letters : List Char} {cluster : Cluster}
    (h : release.strayLetters switch letters = .ok cluster) : cluster.valued = none := by
  unfold Release.strayLetters at h
  split at h
  · cases h
  · split at h <;> cases h
    rfl

/-- No letter stands for an option with a value. -/
theorem clusterTail_valued {switch : Switch} {letters : List Char} {cluster : Cluster}
    (h : clusterTail release switch letters = .ok cluster) : cluster.valued = none := by
  induction letters generalizing switch cluster with
  | nil =>
    cases h
    rfl
  | cons c rest ih =>
    rw [clusterTail] at h
    split at h
    · exact strayLetters_valued h
    · next next hfind =>
      have htakes : next.takesValue = false := by
        cases next with
        | capacity =>
          have hlong := eq_of_mem_spellings (mem_of_find? hfind)
          rw [← String.toList_inj, String.toList_ofList] at hlong
          exact absurd (congrArg List.length hlong) (by simp)
        | _ => rfl
      rw [htakes, if_neg Bool.false_ne_true] at h
      obtain ⟨tail, htail, h⟩ := bind_eq_ok.1 h
      cases h
      exact (ih htail :)

/-- An option with a value is the capacity, and stands alone. -/
theorem cluster_cases {found : Found} {cluster : Cluster}
    (h : found.cluster release = .ok cluster) :
    cluster.valued = none ∨
      found.switch = .capacity ∧ cluster = ⟨[], some (.capacity, found.attached), none⟩ := by
  obtain ⟨switch, short, attached, joined⟩ := found
  unfold Found.cluster at h
  split at h
  · next htakes =>
    cases switch <;> cases htakes
    cases h
    exact .inr ⟨rfl, rfl⟩
  · split at h
    · cases h
      exact .inl rfl
    · split at h
      · exact .inl (clusterTail_valued h)
      · cases h

/-- A word that is no option is an operand if there are options to come. -/
theorem consume_plain {word : Word} (h : word.isOption = false) (rest : List Word)
    (progress : Progress) : consume release (word :: rest) progress =
      if rest.any Word.isOption then
        consume release rest
          (if progress.filled then progress.extra word.text else progress.fill word.text)
      else .ok (finish progress (word :: rest)) := by
  cases word with
  | operand text => rw [consume] <;> simp
  | separator => rw [consume] <;> simp
  | option | unknown => cases h

/-- An option sets switches, perhaps with letters that mean nothing, or the capacity to what is
attached to it or the operand behind it. -/
theorem consume_option {found : Found} {rest : List Word} {progress progress' : Progress}
    (h : consume release (.option found :: rest) progress = .ok progress') :
    (∃ switches, ∃ stray : Option String, ∃ next,
        List.foldlM Progress.setPlain progress switches = .ok next ∧
        consume release rest (stray.elim next next.extra) = .ok progress') ∨
      (∃ short joined text next, found = ⟨.capacity, short, some text, joined⟩ ∧
        progress.setValued release .capacity text = .ok next ∧
        consume release rest next = .ok progress') ∨
      ∃ text rest' next, rest = .operand text :: rest' ∧
        progress.setValued release .capacity text = .ok next ∧
        consume release rest' next = .ok progress' := by
  rw [consume] at h
  obtain ⟨cluster, hcluster, h⟩ := bind_eq_ok.1 h
  rcases cluster_cases hcluster with hvalued | ⟨hswitch, rfl⟩
  · rw [hvalued] at h
    obtain ⟨next, hnext, h⟩ := bind_eq_ok.1 h
    exact .inl ⟨_, _, next, hnext, h⟩
  · obtain ⟨switch, short, attached, joined⟩ := found
    cases hswitch
    cases attached with
    | some text =>
      change progress.setValued release .capacity text >>= consume release rest = _ at h
      obtain ⟨next, hset, h⟩ := bind_eq_ok.1 h
      exact .inr (.inl ⟨short, joined, text, next, rfl, hset, h⟩)
    | none =>
      cases rest with
      | nil => cases h
      | cons word rest =>
        cases word with
        | operand text =>
          change progress.setValued release .capacity text >>= consume release rest = _ at h
          obtain ⟨next, hset, h⟩ := bind_eq_ok.1 h
          exact .inr (.inr ⟨text, rest, next, rfl, hset, h⟩)
        | _ => cases h

/-- Reading words keeps to what is offered. -/
theorem offered_of_consume {arguments : List String} {words : List Word}
    {progress progress' : Progress} (hwords : ComeFrom arguments words)
    (h : progress.settings.Offered release arguments)
    (hconsume : consume release words progress = .ok progress') :
    progress'.settings.Offered release arguments := by
  -- A word or two are read at a time.
  induction hlength : words.length using Nat.strongRecOn generalizing words progress with
  | _ length ih =>
  subst hlength
  cases words with
  | nil =>
    rw [consume] at hconsume
    cases hconsume
    exact h.finish hwords
  | cons word rest =>
    have hrest : ∀ {progress : Progress}, progress.settings.Offered release arguments →
        consume release rest progress = .ok progress' →
        progress'.settings.Offered release arguments :=
      fun h hconsume => ih _ (Nat.lt_succ_self _) hwords.tail h hconsume rfl
    cases hoption : word.isOption with
    | false =>
      rw [consume_plain hoption] at hconsume
      split at hconsume
      · refine hrest ?_ hconsume
        split
        · exact ⟨h.capacity, h.expression⟩
        · exact h.fill (hwords.text_mem word List.mem_cons_self hoption)
      · cases hconsume
        exact h.finish hwords
    | true =>
      cases word with
      | operand | separator => cases hoption
      | unknown text =>
        rw [consume] at hconsume
        refine hrest ?_ hconsume
        exact ⟨h.capacity, h.expression⟩
      | option found =>
        rcases consume_option hconsume with ⟨switches, stray, next, hset, hconsume⟩ |
          ⟨short, joined, text, next, rfl, hset, hconsume⟩ | ⟨text, rest, next, rfl, hset, hconsume⟩
        · have hnext := h.foldlM_setPlain hset
          refine hrest ?_ hconsume
          cases stray with
          | none => exact hnext
          | some text => exact ⟨hnext.capacity, hnext.expression⟩
        · refine hrest (h.setValued ?_ hset) hconsume
          rintro rfl
          exact hwords.attached short joined List.mem_cons_self
        · refine ih _ ?_ hwords.tail.tail (h.setValued ?_ hset) hconsume rfl
          · simp only [List.length_cons]
            omega
          · rintro rfl
            exact absurd (List.prefix_append _ rest).isInfix (hwords.separated found)

/-- Settings that are read are offered by the command line. -/
theorem offered_of_read {arguments : List String} {settings : Settings}
    (h : Settings.read release arguments = .ok settings) : settings.Offered release arguments := by
  obtain ⟨words, hwords, h⟩ := bind_eq_ok.1 h
  obtain ⟨progress, hconsume, h⟩ := bind_eq_ok.1 h
  split at h
  · cases h
    exact offered_of_consume (comeFrom_of_classifyAll hwords) .begin hconsume
  · cases h

end SeedGrowth.CommandLine
