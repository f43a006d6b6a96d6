import SeedGrowth.Proofs.Calculator.Tree

/-!
# What is spelled is read

A text that a tree spells is read by the loops as that tree, if what comes after it cannot
belong to it: no digit or point after a numeral, and no sign of the rank after a chain. A
chain is read from its first operand on, so the loop is followed along the left spine of the
tree: behind the text of a left operand the loop still has the rest of the chain before it.
-/
namespace SeedGrowth

open Calculator

namespace Text

/-- Digits are no blanks. -/
theorem isBlank_of_isAsciiDigit {c : Char} (h : isAsciiDigit c = true) : isBlank c = false := by
  simp only [isAsciiDigit, Bool.and_eq_true, decide_eq_true_eq, Char.le_def,
    UInt32.le_iff_toNat_le] at h
  have hlow : 48 ≤ c.toNat := h.1
  have hhigh : c.toNat ≤ 57 := h.2
  have hnarrow : isNarrowBlank c = false := by
    rw [← Bool.not_eq_true]
    simp only [isNarrowBlank, Bool.or_eq_true, Bool.and_eq_true, decide_eq_true_eq, Char.le_def,
      UInt32.le_iff_toNat_le]
    rintro ((rfl | ⟨-, hle⟩) | ⟨-, hle⟩)
    · exact absurd hlow (by decide)
    · have hle' : c.toNat ≤ 13 := hle
      omega
    · have hle' : c.toNat ≤ 31 := hle
      omega
  have hwide : wideBlanks.holds c.toNat = false := by
    simp [wideBlanks]
    omega
  rw [isBlank, hnarrow, hwide]
  rfl

theorem isAsciiDigit_of_isBlank {c : Char} (h : isBlank c = true) : isAsciiDigit c = false := by
  cases hd : isAsciiDigit c with
  | false => rfl
  | true =>
    rw [isBlank_of_isAsciiDigit hd] at h
    cases h

/-- Characters of a class before something else are all those ahead. -/
theorem takeWhile_append {is : Char → Bool} {text rest : List Char}
    (htext : ∀ c ∈ text, is c = true) (hrest : ∀ c, rest.head? = some c → is c = false) :
    (text ++ rest).takeWhile is = text := by
  have hnone : rest.takeWhile is = [] := by
    cases rest with
    | nil => rfl
    | cons c rest => simp [hrest c rfl]
  rw [List.takeWhile_append_of_pos htext, hnone, List.append_nil]

end Text

namespace Operation

theorem isBlank_sign (op : Operation) : Text.isBlank op.sign = false := by
  cases op <;> decide

theorem sign_ends_numeral (op : Operation) : Text.isAsciiDigit op.sign = false ∧ op.sign ≠ '.' := by
  cases op <;> decide

end Operation

namespace Point

/-- What is ahead does not go on with a numeral. -/
def EndsNumeral (s : Point) : Prop :=
  ∀ c, s.fragment.head? = some c → Text.isAsciiDigit c = false ∧ c ≠ '.'

/-- Between two parts of a text there is a point. -/
theorem Over.split {s s' : Point} {first second : List Char} (h : s.Over (first ++ second) s') :
    ∃ mid, s.Over first mid ∧ mid.Over second s' := by
  have htext : s.fragment = first ++ (second ++ s'.fragment) := by
    rw [h.fragment_eq, List.append_assoc]
  have hfirst : s.Over first (s.advance first.length) := over_of_append htext
  refine ⟨_, hfirst, ?_, ?_⟩
  · have heq := hfirst.fragment_eq.symm.trans h.fragment_eq
    rw [List.append_assoc] at heq
    exact List.append_cancel_left heq
  · rw [h.place_eq, Place.after_append, hfirst.place_eq]

variable {s s' : Point} {gap rest : List Char} {c : Char}

/-- As many blanks as there are before something else are skipped. -/
theorem skipBlanks_eq (h : s.Over gap s') (hgap : Text.Blank gap)
    (hrest : ∀ c, s'.fragment.head? = some c → Text.isBlank c = false) : s.skipBlanks = s' := by
  have hover : s.Over gap s.skipBlanks := by
    have hrun : Scanner.run Text.isBlank s.fragment = gap.length := by
      rw [Scanner.run, h.fragment_eq, Text.takeWhile_append hgap hrest]
    rw [skipBlanks, hrun]
    exact over_of_append h.fragment_eq
  exact hover.unique h

/-- A sign behind blanks is ahead. -/
theorem past?_of_over (h : s.Over (gap ++ [c]) s') (hgap : Text.Blank gap)
    (hc : Text.isBlank c = false) : s.past? c = some s' := by
  obtain ⟨mid, hmid, hsign⟩ := h.split
  have hskip : s.skipBlanks = mid := by
    refine skipBlanks_eq hmid hgap ?_
    intro c' hc'
    rw [hsign.fragment_eq] at hc'
    cases hc'
    exact hc
  have hone : mid.advance 1 = s' := (over_of_append hsign.fragment_eq).unique hsign
  rw [past?, hskip, hsign.fragment_eq, List.singleton_append, List.head?_cons, if_pos rfl, hone]

/-- Before blanks and a character that is no part of a numeral, a numeral ends. -/
theorem endsNumeral_of_over (h : s.Over (gap ++ [c]) s') (hgap : Text.Blank gap)
    (hc : Text.isAsciiDigit c = false ∧ c ≠ '.') : s.EndsNumeral := by
  intro c' hc'
  rw [h.fragment_eq] at hc'
  cases gap with
  | nil =>
    cases hc'
    exact hc
  | cons b gap =>
    cases hc'
    have hblank := hgap c' List.mem_cons_self
    refine ⟨Text.isAsciiDigit_of_isBlank hblank, ?_⟩
    rintro rfl
    exact absurd hblank (by decide)

/-- Where only blanks are left, a numeral ends and no sign is ahead. -/
theorem of_blank (h : Text.Blank s.fragment) :
    s.EndsNumeral ∧ (∀ c, s.past? c = none) ∧ s.skipBlanks.fragment = [] := by
  have hover : s.Over s.fragment (s.advance s.fragment.length) :=
    over_of_append (List.append_nil s.fragment).symm
  have hnil : (s.advance s.fragment.length).fragment = [] := by simp
  have hskip : s.skipBlanks.fragment = [] := by
    rw [skipBlanks_eq hover h (by simp), hnil]
  refine ⟨?_, ?_, hskip⟩
  · intro c hc
    have hblank := h c (List.mem_of_head? hc)
    refine ⟨Text.isAsciiDigit_of_isBlank hblank, ?_⟩
    rintro rfl
    exact absurd hblank (by decide)
  · intro c
    simp [past?, hskip]

end Point

namespace Calculator

variable {α : Type} {A : Meaning α} {ops : List Operation}
  {operand : Point → Except Fault (Option (Partial α))} {s s' : Point}

theorem operationAhead_of_mem {op : Operation} (hmem : op ∈ ops)
    (h : s.past? op.sign = some s') : operationAhead ops s = some (op, s') := by
  cases hahead : operationAhead ops s with
  | none =>
    have hnone := List.findSome?_eq_none_iff.1 hahead op hmem
    simp [h] at hnone
  | some found =>
    obtain ⟨op', rest⟩ := found
    obtain ⟨-, hpast⟩ := operationAhead_spec hahead
    have hsign : op'.sign = op.sign := by
      by_contra hne
      rw [Point.past?_eq_none h hne] at hpast
      cases hpast
    obtain rfl := Operation.sign_injective hsign
    rw [h] at hpast
    cases hpast
    rfl

theorem operationAhead_eq_none {c : Char} (h : s.past? c = some s')
    (hc : ∀ op ∈ ops, op.sign ≠ c) : operationAhead ops s = none := by
  refine List.findSome?_eq_none_iff.2 fun op hop => ?_
  rw [Point.past?_eq_none h (hc op hop)]
  rfl

/-- A numeral before something else is found with all its digits. -/
theorem Numeral.scan_text (n : Numeral) {rest : List Char}
    (hend : ∀ c, rest.head? = some c → Text.isAsciiDigit c = false ∧ c ≠ '.') :
    Scanner.numeral.scan (n.text ++ rest) = some n.text.length := by
  obtain ⟨whole, fraction, hne, hwhole, hfraction⟩ := n
  have hlength : whole.length ≠ 0 := fun h => hne (List.length_eq_zero_iff.1 h)
  have hscan : ∀ tail : List Char, (∀ c, tail.head? = some c → Text.isAsciiDigit c = false) →
      Scanner.numeral.scan (whole ++ tail) =
        some (whole.length + Scanner.fractionLength tail) := by
    intro tail htail
    have hrun : Scanner.run Text.isAsciiDigit (whole ++ tail) = whole.length := by
      rw [Scanner.run, Text.takeWhile_append hwhole htail]
    simp [Scanner.numeral, hrun, hlength]
  cases fraction with
  | none =>
    have hzero : Scanner.fractionLength rest = 0 := by
      unfold Scanner.fractionLength
      split
      · exact absurd rfl (hend '.' rfl).2
      · rfl
    simp [Numeral.text, hscan rest fun c hc => (hend c hc).1, hzero]
  | some digits =>
    have hdigits : Scanner.run Text.isAsciiDigit (digits ++ rest) = digits.length := by
      rw [Scanner.run, Text.takeWhile_append (hfraction digits rfl) fun c hc => (hend c hc).1]
    have hpoint : ∀ c, ('.' :: (digits ++ rest)).head? = some c → Text.isAsciiDigit c = false := by
      intro c hc
      cases hc
      decide
    simp [Numeral.text, hscan _ hpoint, Scanner.fractionLength, hdigits]

/-- A numeral begins with a digit. -/
theorem Numeral.exists_digit (n : Numeral) :
    ∃ c rest, n.text = c :: rest ∧ Text.isAsciiDigit c = true := by
  obtain ⟨c, rest, hwhole⟩ := List.exists_cons_of_ne_nil n.whole_ne_nil
  refine ⟨c, rest ++ (n.fraction.map ('.' :: ·)).getD [], ?_, n.whole_digits c (by simp [hwhole])⟩
  simp [Numeral.text, hwhole]

namespace Meaning

/-- What stands before a digit is skipped up to there. -/
theorem skipBlanks_numeral {n : Numeral} {gap : List Char} (hgap : Text.Blank gap)
    (h : s.Over (gap ++ n.text) s') :
    s.Over gap s.skipBlanks ∧ s.skipBlanks.Over n.text s' := by
  obtain ⟨mid, hmid, hnumeral⟩ := h.split
  obtain ⟨c, rest, htext, hdigit⟩ := n.exists_digit
  have hskip : s.skipBlanks = mid := by
    refine Point.skipBlanks_eq hmid hgap ?_
    intro c' hc'
    rw [hnumeral.fragment_eq, htext] at hc'
    cases hc'
    exact Text.isBlank_of_isAsciiDigit hdigit
  exact hskip ▸ ⟨hmid, hnumeral⟩

/-- A numeral is read up to where it ends. -/
theorem numeral_eq {n : Numeral} {gap : List Char} (hgap : Text.Blank gap)
    (h : s.Over (gap ++ n.text) s') (hend : s'.EndsNumeral) :
    A.numeral s = (A.number (String.ofList n.text)).map fun x => some (x, s') := by
  obtain ⟨-, hnumeral⟩ := skipBlanks_numeral hgap h
  have hscan : Scanner.numeral.scan s.skipBlanks.fragment = some n.text.length := by
    rw [hnumeral.fragment_eq]
    exact n.scan_text hend
  have hrest : s.skipBlanks.advance n.text.length = s' :=
    (Point.over_of_append hnumeral.fragment_eq).unique hnumeral
  have htake : s.skipBlanks.fragment.take n.text.length = n.text := by
    rw [hnumeral.fragment_eq, List.take_left]
  rw [numeral, hscan]
  dsimp only
  rw [htake, hrest]
  cases A.number (String.ofList n.text) <;> rfl

/-- Where a numeral is ahead there is no sign. -/
theorem past?_numeral {n : Numeral} {gap : List Char} (hgap : Text.Blank gap)
    (h : s.Over (gap ++ n.text) s') {c : Char} (hc : Text.isAsciiDigit c = false) :
    s.past? c = none := by
  obtain ⟨-, hnumeral⟩ := skipBlanks_numeral hgap h
  obtain ⟨c', rest, htext, hdigit⟩ := n.exists_digit
  have hne : c' ≠ c := by
    rintro rfl
    rw [hdigit] at hc
    cases hc
  simp [Point.past?, hnumeral.fragment_eq, htext, hne]

section

variable {o : Name}

/-- With no operation ahead a chain has come to its end. -/
theorem chain_eq_self {p : Partial α} (h : operationAhead ops p.2 = none) (rounds : Nat) :
    A.chain ops operand rounds p = .ok p := by
  cases rounds with
  | zero => rfl
  | succ rounds =>
    rw [chain, further_eq_none h]
    rfl

/-- As many rounds as there are characters are enough. -/
theorem chain_rounds (hoperand : A.AllRead o operand) (rounds rounds' : Nat) {p : Partial α}
    (h : p.2.remaining ≤ rounds) (h' : p.2.remaining ≤ rounds') :
    A.chain ops operand rounds p = A.chain ops operand rounds' p := by
  induction rounds generalizing rounds' p with
  | zero =>
    have hnone : operationAhead ops p.2 = none :=
      operationAhead_of_remaining_eq_zero (Nat.le_zero.1 h)
    rw [chain_eq_self hnone, chain_eq_self hnone]
  | succ rounds ih =>
    cases rounds' with
    | zero =>
      have hnone : operationAhead ops p.2 = none :=
        operationAhead_of_remaining_eq_zero (Nat.le_zero.1 h')
      rw [chain_eq_self hnone, chain_eq_self hnone]
    | succ rounds' =>
      rw [chain, chain]
      cases hfurther : A.further ops operand p with
      | error fault => rfl
      | ok result =>
        cases result with
        | none => rfl
        | some p' =>
          have hlt := further_remaining_lt hoperand hfurther
          exact ih rounds' (by omega) (by omega)

/-- Where a chain has an operation with its right operand before it, it goes on behind
that. -/
theorem chain_further (hoperand : A.AllRead o operand) {op : Operation} (hmem : op ∈ ops) {x : α}
    {s₁ s₂ s₃ : Point} (hsign : s₁.past? op.sign = some s₂) {right : Except Fault α}
    (hright : operand s₂ = right.map fun y => some (y, s₃)) :
    A.chain ops operand s₁.remaining (x, s₁) =
      right >>= fun y => A.operation op x y >>= fun z =>
        A.chain ops operand s₃.remaining (z, s₃) := by
  have hlt := Point.remaining_past? hsign
  obtain ⟨rounds, hrounds⟩ := Nat.exists_eq_add_of_le' (show 1 ≤ s₁.remaining by omega)
  rw [hrounds, chain, further, operationAhead_of_mem hmem hsign]
  dsimp only
  rw [hright]
  cases hy : right with
  | error fault => rfl
  | ok y =>
    change (A.operation op x y >>= _) >>= _ = _
    change _ = A.operation op x y >>= _
    cases hz : A.operation op x y with
    | error fault => rfl
    | ok z =>
      have hread : A.Reads o s₂ (y, s₃) := hoperand _ _ (by rw [hright, hy]; rfl)
      have hlt' : s₃.remaining < s₂.remaining := hread.remaining_lt
      exact chain_rounds hoperand _ _ (show s₃.remaining ≤ rounds by omega) le_rfl

/-- A chain is read on from the text of a tree. -/
def ReadsOn (A : Meaning α) (ops : List Operation)
    (operand : Point → Except Fault (Option (Partial α))) (left : Except Fault α)
    (s s' : Point) : Prop :=
  A.grouped ops operand s =
    left >>= fun x => some <$> A.chain ops operand s'.remaining (x, s')

/-- With no operation ahead, what was read on from is all of a chain. -/
theorem ReadsOn.eq {left : Except Fault α} (h : A.ReadsOn ops operand left s s')
    (hnone : operationAhead ops s' = none) :
    A.grouped ops operand s = left.map fun x => some (x, s') := by
  rw [h]
  cases left with
  | error fault => rfl
  | ok x =>
    rw [ok_bind, chain_eq_self hnone]
    rfl

theorem readsOn_operand {first : Except Fault α}
    (h : operand s = first.map fun x => some (x, s')) : A.ReadsOn ops operand first s s' := by
  rw [ReadsOn, grouped, h]
  cases first <;> rfl

/-- What is read on from a left operand is read on from the operation. -/
theorem ReadsOn.operation (hoperand : A.AllRead o operand) {op : Operation} (hmem : op ∈ ops)
    {left right : Except Fault α} {s₁ s₂ s₃ : Point} (hleft : A.ReadsOn ops operand left s s₁)
    (hsign : s₁.past? op.sign = some s₂)
    (hright : operand s₂ = right.map fun y => some (y, s₃)) :
    A.ReadsOn ops operand (do
      let x ← left
      let y ← right
      A.operation op x y) s s₃ := by
  rw [ReadsOn, hleft]
  cases left with
  | error fault => rfl
  | ok x =>
    rw [ok_bind, ok_bind, chain_further hoperand hmem hsign hright]
    cases right with
    | error fault => rfl
    | ok y =>
      simp only [ok_bind]
      cases A.operation op x y <;> rfl

end

/-- The loops read a tree up to a point: a factor is read to its end, and of terms and
expressions what follows them may be more of the chain. -/
def Follows (A : Meaning α) (size : Nat) : {r : Name} → Tree r → Point → Point → Prop
  | .expr, tree, s, s' =>
    operationAhead products s' = none → A.ReadsOn sums (A.term size) (tree.fold A) s s'
  | .term, tree, s, s' => A.ReadsOn products (A.factor size) (tree.fold A) s s'
  | .factor, tree, s, s' => A.factor size s = (tree.fold A).map fun x => some (x, s')

/-- A sign before a factor is read together with it. -/
theorem Follows.opposite {size : Nat} {tree : Tree .factor} {s inner s' : Point}
    (hsign : s.past? '-' = some inner) (h : A.Follows size tree inner s') :
    A.Follows (size + 1) (.opposite tree) s s' := by
  have hoperand : A.factor size inner = (tree.fold A).map fun x => some (x, s') := h
  rw [Follows, factor_succ, hsign]
  dsimp only
  rw [opposed, hoperand, Tree.fold]
  cases tree.fold A with
  | error fault => rfl
  | ok x =>
    simp only [Except.map, ok_bind]
    cases A.opposite x <;> rfl

/-- Brackets end the expression between them, and are read together with it. -/
theorem Follows.brackets {size : Nat} {tree : Tree .expr} {s inner last s' : Point}
    (hopen : s.past? '(' = some inner) (h : A.Follows size tree inner last)
    (hclose : last.past? ')' = some s') : A.Follows (size + 1) (.brackets tree) s s' := by
  have hchain := h (operationAhead_eq_none hclose (by decide))
  have hinside : A.expression size inner = (tree.fold A).map fun x => some (x, last) :=
    hchain.eq (operationAhead_eq_none hclose (by decide))
  have hminus : s.past? '-' = none := Point.past?_eq_none hopen (by decide)
  rw [Follows, factor_succ, hminus, hopen]
  dsimp only
  rw [enclosed, hinside, Tree.fold]
  cases tree.fold A with
  | error fault => rfl
  | ok x =>
    simp only [Except.map, ok_bind, hclose]
    rfl

end Meaning

theorem sign_ne_of_sums {op : Operation} (h : op ∈ sums) :
    ∀ op' ∈ products, op'.sign ≠ op.sign := by
  revert op
  decide

/-- The point behind a sign at the beginning of a text. -/
theorem split_sign {gap text : List Char} {sign : Char} (h : s.Over (gap ++ sign :: text) s') :
    ∃ inner, s.Over (gap ++ [sign]) inner ∧ inner.Over text s' := by
  have heq : gap ++ sign :: text = (gap ++ [sign]) ++ text := by simp
  exact (heq ▸ h).split

/-- The points in the text of an operation. -/
theorem split_operation {first gap second : List Char} {sign : Char}
    (h : s.Over (first ++ (gap ++ sign :: second)) s') :
    ∃ s₁ s₂, s.Over first s₁ ∧ s₁.Over (gap ++ [sign]) s₂ ∧ s₂.Over second s' := by
  obtain ⟨s₁, hfirst, hrest⟩ := h.split
  obtain ⟨s₂, hsign, hsecond⟩ := split_sign hrest
  exact ⟨s₁, s₂, hfirst, hsign, hsecond⟩

/-- A text that a tree spells is read as the tree, if what follows is no part of it. -/
theorem Tree.Spells.follows {r : Name} {tree : Tree r} {text : List Char} (h : tree.Spells text) :
    ∀ {s s' : Point} {size : Nat}, s.Over text s' → s'.EndsNumeral → s.remaining < size →
      A.Follows size tree s s' := by
  induction h with
  | @sum left op right first gap second mem _ hgap _ ihleft ihright =>
    intro s s' size hover hend hsize hproducts
    obtain ⟨s₁, s₂, hfirst, hgapOver, hsecond⟩ := split_operation hover
    have hsign := Point.past?_of_over hgapOver hgap op.isBlank_sign
    have hend₁ := Point.endsNumeral_of_over hgapOver hgap op.sign_ends_numeral
    have hlt := hfirst.remaining_eq
    have hlt' := Point.remaining_past? hsign
    have hleft := ihleft hfirst hend₁ hsize (operationAhead_eq_none hsign (sign_ne_of_sums mem))
    have hright := (ihright hsecond hend (by omega : s₂.remaining < size)).eq hproducts
    exact hleft.operation (A.term_reads size) mem hsign hright
  | term _ ih =>
    intro s s' size hover hend hsize hproducts
    exact Meaning.readsOn_operand ((ih hover hend hsize).eq hproducts)
  | @product left op right first gap second mem _ hgap _ ihleft ihright =>
    intro s s' size hover hend hsize
    obtain ⟨s₁, s₂, hfirst, hgapOver, hsecond⟩ := split_operation hover
    have hsign := Point.past?_of_over hgapOver hgap op.isBlank_sign
    have hend₁ := Point.endsNumeral_of_over hgapOver hgap op.sign_ends_numeral
    have hlt := hfirst.remaining_eq
    have hlt' := Point.remaining_past? hsign
    have hleft := ihleft hfirst hend₁ hsize
    have hright := ihright hsecond hend (by omega : s₂.remaining < size)
    exact hleft.operation (A.factor_reads size) mem hsign hright
  | factor _ ih =>
    intro s s' size hover hend hsize
    exact Meaning.readsOn_operand (ih hover hend hsize)
  | @opposite tree gap text hgap _ ih =>
    intro s s' size hover hend hsize
    obtain ⟨size, rfl⟩ := Nat.exists_eq_add_of_le' (show 1 ≤ size by omega)
    obtain ⟨inner, hinner, htext⟩ := split_sign hover
    have hsign := Point.past?_of_over hinner hgap (by decide)
    have hlt := Point.remaining_past? hsign
    exact .opposite hsign (ih htext hend (by omega))
  | @brackets tree gap text gap' hgap _ hgap' ih =>
    intro s s' size hover hend hsize
    obtain ⟨size, rfl⟩ := Nat.exists_eq_add_of_le' (show 1 ≤ size by omega)
    obtain ⟨inner, hinner, hrest⟩ := split_sign hover
    obtain ⟨last, htext, hlast⟩ := hrest.split
    have hopen := Point.past?_of_over hinner hgap (by decide)
    have hclose := Point.past?_of_over hlast hgap' (by decide)
    have hlt := Point.remaining_past? hopen
    have hend' := Point.endsNumeral_of_over hlast hgap' (by decide)
    exact .brackets hopen (ih htext hend' (by omega)) hclose
  | number hgap =>
    intro s s' size hover hend hsize
    obtain ⟨size, rfl⟩ := Nat.exists_eq_add_of_le' (show 1 ≤ size by omega)
    rw [Meaning.Follows, Meaning.factor_succ, Meaning.past?_numeral hgap hover (by decide),
      Meaning.past?_numeral hgap hover (by decide)]
    exact Meaning.numeral_eq hgap hover hend

end Calculator

end SeedGrowth
