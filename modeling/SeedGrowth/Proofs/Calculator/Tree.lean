import SeedGrowth.Proofs.Calculator.Loops
import SeedGrowth.Proofs.Program

/-!
# Derivations of expressions

The grammar of arithmetic as it is documented: which trees there are, which texts spell
them, with blanks before every token, and what they come to, the left operand first. What
the loops read is spelled by a tree, and comes to what the tree does.
-/
namespace SeedGrowth.Calculator

/-- Digits, and after them perhaps a point with or without digits. -/
structure Numeral where
  whole : List Char
  fraction : Option (List Char)
  whole_ne_nil : whole ≠ []
  whole_digits : ∀ c ∈ whole, Text.isAsciiDigit c = true
  fraction_digits : ∀ digits, fraction = some digits → ∀ c ∈ digits, Text.isAsciiDigit c = true

/-- How a numeral is written. -/
def Numeral.text (n : Numeral) : List Char :=
  n.whole ++ (n.fraction.map ('.' :: ·)).getD []

/-- The derivations of expressions, terms and factors. -/
inductive Tree : Name → Type where
  | sum (left : Tree .expr) (op : Operation) (mem : op ∈ sums) (right : Tree .term) : Tree .expr
  | term (tree : Tree .term) : Tree .expr
  | product (left : Tree .term) (op : Operation) (mem : op ∈ products) (right : Tree .factor) :
      Tree .term
  | factor (tree : Tree .factor) : Tree .term
  | opposite (tree : Tree .factor) : Tree .factor
  | brackets (tree : Tree .expr) : Tree .factor
  | number (numeral : Numeral) : Tree .factor

namespace Tree

/-- The text is that of the tree, with blanks before the tokens. -/
inductive Spells : ∀ {r : Name}, Tree r → List Char → Prop where
  | sum {left op right first gap second} {mem : op ∈ sums} : Spells left first →
      Text.Blank gap → Spells right second →
      Spells (.sum left op mem right) (first ++ (gap ++ op.sign :: second))
  | term {tree text} : Spells tree text → Spells (.term tree) text
  | product {left op right first gap second} {mem : op ∈ products} : Spells left first →
      Text.Blank gap → Spells right second →
      Spells (.product left op mem right) (first ++ (gap ++ op.sign :: second))
  | factor {tree text} : Spells tree text → Spells (.factor tree) text
  | opposite {tree gap text} : Text.Blank gap → Spells tree text →
      Spells (.opposite tree) (gap ++ '-' :: text)
  | brackets {tree gap text gap'} : Text.Blank gap → Spells tree text → Text.Blank gap' →
      Spells (.brackets tree) (gap ++ '(' :: (text ++ (gap' ++ [')'])))
  | number {numeral gap} : Text.Blank gap → Spells (.number numeral) (gap ++ numeral.text)

variable {α : Type}

/-- What a tree comes to, from the leaves on, left operands before right ones. -/
def fold (A : Meaning α) : {r : Name} → Tree r → Except Fault α
  | _, sum left op _ right => do
    let x ← left.fold A
    let y ← right.fold A
    A.operation op x y
  | _, term tree => tree.fold A
  | _, product left op _ right => do
    let x ← left.fold A
    let y ← right.fold A
    A.operation op x y
  | _, factor tree => tree.fold A
  | _, opposite tree => do
    let x ← tree.fold A
    A.opposite x
  | _, brackets tree => do
    let x ← tree.fold A
    return A.brackets x
  | _, number numeral => A.number (String.ofList numeral.text)

/-- The value of a tree. -/
def value {r : Name} (tree : Tree r) : Except Fault Value := tree.fold .values

theorem Spells.ne_nil {r : Name} {tree : Tree r} {text : List Char} (h : tree.Spells text) :
    text ≠ [] := by
  induction h with
  | term _ ih => exact ih
  | factor _ ih => exact ih
  | number _ =>
    next numeral _ _ => simp [Numeral.text, numeral.whole_ne_nil]
  | _ => simp

end Tree

end SeedGrowth.Calculator

namespace SeedGrowth

open Calculator

namespace Point

/-- The blanks ahead are skipped. -/
theorem skipBlanks_spec (s : Point) : ∃ gap, Text.Blank gap ∧ s.Over gap s.skipBlanks := by
  refine ⟨s.fragment.takeWhile Text.isBlank, fun c hc => List.mem_takeWhile_imp hc, ?_⟩
  exact over_of_append (List.takeWhile_append_dropWhile (p := Text.isBlank) (l := s.fragment)).symm

/-- Behind a sign, blanks and the sign have been read. -/
theorem past?_spec {s s' : Point} {sign : Char} (h : s.past? sign = some s') :
    ∃ gap, Text.Blank gap ∧ s.Over (gap ++ [sign]) s' := by
  obtain ⟨gap, hgap, hover⟩ := s.skipBlanks_spec
  unfold past? at h
  split at h
  · next hsign =>
    cases h
    refine ⟨gap, hgap, hover.trans ?_⟩
    obtain ⟨rest, hrest⟩ := List.head?_eq_some_iff.1 hsign
    have hahead : s.skipBlanks.fragment = [sign] ++ rest := hrest
    exact over_of_append hahead
  · cases h

theorem remaining_past? {s s' : Point} {sign : Char} (h : s.past? sign = some s') :
    s'.remaining < s.remaining := by
  obtain ⟨gap, -, hover⟩ := past?_spec h
  have hlength := hover.remaining_eq
  simp at hlength
  omega

/-- There is one sign ahead only. -/
theorem past?_eq_none {s s' : Point} {c c' : Char} (h : s.past? c = some s') (hne : c' ≠ c) :
    s.past? c' = none := by
  unfold past? at h ⊢
  split at h
  · next hc =>
    rw [if_neg]
    intro hc'
    rw [hc] at hc'
    exact hne (Option.some.inj hc').symm
  · cases h

theorem head?_of_past? {s s' : Point} {c : Char} (h : s.past? c = some s') :
    s.skipBlanks.fragment.head? = some c := by
  unfold past? at h
  split at h
  · next hc => exact hc
  · cases h

end Point

theorem Operation.sign_injective : Function.Injective Operation.sign := by
  intro op op' h
  cases op <;> cases op' <;> first | rfl | cases h

namespace Calculator

variable {α : Type} {A : Meaning α} {ops : List Operation}
  {operand : Point → Except Fault (Option (Partial α))}

theorem operationAhead_spec {s s' : Point} {op : Operation}
    (h : operationAhead ops s = some (op, s')) : op ∈ ops ∧ s.past? op.sign = some s' := by
  obtain ⟨op', hmem, hop⟩ := List.exists_of_findSome?_eq_some h
  cases hpast : s.past? op'.sign with
  | none => simp [hpast] at hop
  | some rest =>
    simp only [hpast, Option.map_some, Option.some.injEq, Prod.mk.injEq] at hop
    obtain ⟨rfl, rfl⟩ := hop
    exact ⟨hmem, hpast⟩

/-- A numeral is found with all its digits. -/
theorem scan_numeral {text : List Char} {count : Nat}
    (h : Scanner.numeral.scan text = some count) : ∃ n : Numeral, text.take count = n.text := by
  let digits := text.takeWhile Text.isAsciiDigit
  let after := text.drop digits.length
  have hdigits : ∀ c ∈ digits, Text.isAsciiDigit c = true := fun c hc => List.mem_takeWhile_imp hc
  have htake : text.take digits.length = digits :=
    List.prefix_iff_eq_take.1 (List.takeWhile_prefix _) |>.symm
  change (if digits.length = 0 then none else
    some (digits.length + Scanner.fractionLength after)) = some count at h
  split at h
  · cases h
  next hlength =>
  cases h
  have hne : digits ≠ [] := fun he => hlength (by rw [he]; rfl)
  rw [List.take_add, htake]
  change ∃ n : Numeral, digits ++ after.take (Scanner.fractionLength after) = n.text
  cases hafter : after with
  | nil => exact ⟨⟨digits, none, hne, hdigits, by simp⟩, by simp [Numeral.text]⟩
  | cons c rest =>
    by_cases hc : c = '.'
    · subst hc
      refine ⟨⟨digits, some (rest.takeWhile Text.isAsciiDigit), hne, hdigits, ?_⟩, ?_⟩
      · intro fraction hfraction c hc
        cases hfraction
        exact List.mem_takeWhile_imp hc
      · have hrest : rest.take (Scanner.run Text.isAsciiDigit rest) =
            rest.takeWhile Text.isAsciiDigit :=
          (List.prefix_iff_eq_take.1 (List.takeWhile_prefix _)).symm
        simp [Numeral.text, Scanner.fractionLength, hrest]
    · refine ⟨⟨digits, none, hne, hdigits, by simp⟩, ?_⟩
      have hzero : Scanner.fractionLength (c :: rest) = 0 := by
        unfold Scanner.fractionLength
        split
        · simp_all
        · rfl
      simp [Numeral.text, hzero]

namespace Meaning

/-- What was read is spelled by a tree, and was made of it. -/
def Reads (A : Meaning α) (r : Name) (s : Point) (found : Partial α) : Prop :=
  ∃ (tree : Tree r) (text : List Char), tree.Spells text ∧ s.Over text found.2 ∧
    tree.fold A = .ok found.1

theorem Reads.remaining_lt {r : Name} {s : Point} {found : Partial α} (h : A.Reads r s found) :
    found.2.remaining < s.remaining := by
  obtain ⟨tree, text, hspells, hover, -⟩ := h
  have hlength := hover.remaining_eq
  have hpos := List.length_pos_iff.2 hspells.ne_nil
  omega

/-- All that a reader finds is spelled by trees. -/
def AllRead (A : Meaning α) (r : Name) (parse : Point → Except Fault (Option (Partial α))) : Prop :=
  ∀ s found, parse s = .ok (some found) → A.Reads r s found

theorem further_eq_ok {p p' : Partial α} (h : A.further ops operand p = .ok (some p')) :
    ∃ op s' y, op ∈ ops ∧ p.2.past? op.sign = some s' ∧ operand s' = .ok (some (y, p'.2)) ∧
      A.operation op p.1 y = .ok p'.1 := by
  obtain ⟨x, s⟩ := p
  rw [further] at h
  cases hahead : operationAhead ops s with
  | none =>
    rw [hahead] at h
    cases h
  | some ahead =>
    obtain ⟨op, s'⟩ := ahead
    rw [hahead] at h
    obtain ⟨hmem, hpast⟩ := operationAhead_spec hahead
    obtain ⟨result, hresult, h⟩ := bind_eq_ok.1 h
    cases result with
    | none => cases h
    | some pair =>
      obtain ⟨z, hz, h⟩ := bind_eq_ok.1 h
      cases h
      exact ⟨op, s', pair.1, hmem, hpast, hresult, hz⟩

/-- Every operation takes up text. -/
theorem further_remaining_lt {o : Name} (hoperand : A.AllRead o operand) {p p' : Partial α}
    (h : A.further ops operand p = .ok (some p')) : p'.2.remaining < p.2.remaining := by
  obtain ⟨op, inner, y, -, hpast, hright, -⟩ := further_eq_ok h
  exact (hoperand _ _ hright).remaining_lt.trans (Point.remaining_past? hpast)

/-- At the end of the text there is no operation. -/
theorem further_eq_none {p : Partial α} (h : operationAhead ops p.2 = none) :
    A.further ops operand p = .ok none := by
  rw [further, h]
  rfl

theorem operationAhead_of_remaining_eq_zero {s : Point} (h : s.remaining = 0) :
    operationAhead ops s = none := by
  by_contra hne
  obtain ⟨⟨op, inner⟩, hahead⟩ := Option.ne_none_iff_exists'.1 hne
  have hlt := Point.remaining_past? (operationAhead_spec hahead).2
  omega

/-- Chains are spelled by trees if operands are, and if the trees of a rank are closed
under its operations. -/
theorem chain_reads {r o : Name} {s : Point}
    (hstep : ∀ {x s₁ op s₂ y s₃ z}, A.Reads r s (x, s₁) → op ∈ ops →
      s₁.past? op.sign = some s₂ → A.Reads o s₂ (y, s₃) → A.operation op x y = .ok z →
      A.Reads r s (z, s₃))
    (hoperand : A.AllRead o operand) (rounds : Nat) {found found' : Partial α}
    (hfound : A.Reads r s found) (h : A.chain ops operand rounds found = .ok found') :
    A.Reads r s found' := by
  induction rounds generalizing found with
  | zero =>
    cases h
    exact hfound
  | succ rounds ih =>
    rw [chain] at h
    obtain ⟨result, hresult, h⟩ := bind_eq_ok.1 h
    cases result with
    | none =>
      cases h
      exact hfound
    | some next =>
      obtain ⟨op, s', y, hmem, hpast, hright, hz⟩ := further_eq_ok hresult
      exact ih (hstep hfound hmem hpast (hoperand _ _ hright) hz) h

theorem grouped_reads {r o : Name}
    (hbase : ∀ {s found}, A.Reads o s found → A.Reads r s found)
    (hstep : ∀ {s x s₁ op s₂ y s₃ z}, A.Reads r s (x, s₁) → op ∈ ops →
      s₁.past? op.sign = some s₂ → A.Reads o s₂ (y, s₃) → A.operation op x y = .ok z →
      A.Reads r s (z, s₃))
    (hoperand : A.AllRead o operand) : A.AllRead r (A.grouped ops operand) := by
  intro s found h
  obtain ⟨result, hresult, h⟩ := bind_eq_ok.1 h
  cases result with
  | none => cases h
  | some first =>
    obtain ⟨last, hlast, h⟩ := bind_eq_ok.1 h
    cases h
    exact chain_reads hstep hoperand _ (hbase (hoperand _ _ hresult)) hlast

/-- The text of an operation: its left operand, blanks, its sign, and its right operand. -/
theorem over_operation {s s₁ s₂ s₃ : Point} {first second : List Char} {sign : Char}
    (hfirst : s.Over first s₁) (hsign : s₁.past? sign = some s₂) (hsecond : s₂.Over second s₃) :
    ∃ gap, Text.Blank gap ∧ s.Over (first ++ (gap ++ sign :: second)) s₃ := by
  obtain ⟨gap, hgap, hover⟩ := Point.past?_spec hsign
  refine ⟨gap, hgap, ?_⟩
  have h := hfirst.trans (hover.trans hsecond)
  simpa using h

theorem numeral_reads : A.AllRead .factor A.numeral := by
  intro s found h
  unfold numeral at h
  split at h
  · cases h
  next count hscan =>
  obtain ⟨x, hx, h⟩ := bind_eq_ok.1 h
  cases h
  obtain ⟨n, hn⟩ := scan_numeral hscan
  obtain ⟨gap, hgap, hover⟩ := s.skipBlanks_spec
  refine ⟨.number n, gap ++ n.text, .number hgap, ?_, ?_⟩
  · exact hover.trans (hn ▸ s.skipBlanks.over_advance count)
  · rw [Tree.fold, ← hn]
    exact hx

theorem term_reads_of_factor {size : Nat} (h : A.AllRead .factor (A.factor size)) :
    A.AllRead .term (A.term size) := by
  refine grouped_reads ?_ ?_ h
  · rintro s found ⟨tree, text, hspells, hover, hfold⟩
    exact ⟨.factor tree, text, .factor hspells, hover, hfold⟩
  · rintro s x s₁ op s₂ y s₃ z ⟨left, first, hleft, hfirst, hx⟩ hmem hsign
      ⟨right, second, hright, hsecond, hy⟩ hz
    obtain ⟨gap, hgap, hover⟩ := over_operation hfirst hsign hsecond
    refine ⟨.product left op hmem right, _, .product hleft hgap hright, hover, ?_⟩
    simpa [Tree.fold, hx, hy] using hz

theorem expression_reads_of_factor {size : Nat} (h : A.AllRead .factor (A.factor size)) :
    A.AllRead .expr (A.expression size) := by
  refine grouped_reads ?_ ?_ (term_reads_of_factor h)
  · rintro s found ⟨tree, text, hspells, hover, hfold⟩
    exact ⟨.term tree, text, .term hspells, hover, hfold⟩
  · rintro s x s₁ op s₂ y s₃ z ⟨left, first, hleft, hfirst, hx⟩ hmem hsign
      ⟨right, second, hright, hsecond, hy⟩ hz
    obtain ⟨gap, hgap, hover⟩ := over_operation hfirst hsign hsecond
    refine ⟨.sum left op hmem right, _, .sum hleft hgap hright, hover, ?_⟩
    simpa [Tree.fold, hx, hy] using hz

theorem opposed_reads {operand : Point → Except Fault (Option (Partial α))}
    (hoperand : A.AllRead .factor operand) {s inner : Point} {found : Partial α}
    (hsign : s.past? '-' = some inner) (h : A.opposed operand inner = .ok (some found)) :
    A.Reads .factor s found := by
  obtain ⟨result, hresult, h⟩ := bind_eq_ok.1 h
  cases result with
  | none => cases h
  | some pair =>
    obtain ⟨y, hy, h⟩ := bind_eq_ok.1 h
    cases h
    obtain ⟨tree, text, hspells, hover, hfold⟩ := hoperand _ _ hresult
    obtain ⟨gap, hgap, hgapOver⟩ := Point.past?_spec hsign
    refine ⟨.opposite tree, _, .opposite hgap hspells, by simpa using hgapOver.trans hover, ?_⟩
    simpa [Tree.fold, hfold] using hy

theorem enclosed_reads {inside : Point → Except Fault (Option (Partial α))}
    (hinside : A.AllRead .expr inside) {s inner : Point} {found : Partial α}
    (hopen : s.past? '(' = some inner) (h : A.enclosed inside inner = .ok (some found)) :
    A.Reads .factor s found := by
  obtain ⟨result, hresult, h⟩ := bind_eq_ok.1 h
  cases result with
  | none => cases h
  | some pair =>
    obtain ⟨x, rest⟩ := pair
    dsimp only at h
    cases hclosed : rest.past? ')' with
    | none =>
      rw [hclosed] at h
      cases h
    | some last =>
      rw [hclosed] at h
      cases h
      obtain ⟨tree, text, hspells, hover, hfold⟩ := hinside _ _ hresult
      obtain ⟨gap, hgap, hgapOver⟩ := Point.past?_spec hopen
      obtain ⟨gap', hgap', hlast⟩ := Point.past?_spec hclosed
      refine ⟨.brackets tree, _, .brackets hgap hspells hgap', ?_, ?_⟩
      · simpa using hgapOver.trans (hover.trans hlast)
      · simp [Tree.fold, hfold]

/-- What is read as a factor is spelled by one. -/
theorem factor_reads (size : Nat) : A.AllRead .factor (A.factor size) := by
  induction size with
  | zero =>
    intro s found h
    cases h
  | succ size ih =>
    intro s found h
    rw [factor_succ] at h
    split at h
    · next inner hsign => exact opposed_reads ih hsign h
    · next inner _ hopen => exact enclosed_reads (expression_reads_of_factor ih) hopen h
    · exact numeral_reads _ _ h

/-- What is read as a term is spelled by one. -/
theorem term_reads (size : Nat) : A.AllRead .term (A.term size) :=
  term_reads_of_factor (factor_reads size)

/-- What is read as an expression is spelled by one. -/
theorem expression_reads (size : Nat) : A.AllRead .expr (A.expression size) :=
  expression_reads_of_factor (factor_reads size)

end Meaning

end Calculator

end SeedGrowth
