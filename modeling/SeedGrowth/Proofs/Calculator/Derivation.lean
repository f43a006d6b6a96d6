import SeedGrowth.Proofs.Calculator.Outcome
import SeedGrowth.Proofs.Calculator.Spelling
import SeedGrowth.Proofs.Decimal.Reading

/-!
# The calculator accepts the grammar

A source has a value if and only if it is derived by a tree with a value, and then it is the
value of the only tree that derives it. That a source is derived by one tree follows from
the loops as well: they read it as one shape, and the shape is that of every tree that
derives it.
-/
namespace SeedGrowth.Calculator

namespace Tree

/-- The source is the text of the tree, with blanks before the tokens and at the end. -/
def Derives (tree : Tree .expr) (source : String) : Prop :=
  ∃ text gap, tree.Spells text ∧ Text.Blank gap ∧ source.toList = text ++ gap

/-- The text of a tree, without blanks. -/
def text : {r : Name} → Tree r → List Char
  | _, sum left op _ right => left.text ++ op.sign :: right.text
  | _, term tree => tree.text
  | _, product left op _ right => left.text ++ op.sign :: right.text
  | _, factor tree => tree.text
  | _, opposite tree => '-' :: tree.text
  | _, brackets tree => '(' :: (tree.text ++ [')'])
  | _, number numeral => numeral.text

/-- Every tree is spelled. -/
theorem spells_text {r : Name} (tree : Tree r) : tree.Spells tree.text := by
  have hnil : Text.Blank [] := by
    intro c hc
    cases hc
  induction tree with
  | sum left op mem right ihleft ihright => exact .sum ihleft hnil ihright
  | term tree ih => exact .term ih
  | product left op mem right ihleft ihright => exact .product ihleft hnil ihright
  | factor tree ih => exact .factor ih
  | opposite tree ih => exact .opposite hnil ih
  | brackets tree ih => exact .brackets hnil ih hnil
  | number numeral => exact .number hnil

theorem derives_text (tree : Tree .expr) : tree.Derives (String.ofList tree.text) := by
  refine ⟨tree.text, [], tree.spells_text, ?_, by simp⟩
  intro c hc
  cases hc

variable {α : Type} {A : Meaning α} {source : String}

/-- A source that a tree derives comes to what the tree does. -/
theorem Derives.calculate_eq {tree : Tree .expr} (h : tree.Derives source) :
    A.calculate source = tree.fold A := by
  obtain ⟨text, gap, hspells, hgap, hsource⟩ := h
  let s : Point := ⟨source.toList, .start⟩
  have hover : s.Over text (s.advance text.length) := Point.over_of_append hsource
  have hrest : (s.advance text.length).fragment = gap := by
    have heq := hover.fragment_eq.symm.trans hsource
    exact List.append_cancel_left heq
  obtain ⟨hend, hpast, hskip⟩ := Point.of_blank (hrest ▸ hgap)
  have hahead : ∀ ops, operationAhead ops (s.advance text.length) = none := by
    intro ops
    refine List.findSome?_eq_none_iff.2 fun op _ => ?_
    rw [hpast]
    rfl
  have hsize : s.remaining < source.length + 1 := Nat.lt_succ_of_le String.length_toList.le
  have hfollows : A.Follows (source.length + 1) tree s (s.advance text.length) :=
    hspells.follows hover hend hsize
  have hread : A.expression (source.length + 1) s =
      (tree.fold A).map fun x => some (x, s.advance text.length) :=
    (hfollows (hahead _)).eq (hahead _)
  rw [Meaning.calculate, hread]
  cases tree.fold A with
  | error fault => rfl
  | ok x =>
    simp [Except.map, hskip]
    rfl

/-- What a source comes to is what a tree does that derives it. -/
theorem exists_derives {x : α} (h : A.calculate source = .ok x) :
    ∃ tree : Tree .expr, tree.Derives source ∧ tree.fold A = .ok x := by
  obtain ⟨result, hresult, h⟩ := bind_eq_ok.1 h
  cases result with
  | none => cases h
  | some p =>
    obtain ⟨y, rest⟩ := p
    obtain ⟨tree, text, hspells, hover, hfold⟩ := Meaning.expression_reads _ _ _ hresult
    obtain ⟨gap, hgap, hgapOver⟩ := rest.skipBlanks_spec
    dsimp only at h
    by_cases hempty : rest.skipBlanks.fragment.isEmpty = true
    · rw [if_pos hempty] at h
      cases h
      refine ⟨tree, ⟨text, gap, hspells, hgap, ?_⟩, hfold⟩
      have hall := (hover.trans hgapOver).fragment_eq
      rw [List.isEmpty_iff.1 hempty, List.append_nil] at hall
      exact hall
    · rw [if_neg hempty] at h
      cases h

/-- Numbers are made of numerals, and of numbers by operations. -/
theorem exists_number {r : Name} (tree : Tree r) {v : Value} (h : tree.value = .ok v) :
    ∃ x : Number, v = x.toValue := by
  unfold value at h
  induction tree generalizing v with
  | sum left op mem right ihleft ihright | product left op mem right ihleft ihright =>
    obtain ⟨v₁, hleft, h⟩ := bind_eq_ok.1 h
    obtain ⟨v₂, hright, h⟩ := bind_eq_ok.1 h
    obtain ⟨x, rfl⟩ := ihleft hleft
    obtain ⟨y, rfl⟩ := ihright hright
    change op.apply x.toValue y.toValue = .ok v at h
    rw [Operation.apply_toValue] at h
    cases hz : op.onNumbers x y with
    | error fault =>
      rw [hz] at h
      cases h
    | ok z =>
      rw [hz] at h
      cases h
      exact ⟨z, rfl⟩
  | term tree ih | factor tree ih => exact ih h
  | opposite tree ih =>
    obtain ⟨v', htree, h⟩ := bind_eq_ok.1 h
    obtain ⟨x, rfl⟩ := ih htree
    change x.toValue.negate = .ok v at h
    rw [Value.negate, Value.number?_toValue] at h
    cases h
    exact ⟨_, rfl⟩
  | brackets tree ih =>
    obtain ⟨v', htree, h⟩ := bind_eq_ok.1 h
    cases h
    exact ih htree
  | number numeral =>
    change (if _ then realOfText _ else integerOfText _) = .ok v at h
    split at h
    · obtain ⟨x, rfl⟩ := realOfText_eq_ok h
      exact ⟨.real x, rfl⟩
    · obtain ⟨n, rfl, -⟩ := integerOfText_eq_ok h
      exact ⟨.int n, rfl⟩

end Tree

/-- The shape of a tree, without the ranks. -/
inductive Shape where
  | number (text : List Char)
  | opposite (shape : Shape)
  | brackets (shape : Shape)
  | operation (op : Operation) (left right : Shape)

/-- Expressions come to their shapes. -/
def Meaning.shapes : Meaning Shape where
  number text := .ok (.number text.toList)
  opposite x := .ok (.opposite x)
  brackets x := .brackets x
  operation op x y := .ok (.operation op x y)

/-- The numeral is told by its text. -/
theorem Numeral.text_injective : Function.Injective Numeral.text := by
  intro n n' h
  have hwhole : ∀ n : Numeral, n.text.takeWhile Text.isAsciiDigit = n.whole := by
    intro n
    refine Text.takeWhile_append n.whole_digits ?_
    cases n.fraction with
    | none => simp
    | some digits =>
      intro c hc
      cases hc
      decide
  have hheads : n.whole = n'.whole := by rw [← hwhole n, h, hwhole n']
  have htails : (n.fraction.map ('.' :: ·)).getD [] = (n'.fraction.map ('.' :: ·)).getD [] := by
    rw [Numeral.text, Numeral.text, hheads] at h
    exact List.append_cancel_left h
  obtain ⟨whole, fraction, hne, hdigits, hfraction⟩ := n
  obtain ⟨whole', fraction', hne', hdigits', hfraction'⟩ := n'
  have hfractions : fraction = fraction' := by
    cases fraction <;> cases fraction' <;> simp_all
  cases hheads
  cases hfractions
  rfl

namespace Tree

/-- The shape of a tree. -/
def shape : {r : Name} → Tree r → Shape
  | _, sum left op _ right => .operation op left.shape right.shape
  | _, term tree => tree.shape
  | _, product left op _ right => .operation op left.shape right.shape
  | _, factor tree => tree.shape
  | _, opposite tree => .opposite tree.shape
  | _, brackets tree => .brackets tree.shape
  | _, number numeral => .number numeral.text

theorem fold_shapes {r : Name} (tree : Tree r) : tree.fold .shapes = .ok tree.shape := by
  induction tree with
  | sum left op mem right ihleft ihright =>
    rw [fold, ihleft, ihright]
    rfl
  | term tree ih => exact ih
  | product left op mem right ihleft ihright =>
    rw [fold, ihleft, ihright]
    rfl
  | factor tree ih => exact ih
  | opposite tree ih =>
    rw [fold, ih]
    rfl
  | brackets tree ih =>
    rw [fold, ih]
    rfl
  | number numeral => simp [fold, shape, Meaning.shapes]

/-- Factors are no operations. -/
theorem shape_factor_ne (tree : Tree .factor) (op : Operation) (left right : Shape) :
    tree.shape ≠ .operation op left right := by
  cases tree <;> simp [shape]

/-- Terms are no sums. -/
theorem shape_term_ne (tree : Tree .term) {op : Operation} (h : op ∈ sums) (left right : Shape) :
    tree.shape ≠ .operation op left right := by
  cases tree with
  | product first op' mem second =>
    intro heq
    cases heq
    exact sign_ne_of_sums h op mem rfl
  | factor tree => exact shape_factor_ne tree op left right

/-- Trees of one rank are told apart by their shapes. -/
theorem eq_of_shape_eq {r : Name} {tree tree' : Tree r} (h : tree.shape = tree'.shape) :
    tree = tree' := by
  induction tree with
  | sum left op mem right ihleft ihright =>
    cases tree' with
    | sum left' op' mem' right' =>
      injection h with hop hleft hright
      cases hop
      rw [ihleft hleft, ihright hright]
    | term tree' => exact absurd h.symm (shape_term_ne tree' mem _ _)
  | term tree ih =>
    cases tree' with
    | sum left' op' mem' right' => exact absurd h (shape_term_ne tree mem' _ _)
    | term tree' => rw [ih h]
  | product left op mem right ihleft ihright =>
    cases tree' with
    | product left' op' mem' right' =>
      injection h with hop hleft hright
      cases hop
      rw [ihleft hleft, ihright hright]
    | factor tree' => exact absurd h.symm (shape_factor_ne tree' _ _ _)
  | factor tree ih =>
    cases tree' with
    | product left' op' mem' right' => exact absurd h (shape_factor_ne tree _ _ _)
    | factor tree' => rw [ih h]
  | opposite tree ih =>
    cases tree' with
    | opposite tree' =>
      injection h with hshape
      rw [ih hshape]
    | brackets tree' => cases h
    | number numeral => cases h
  | brackets tree ih =>
    cases tree' with
    | opposite tree' => cases h
    | brackets tree' =>
      injection h with hshape
      rw [ih hshape]
    | number numeral => cases h
  | number numeral =>
    cases tree' with
    | opposite tree' => cases h
    | brackets tree' => cases h
    | number numeral' =>
      injection h with htext
      rw [Numeral.text_injective htext]

/-- A source is derived by one tree. -/
theorem Derives.unique {source : String} {tree tree' : Tree .expr} (h : tree.Derives source)
    (h' : tree'.Derives source) : tree' = tree := by
  have heq : tree'.fold .shapes = tree.fold .shapes := h'.calculate_eq.symm.trans h.calculate_eq
  rw [fold_shapes, fold_shapes] at heq
  exact eq_of_shape_eq (Except.ok.inj heq)

end Tree

/-- Sources that come to a value are derived by one tree, and come to its value; and those
that a tree derives come to its value, or stop at the first fault on the way to it. -/
structure Exact (session : Session) (registry : Option RegistryId) : Prop where
  derived : ∀ source v, (evaluate source registry session).1 = .ok v →
    ∃ tree : Tree .expr, tree.Derives source ∧ tree.value = .ok v ∧
      ∀ tree' : Tree .expr, tree'.Derives source → tree' = tree
  computed : ∀ (tree : Tree .expr) source, tree.Derives source →
    (evaluate source registry session).1 = tree.value.mapError .fault

/-- The calculator accepts the texts of the grammar and no others, and computes the values
of their trees, each of which has a text; in a new session, and in every session that serves
it. -/
theorem evaluate_exact :
    (∀ tree : Tree .expr, ∃ source, tree.Derives source) ∧ Exact .empty none ∧
      ∀ (session : Session) (registry : Option RegistryId) (home : RegistryId),
        session.Serves registry home → Exact session registry := by
  have hserved : ∀ (session : Session) (registry : Option RegistryId) (home : RegistryId),
      session.Serves registry home → Exact session registry := by
    intro session registry home h
    refine ⟨?_, ?_⟩
    · intro source v hv
      rw [evaluate_of_serves h] at hv
      cases hresult : Meaning.values.calculate source with
      | error fault =>
        rw [hresult] at hv
        cases hv
      | ok v' =>
        rw [hresult] at hv
        cases hv
        obtain ⟨tree, hderives, hvalue⟩ := Tree.exists_derives hresult
        exact ⟨tree, hderives, hvalue, fun tree' h' => hderives.unique h'⟩
    · intro tree source hderives
      rw [evaluate_of_serves h, hderives.calculate_eq]
      rfl
  have hwritten : ∀ tree : Tree .expr, ∃ source, tree.Derives source :=
    fun tree => ⟨_, tree.derives_text⟩
  exact ⟨hwritten, hserved .empty none 0 Session.serves_empty, hserved⟩

/-- In a new session differences are grouped from the left. -/
theorem evaluate_new_exact :
    Session.empty.Serves none 0 ∧
      ∃ tree : Tree .expr, tree.Derives "8 - 4 -2" ∧ tree.value = .ok (.int 2) := by
  have hvalue : (evaluate "8 - 4 -2" none .empty).1 = .ok (.int 2) := by
    rw [evaluate_of_serves Session.serves_empty]
    rfl
  have hexact := evaluate_exact.2.2 .empty none 0 Session.serves_empty
  obtain ⟨tree, hderives, htree, -⟩ := hexact.derived _ _ hvalue
  exact ⟨Session.serves_empty, tree, hderives, htree⟩

end SeedGrowth.Calculator
