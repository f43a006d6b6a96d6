import SeedGrowth.Grammar.Parsing
import SeedGrowth.Proofs.Program

/-!
# What parsing a source comes to

A source is parsed by applying a parser to a clear cursor while a registry is current. What comes
of that is the answer of the parse or a report of where the source does not match, which goes
well on every line that there is.
-/
namespace SeedGrowth

variable {ρ : Type} {σ : Session} {home : RegistryId}

/-- What a source comes to, given where it was parsed from and the result. -/
def Request.outcome (request : Request) (start : Cursor) : Option Match → Except Fault Value
  | none => .error (start.unmatched request.source request.file)
  | some m =>
    if request.complete && !m.rest.fragment.isEmpty then
      .error (m.rest.unmatched request.source request.file)
    else .ok m.value

/-- While the registry is current, a parser is applied to a clear cursor. -/
theorem Grammar.within_apply (g : Grammar ρ) (parser : Parser ρ) {text : List Char}
    {σ : Session} {home : RegistryId} {s : Cursor}
    (hclear : Cursor.clear text (σ.registry home).capacity = .ok s) :
    Eval.within home (do
      let capacity ← Eval.read fun session => (session.registry home).capacity
      let start ← Eval.lift (Cursor.clear text capacity)
      return (start, ← g.apply parser start)) σ =
      ((g.apply parser s { σ with current := some home }).1.map (s, ·),
        { (g.apply parser s { σ with current := some home }).2 with current := σ.current }) := by
  have hread : Eval.read (fun session => (session.registry home).capacity)
      { σ with current := some home } =
      (.ok (σ.registry home).capacity, { σ with current := some home }) := rfl
  have hlift : Eval.lift (Cursor.clear text (σ.registry home).capacity)
      { σ with current := some home } = (.ok s, { σ with current := some home }) := by
    rw [hclear]
    rfl
  rw [Eval.within, Program.bind_ok hread, Program.bind_ok hlift, Program.bind_apply]
  rcases g.apply parser s { σ with current := some home } with ⟨_ | _, σ'⟩ <;> rfl

/-- A source is parsed from its beginning while its registry is current, and the former one is
put back. -/
theorem Grammar.parse_of_clear (g : Grammar ρ) (parser : Parser ρ) {request : Request}
    {session : Session} (hregistry : Eval.registryOr request.registry session = (.ok home, σ))
    {s : Cursor}
    (hclear : Cursor.clear request.source.toList (σ.registry home).capacity = .ok s) :
    g.parse parser request session =
      ((g.apply parser s { σ with current := some home }).1 >>= fun result =>
          (request.outcome s result).mapError .fault,
        { (g.apply parser s { σ with current := some home }).2 with current := σ.current }) := by
  have hwithin := g.within_apply parser hclear
  rw [parse, Program.bind_ok hregistry]
  rcases h : g.apply parser s { σ with current := some home } with ⟨stop | result, σ'⟩
  · rw [h] at hwithin
    rw [Program.bind_error hwithin]
    rfl
  · rw [h] at hwithin
    rw [Program.bind_ok hwithin]
    cases result with
    | none => rfl
    | some m =>
      rw [ok_bind, Request.outcome]
      dsimp only
      by_cases hrest : (request.complete && !m.rest.fragment.isEmpty) = true
      · rw [if_pos hrest, if_pos hrest]
        rfl
      · rw [if_neg hrest, if_neg hrest]
        rfl

/-- Without flags for the registry nothing is parsed. -/
theorem Grammar.parse_of_clear_error (g : Grammar ρ) (parser : Parser ρ) {request : Request}
    {session : Session} (hregistry : Eval.registryOr request.registry session = (.ok home, σ))
    {fault : Fault}
    (hclear : Cursor.clear request.source.toList (σ.registry home).capacity = .error fault) :
    g.parse parser request session = (.error (.fault fault), σ) := by
  have hread : Eval.read (fun session => (session.registry home).capacity)
      { σ with current := some home } =
      (.ok (σ.registry home).capacity, { σ with current := some home }) := rfl
  have hlift : Eval.lift (Cursor.clear request.source.toList (σ.registry home).capacity)
      { σ with current := some home } =
      (.error (.fault fault), { σ with current := some home }) := by
    rw [hclear]
    rfl
  have hwithin : Eval.within home (do
      let capacity ← Eval.read fun session => (session.registry home).capacity
      let start ← Eval.lift (Cursor.clear request.source.toList capacity)
      return (start, ← g.apply parser start)) σ = (.error (.fault fault), σ) := by
    rw [Eval.within, Program.bind_ok hread, Program.bind_error hlift]
  rw [parse, Program.bind_ok hregistry, Program.bind_error hwithin]

theorem Grammar.parse_outcome (g : Grammar ρ) (parser : Parser ρ) (request : Request)
    {session : Session} {flags : Flags Carried}
    (hregistry : Eval.registryOr request.registry session = (.ok home, σ))
    (hflags : Flags.allocate (σ.registry home).capacity Carried.null = .ok flags) :
    let s := Cursor.start request.source.toList (.bare flags)
    (g.parse parser request session).1 =
      (g.apply parser s { σ with current := some home }).1 >>= fun result =>
        (request.outcome s result).mapError .fault := by
  intro s
  have hclear : Cursor.clear request.source.toList (σ.registry home).capacity = .ok s := by
    rw [Cursor.clear, hflags]
    rfl
  exact congrArg Prod.fst (g.parse_of_clear parser hregistry hclear)

/-- The fault that an evaluation ended with. -/
def fault? {α : Type} : Except Stop α → Option Fault
  | .error (.fault fault) => some fault
  | .error .exhausted | .ok _ => none

theorem fault?_eq_some {α : Type} {result : Except Stop α} {fault : Fault} :
    fault? result = some fault ↔ result = .error (.fault fault) := by
  cases result with
  | ok answer => simp [fault?]
  | error stop => cases stop <;> simp [fault?]

/-! ### Reports -/

theorem Text.length_consLine_le (c : Char) (lines : List (List Char)) :
    (consLine c lines).length ≤ lines.length + 1 := by
  cases lines with
  | nil => exact Nat.le_refl _
  | cons line rest => exact Nat.le_succ _

/-- A text has no more lines than characters. -/
theorem Text.length_lines_le (text : List Char) : (lines text).length ≤ text.length := by
  fun_induction lines text with
  | case1 => exact Nat.le_refl _
  | case2 rest ih =>
    rw [List.length_cons, List.length_cons, List.length_cons]
    omega
  | case3 c rest _ _ ih =>
    rw [List.length_cons, List.length_cons]
    omega
  | case4 c rest _ _ ih =>
    have hle := length_consLine_le c (lines rest)
    rw [List.length_cons]
    omega

/-- An item at a whole number is there, or the number is out of range. -/
theorem eq_of_itemOf_eq_error {α : Type} {row : Kind} {items : List α} {n : Int} {fault : Fault}
    (h : itemOf row items (.int n) = .error fault) :
    fault = .placeTooLarge ∨ fault = .itemOutOfRange row := by
  have hplace : (Value.int n).place row =
      if fitsPlace n then .ok n else .error .placeTooLarge := rfl
  rw [itemOf, hplace] at h
  split at h
  · rw [ok_bind] at h
    split at h <;> cases h
    exact .inr rfl
  · cases h
    exact .inl rfl

/-- Nothing can go wrong with a report but that there is no such line. -/
theorem Fault.unmatchedAt_cases (source : String) (line column : Int) (file : String) :
    (∃ place, Fault.unmatchedAt source line column file = .unmatched place) ∨
      Fault.unmatchedAt source line column file = .placeTooLarge ∨
      Fault.unmatchedAt source line column file = .itemOutOfRange .list := by
  unfold unmatchedAt
  dsimp only
  split
  · split
    · exact .inl ⟨_, rfl⟩
    · next heq => exact .inr (eq_of_itemOf_eq_error heq)
  · exact .inl ⟨_, rfl⟩

/-- A source can be reported not to match on any line from the first one on. -/
theorem Fault.unmatchedAt_eq {source : String} {line : Int} (hline : 1 ≤ line)
    (hsource : source.length < placeLimit) (column : Int) (file : String) :
    ∃ text, Fault.unmatchedAt source line column file = .unmatched ⟨file, line, column, text⟩ := by
  unfold unmatchedAt
  dsimp only
  split
  · next hle =>
    have hlines := Text.length_lines_le source.toList
    rw [String.length_toList] at hlines
    have hlt : (line - 1).toNat < (Text.lines source.toList).length := by omega
    have hfits : fitsPlace (line - 1) = true := by
      simp only [fitsPlace, Bool.and_eq_true, decide_eq_true_eq]
      omega
    have hitem : itemOf .list (Text.lines source.toList) (.int (line - 1)) =
        .ok (Text.lines source.toList)[(line - 1).toNat] := by
      have hplace : (Value.int (line - 1)).place .list = .ok (line - 1) := by
        simp [Value.place, Value.whole?, hfits]
      simp only [itemOf, hplace, ok_bind, itemAt, show 0 ≤ line - 1 by omega, if_true,
        List.getElem?_eq_getElem hlt]
    rw [hitem]
    exact ⟨_, rfl⟩
  · exact ⟨_, rfl⟩

end SeedGrowth
