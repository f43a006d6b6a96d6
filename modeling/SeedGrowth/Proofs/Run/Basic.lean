import SeedGrowth.Grammar.Evaluation

/-!
# Runs and their history

A run is an evaluation that is followed: next to the session it keeps the calls that
have not ended and the moments of the run so far. A moment says what happened, inside
which calls, and how the frames were. `Parser.follow` and `Grammar.followCall` follow
`Parser.eval` and `Grammar.call` step by step; that following changes nothing is proved
apart from this.
-/
namespace SeedGrowth

/-- A call of a rule that has not ended. -/
structure OpenCall (ρ : Type) where
  rule : ρ
  /-- How much text was left where the call began. -/
  position : Nat
  /-- The flag and the frame of a guarded call. -/
  seat : Option (Nat × FrameId)

/-- What happens in a run. -/
inductive Happening (ρ : Type) where
  /-- A parser is given a cursor. -/
  | handed (parser : Parser ρ) (cursor : Cursor)
  /-- A call of a guarded rule looks up its flag. -/
  | arrived (rule : ρ) (arrival : Arrival)
  /-- A frame is read, marked or given another best match. -/
  | touched (frame : FrameId)

/-- What happens, inside which calls, the last one first, and the frames before it. -/
structure Moment (ρ : Type) where
  happening : Happening ρ
  calls : List (OpenCall ρ)
  frames : Array Frame

/-- The state of a run: the last call and the last moment come first. -/
structure Run (ρ : Type) where
  session : Session
  calls : List (OpenCall ρ)
  moments : List (Moment ρ)

/-- The run with a further moment. -/
def Run.noted {ρ : Type} (run : Run ρ) (happening : Happening ρ) : Run ρ :=
  { run with moments := ⟨happening, run.calls, run.session.frames⟩ :: run.moments }

/-- An evaluation that is followed. -/
abbrev Followed (ρ α : Type) : Type := ExceptT Stop (StateM (Run ρ)) α

namespace Followed

variable {ρ α : Type}

/-- An evaluation in which nothing is to be seen. -/
def plain (x : Eval α) : Followed ρ α := fun run =>
  let (result, session) := x run.session
  (result, { run with session })

/-- Adds a moment. -/
def note (happening : Happening ρ) : Followed ρ Unit := modify (·.noted happening)

/-- Evaluates inside a call. -/
def inside (call : OpenCall ρ) (x : Followed ρ α) : Followed ρ α := fun run =>
  let (result, after) := x { run with calls := call :: run.calls }
  (result, { after with calls := run.calls })

/-- Evaluates one level deeper in a registry, and goes back up. -/
def deeper (id : RegistryId) (x : Followed ρ α) : Followed ρ α := fun run =>
  let lower := run.session.modifyRegistry id fun r => { r with level := r.level + 1 }
  let (result, after) := x { run with session := lower }
  let upper := after.session.modifyRegistry id fun r => { r with level := r.level - 1 }
  (result, { after with session := upper })

end Followed

namespace Call

variable {ρ : Type}

/-- `Call.judge`, followed. -/
def followJudge (call : Call) (round : Nat) (result : Option Match)
    (further : Match → Followed ρ (Option Match)) : Followed ρ (Option Match) := do
  Followed.note (.touched call.frame)
  if (← Followed.plain (Eval.read (·.frame call.frame))).reentered then
    Followed.note (.touched call.frame)
    let frame ← Followed.plain (call.review round result)
    match call.longer? frame result with
    | none => Followed.plain (call.settle frame result)
    | some m => further m
  else return result

/-- `Call.grow`, followed. -/
def followGrow (call : Call) (body : Followed ρ (Option Match)) :
    (rounds : Nat) → (round : Nat) → (result : Option Match) → Followed ρ (Option Match)
  | 0, round, result => call.followJudge round result fun _ => throw .exhausted
  | rounds + 1, round, result => call.followJudge round result fun m => do
    Followed.note (.touched call.frame)
    Followed.plain (call.adopt m)
    followGrow call body rounds (round + 1) (← body)

/-- `Call.evaluate`, followed. -/
def followEvaluate (call : Call) (body : Followed ρ (Option Match)) :
    Followed ρ (Option Match) := do
  call.followGrow body call.position 1 (← body)

/-- The call as it is listed while it is open. -/
def opened (call : Call) (rule : ρ) : OpenCall ρ :=
  ⟨rule, call.position, some (call.flag, call.frame)⟩

end Call

/-- `Arrival.answer`, followed. -/
def Arrival.followAnswer {ρ : Type} (arrival : Arrival) : Followed ρ (Option Match) := do
  match arrival.anchor.frame? arrival.flag with
  | none => return none
  | some id => do
    Followed.note (.touched id)
    Followed.plain arrival.answer

/-- `guarded`, followed. -/
def followGuarded {ρ : Type} (rule : ρ) (name : Value) (bound : Option RegistryId)
    (body : Cursor → Followed ρ (Option Match)) (s : Cursor) : Followed ρ (Option Match) := do
  let arrival ← Followed.plain (arrive name bound s)
  Followed.note (.arrived rule arrival)
  if arrival.active then arrival.followAnswer
  else do
    let (call, s) ← Followed.plain (arrival.begin s)
    let result ← Followed.inside (call.opened rule)
      (Followed.deeper call.registry (call.followEvaluate (body s)))
    Followed.plain (call.finish result)

namespace Parser

variable {ρ : Type}

/-- `Parser.repeatWhile`, followed. -/
def followRepeat (parser : Cursor → Followed ρ (Option Match)) :
    Nat → Cursor → Followed ρ (Cursor × List Value)
  | 0, _ => throw .exhausted
  | rounds + 1, s => do
    match ← parser s with
    | none => return (s, [])
    | some m =>
      if m.rest.place.offset = s.place.offset then return (s, [])
      else do
        let (rest, values) ← followRepeat parser rounds m.rest
        return (rest, m.value :: values)

mutual

/-- `Parser.eval`, followed. -/
def follow (call : ρ → Cursor → Followed ρ (Option Match)) (parser : Parser ρ) (s : Cursor) :
    Followed ρ (Option Match) := do
  Followed.note (.handed parser s)
  match parser with
  | alt branches => followFirst call branches s
  | sequence items =>
    return (← followAll call items s).map fun (rest, values) => ⟨rest, .tuple values⟩
  | mapped parser change =>
    match ← follow call parser s with
    | none => return none
    | some m => return some { m with value := ← Followed.plain (Eval.lift (change m.value)) }
  | opt parser =>
    match ← follow call parser s with
    | none => return some ⟨s, .null⟩
    | some m => return some m
  | many parser => do
    let (rest, values) ← followRepeat (follow call parser) (s.remaining + 1) s
    return some ⟨rest, .list values⟩
  | ref rule => call rule s
  | peek parser => return (← follow call parser s).map fun m => { m with rest := s }
  | absent parser =>
    match ← follow call parser s with
    | none => return some ⟨s, .text ""⟩
    | some _ => return none
  | .watch label parser => do
    Followed.plain (Eval.log (.entered label s))
    let result ← follow call parser s
    Followed.plain (Eval.log (.left label result))
    return result
  | leaf => Followed.plain (leaf.eval (fun _ _ => return none) s)

/-- `Parser.evalFirst`, followed. -/
def followFirst (call : ρ → Cursor → Followed ρ (Option Match)) :
    List (Parser ρ) → Cursor → Followed ρ (Option Match)
  | [], _ => return none
  | parser :: rest, s => do
    match ← follow call parser s with
    | none => followFirst call rest s
    | some m => return some m

/-- `Parser.evalAll`, followed. -/
def followAll (call : ρ → Cursor → Followed ρ (Option Match)) :
    List (Parser ρ) → Cursor → Followed ρ (Option (Cursor × List Value))
  | [], s => return some (s, [])
  | parser :: rest, s => do
    match ← follow call parser s with
    | none => return none
    | some m =>
      return (← followAll call rest m.rest).map fun (s, values) => (s, m.value :: values)

end

end Parser

namespace Grammar

variable {ρ : Type}

/-- `Grammar.call`, followed. -/
def followCall (g : Grammar ρ) : Nat → ρ → Cursor → Followed ρ (Option Match)
  | 0, _, _ => throw .exhausted
  | depth + 1, r, s =>
    let body := (g.rule r).body.follow (g.followCall depth)
    match (g.rule r).guard with
    | none => Followed.inside ⟨r, s.remaining, none⟩ (body s)
    | some guard => followGuarded r guard.name guard.registry body s

/-- The run of a parser from a cursor in a session, with a bound on how deep calls may
be nested: how it ends, and its state then. -/
def run (g : Grammar ρ) (depth : Nat) (parser : Parser ρ) (s : Cursor) (session : Session) :
    Except Stop (Option Match) × Run ρ :=
  parser.follow (g.followCall depth) s ⟨session, [], []⟩

end Grammar

end SeedGrowth
