import SeedGrowth.Grammar.Session

/-!
# Guarded rules

A guarded rule may call itself, directly or through others, before it has read
anything. The first call at a position sets the rule's flag on the cursor and
enters a frame in its anchor. A call that finds the flag set does not evaluate
the rule again: it gets the best match so far, which is a failure to begin with.
If that has happened, the first call evaluates the rule's body again with its
last match as the best, and goes on as long as matches get longer.
-/
namespace SeedGrowth

/-- The flags and the anchor at a position. Flags that were set at another
position say nothing about this one and are dropped. -/
def enterAt (position : Nat) (flags : Flags Carried) : Flags Carried × Anchor :=
  match flags.carried with
  | .anchor anchor =>
    if anchor.position = position then (flags, anchor) else fresh
  | _ => fresh
where
  /-- No flag is set, and no call has begun. -/
  fresh : Flags Carried × Anchor :=
    (flags.clearAll.carrying (.anchor (.empty position)), .empty position)

/-- Flags without a flag and its frame. -/
def withoutFlag (flag : Nat) (flags : Flags Carried) : Except Fault (Flags Carried) :=
  match flags.carried with
  | .anchor anchor =>
    if (anchor.frame? flag).isSome then
      (flags.carrying (.anchor (anchor.erase flag))).clear (.int flag)
    else flags.clear (.int flag)
  | _ => flags.clear (.int flag)

/-- A match without the flag and the frame of the call that it is the result of. -/
def Match.leave (flag : Nat) (m : Match) : Except Fault Match := do
  let flags ← withoutFlag flag (← m.rest.flags)
  return { m with rest := m.rest.withFlags flags }

/-- What a call of a guarded rule finds where it begins. -/
structure Arrival where
  registry : RegistryId
  name : Value
  flag : Nat
  position : Nat
  level : Nat
  verbose : Bool
  /-- The flags at the position. -/
  flags : Flags Carried
  /-- The anchor at the position. -/
  anchor : Anchor
  /-- The flag is set. -/
  active : Bool

/-- Looks up the flag of a rule at a cursor. -/
def arrive (name : Value) (bound : Option RegistryId) (s : Cursor) : Eval Arrival := do
  let id ← Eval.registryOr bound
  let flag ← Eval.flagOf id name
  let (flags, anchor) := enterAt s.remaining (← Eval.lift s.flags)
  let registry ← Eval.read (·.registry id)
  let active ← Eval.lift (flags.check (.int flag))
  return ⟨id, name, flag, s.remaining, registry.level, registry.verbose, flags, anchor, active⟩

/-- What stays the same during one call of a guarded rule that is evaluated. -/
structure Call where
  registry : RegistryId
  name : Value
  flag : Nat
  position : Nat
  level : Nat
  verbose : Bool
  frame : FrameId

namespace Arrival

/-- The answer to a call that finds its flag set: the best match of the call that
set it, if that is known. -/
def answer (arrival : Arrival) : Eval (Option Match) :=
  match arrival.anchor.frame? arrival.flag with
  | none => return none
  | some id => do
    Eval.modifyFrame id fun frame => { frame with reentered := true }
    let frame ← Eval.read (·.frame id)
    Eval.trace arrival.verbose (.seeded arrival.level arrival.name frame.bestValue)
    return frame.best

/-- Enters a frame and sets the flag on the cursor. -/
def begin (arrival : Arrival) (s : Cursor) : Eval (Call × Cursor) := do
  let ⟨registry, name, flag, position, level, verbose, flags, anchor, _⟩ := arrival
  let frame ← Eval.newFrame (.begin name flag position)
  let flags ← Eval.lift (flags.set (.int flag))
  let s := s.withFlags (flags.carrying (.anchor (anchor.insert flag frame)))
  Eval.trace verbose (.entered level name s.fragment)
  return (⟨registry, name, flag, position, level, verbose, frame⟩, s)

end Arrival

namespace Call

/-- The value of a result. -/
def valueOf (result : Option Match) : Option Value := result.map (·.value)

/-- Reports the result of an evaluation, and looks at the frame. -/
def review (call : Call) (round : Nat) (result : Option Match) : Eval Frame := do
  Eval.trace call.verbose
    (.evaluated call.level call.name call.position round (valueOf result))
  Eval.read (·.frame call.frame)

/-- A result that is longer than the best match in the frame. -/
def longer? (call : Call) (frame : Frame) (result : Option Match) : Option Match :=
  result.filter fun m => frame.length < m.consumed call.position

/-- Makes a match the best one. -/
def adopt (call : Call) (m : Match) : Eval Unit :=
  Eval.modifyFrame call.frame fun frame =>
    { frame with best := some m, length := m.consumed call.position }

/-- Stays with the best match in the frame, because the last result failed or was not
longer. -/
def settle (call : Call) (frame : Frame) (result : Option Match) : Eval (Option Match) := do
  Eval.trace call.verbose <|
    match result with
    | none => .failed call.level frame.bestValue
    | some _ => .bailed call.level frame.bestValue
  return frame.best

/-- Judges the result of an evaluation. It is the result of the call if the frame is not
marked. Otherwise the call goes on with a match that is longer than the best one, or else
stays with the best one. -/
def judge (call : Call) (round : Nat) (result : Option Match)
    (further : Match → Eval (Option Match)) : Eval (Option Match) := do
  if (← Eval.read (·.frame call.frame)).reentered then
    let frame ← call.review round result
    match call.longer? frame result with
    | none => call.settle frame result
    | some m => further m
  else return result

/-- Evaluates the body again as long as its matches get longer and the frame is marked,
beginning with a result of it. -/
def grow (call : Call) (body : Eval (Option Match)) :
    (rounds : Nat) → (round : Nat) → (result : Option Match) → Eval (Option Match)
  | 0, round, result => call.judge round result fun _ => throw .exhausted
  | rounds + 1, round, result => call.judge round result fun m => do
    call.adopt m
    grow call body rounds (round + 1) (← body)

/-- The result of a call that has set its flag. A body that was not asked for
again is evaluated once. A match takes up `position` characters at most, so matches
can get longer that many times. -/
def evaluate (call : Call) (body : Eval (Option Match)) : Eval (Option Match) := do
  call.grow body call.position 1 (← body)

/-- Takes the flag and the frame off the result. -/
def finish (call : Call) (result : Option Match) : Eval (Option Match) := do
  Eval.trace call.verbose (.left call.level call.name (valueOf result))
  match result with
  | none => return none
  | some m => some <$> Eval.lift (m.leave call.flag)

end Call

/-- A rule body that may be called again at the position where it is being
evaluated. -/
def guarded (name : Value) (bound : Option RegistryId)
    (body : Cursor → Eval (Option Match)) (s : Cursor) : Eval (Option Match) := do
  let arrival ← arrive name bound s
  if arrival.active then arrival.answer
  else do
    let (call, s) ← arrival.begin s
    let result ← Eval.deeper call.registry (call.evaluate (body s))
    call.finish result

end SeedGrowth
