import SeedGrowth.Grammar.Trace
import SeedGrowth.Registry.Basic

/-!
# Sessions

An evaluation works on a session: the registries there are and the one that is
current, the frames of all calls so far, the trace, and a log of what grammars
were told to show. A session survives faults, whatever the way out of an
evaluation, and the operations below that change something for a while put it
back on every way out.
-/
namespace SeedGrowth

/-- The number of a registry. -/
abbrev RegistryId := Nat

/-- What a grammar was told to show, with the frames as they were then. -/
inductive LogEntry where
  | shown (text : String)
  | entered (label : String) (cursor : Cursor) (frames : Array Frame)
  | left (label : String) (result : Option Match) (frames : Array Frame)

/-- No number in the entry is too long to be written. -/
def LogEntry.writable : LogEntry → Bool
  | .shown _ => true
  | .entered _ cursor frames => cursor.writable frames
  | .left _ result frames => result.all fun m => m.rest.writable frames && m.value.writable

/-- The state of an evaluation. -/
structure Session where
  registries : Array Registry
  current : Option RegistryId
  frames : Array Frame
  trace : Array TraceEvent
  log : Array LogEntry

/-- Why an evaluation stopped without an answer. -/
inductive Stop where
  | fault (cause : Fault)
  /-- Calls were nested deeper than was allowed for. -/
  | exhausted

namespace Session

/-- A session in which nothing has happened. -/
def empty : Session := ⟨#[], none, #[], #[], #[]⟩

/-- A registry of the session. -/
def registry (session : Session) (id : RegistryId) : Registry := session.registries.getD id default

/-- A frame of the session. -/
def frame (session : Session) (id : FrameId) : Frame := session.frames.getD id default

/-- Changes a registry. -/
def modifyRegistry (session : Session) (id : RegistryId) (change : Registry → Registry) : Session :=
  { session with registries := session.registries.modify id change }

/-- Adds a registry. -/
def addRegistry (session : Session) (registry : Registry) : RegistryId × Session :=
  (session.registries.size, { session with registries := session.registries.push registry })

/-- The current registry; a standard one is made current if there is none. -/
def currentRegistry (session : Session) : RegistryId × Session :=
  match session.current with
  | some id => (id, session)
  | none =>
    let (id, session) := session.addRegistry default
    (id, { session with current := some id })

/-- The lines of the trace. -/
def traceLines (session : Session) : List String := session.trace.toList.flatMap TraceEvent.lines

/-- The session before its next call: frames, trace and log are those of one call. -/
def renewed (session : Session) : Session :=
  { session with frames := #[], trace := #[], log := #[] }

end Session

/-- An evaluation in a session. -/
abbrev Eval (α : Type) : Type := ExceptT Stop (StateM Session) α

namespace Eval

variable {α : Type}

/-- Ends an evaluation with a fault. -/
def fail (fault : Fault) : Eval α := throw (.fault fault)

/-- An answer or a fault. -/
def lift : Except Fault α → Eval α
  | .ok a => pure a
  | .error fault => fail fault

/-- Something read off the session. -/
def read (f : Session → α) : Eval α := f <$> get

/-- The current registry. -/
def currentRegistry : Eval RegistryId := do
  let (id, session) := (← get).currentRegistry
  set session
  return id

/-- The given registry, or the current one. -/
def registryOr (bound : Option RegistryId) : Eval RegistryId :=
  match bound with
  | some id => pure id
  | none => currentRegistry

/-- The flag of a name in a registry. -/
def flagOf (id : RegistryId) (name : Value) : Eval Nat := do
  let (flag, registry) ← lift ((← get).registry id |>.get name)
  modify (·.modifyRegistry id fun _ => registry)
  return flag

/-- Evaluates with a registry made current, and puts the former one back. -/
def within (id : RegistryId) (x : Eval α) : Eval α := fun session =>
  let (result, after) := x { session with current := some id }
  (result, { after with current := session.current })

/-- Evaluates with no registry current, and puts the former one back. -/
def apart (x : Eval α) : Eval α := fun session =>
  let (result, after) := x { session with current := none }
  (result, { after with current := session.current })

/-- Evaluates one level deeper in a registry, and goes back up. -/
def deeper (id : RegistryId) (x : Eval α) : Eval α := fun session =>
  let (result, after) := x (session.modifyRegistry id fun r => { r with level := r.level + 1 })
  (result, after.modifyRegistry id fun r => { r with level := r.level - 1 })

/-- Adds a frame. -/
def newFrame (frame : Frame) : Eval FrameId := do
  let id := (← get).frames.size
  modify fun session => { session with frames := session.frames.push frame }
  return id

/-- Changes a frame. -/
def modifyFrame (id : FrameId) (change : Frame → Frame) : Eval Unit :=
  modify fun session => { session with frames := session.frames.modify id change }

/-- Adds an event to the trace of a verbose registry. An event whose report cannot
be written is a fault. -/
def trace (verbose : Bool) (event : TraceEvent) : Eval Unit :=
  if verbose then do
    let _ ← lift event.text
    modify fun session => { session with trace := session.trace.push event }
  else pure ()

/-- Adds an entry to the log. An entry that cannot be written is a fault. -/
def log (entry : Array Frame → LogEntry) : Eval Unit := do
  let entry := entry (← get).frames
  if entry.writable then modify fun session => { session with log := session.log.push entry }
  else fail .unwritableInteger

end Eval

end SeedGrowth
