import SeedGrowth.Calculator.Grammar

/-!
# Scopes of registries

Which registry is current is a matter of scope. A block makes a given registry,
or a new one, current until it is left, in whatever way; a thread begins with no
registry current and does not change what is current outside it. Actions are
performed one after the other, and a fault in one is its answer.
-/
namespace SeedGrowth.Scoping

/-- What can be done in a scope. -/
inductive Action where
  /-- Asks for the current registry. -/
  | current
  /-- Asks for the flag of a name in the current registry. -/
  | get (name : Literal)
  /-- Asks for the contents of the current registry. -/
  | state
  /-- Makes a registry that can be referred to by a label. -/
  | create (label : String) (capacity : Option Literal) (verbose : Bool)
  /-- Asks for the flag of a name in a labelled registry. -/
  | flagIn (label : String) (name : Literal)
  /-- Calculates with a labelled registry or the current one. -/
  | evaluate (source : String) (registry : Option String)
  /-- Parses a source with a labelled registry or the current one. -/
  | parse {count : Nat} (grammar : Grammar (Fin count)) (parser : Parser (Fin count))
      (source : String) (registry : Option String) (complete : Bool)
  /-- A block with a labelled registry or a new one, left by an exception or not. -/
  | block (registry : Option String) (actions : List Action) (raises : Bool)
  /-- A thread that is run to its end. -/
  | thread (actions : List Action)
deriving Inhabited

/-- The answer to an action. -/
inductive Answer where
  | current (id : RegistryId)
  | flag (id : RegistryId) (flag : Except Stop Nat)
  | state (id : RegistryId) (registry : Registry)
  | created (id : RegistryId)
  | value (value : Value)
  | block (id : RegistryId) (answers : List Answer) (raised : Bool)
  | thread (answers : List Answer)
  | failed (stop : Stop)

/-- A session in which registries have labels. -/
structure Bench where
  session : Session
  labels : List (String × RegistryId)

namespace Bench

/-- Nothing has happened yet. -/
def empty : Bench := ⟨.empty, []⟩

/-- The current registry. -/
def current (bench : Bench) : RegistryId × Bench :=
  let (id, session) := bench.session.currentRegistry
  (id, { bench with session })

/-- Adds a registry. -/
def add (bench : Bench) (registry : Registry) : RegistryId × Bench :=
  let (id, session) := bench.session.addRegistry registry
  (id, { bench with session })

/-- The registry with a label. -/
def lookup (bench : Bench) (label : String) : Except Stop RegistryId :=
  match bench.labels.lookup label with
  | some id => .ok id
  | none => .error (.fault (.unknownName label))

/-- The registry with a label, or a new one. -/
def lookupOrAdd (bench : Bench) : Option String → Except Stop (RegistryId × Bench)
  | some label => do return (← bench.lookup label, bench)
  | none => .ok (bench.add default)

/-- The bench with this registry current. -/
def withCurrent (bench : Bench) (current : Option RegistryId) : Bench :=
  { bench with session := { bench.session with current } }

/-- An evaluation in the session. -/
def run {α : Type} (bench : Bench) (x : Eval α) : Except Stop α × Bench :=
  let (result, session) := x bench.session
  (result, { bench with session })

/-- The value that comes out of a labelled registry or the current one. -/
def compute (bench : Bench) (label : Option String) (value : Option RegistryId → Eval Value) :
    Answer × Bench :=
  match label.mapM bench.lookup with
  | .error stop => (.failed stop, bench)
  | .ok registry =>
    match bench.run (value registry) with
    | (.ok value, bench) => (.value value, bench)
    | (.error stop, bench) => (.failed stop, bench)

end Bench

mutual

/-- Performs an action. -/
def perform : Action → Bench → Answer × Bench
  | .current, bench =>
    let (id, bench) := bench.current
    (.current id, bench)
  | .get name, bench =>
    let (id, bench) := bench.current
    let (result, bench) := bench.run (do Eval.flagOf id (← Eval.lift name))
    (.flag id result, bench)
  | .state, bench =>
    let (id, bench) := bench.current
    (.state id (bench.session.registry id), bench)
  | .create label capacity verbose, bench =>
    match (do Registry.create (← capacity.mapM id) verbose : Except Fault Registry) with
    | .error fault => (.failed (.fault fault), bench)
    | .ok registry =>
      let (id, bench) := bench.add registry
      (.created id, { bench with labels := (label, id) :: bench.labels })
  | .flagIn label name, bench =>
    match bench.lookup label with
    | .error stop => (.failed stop, bench)
    | .ok id =>
      let (result, bench) := bench.run (do Eval.flagOf id (← Eval.lift name))
      (.flag id result, bench)
  | .evaluate source label, bench => bench.compute label (Calculator.evaluate source)
  | .parse grammar parser source label complete, bench =>
    bench.compute label fun registry =>
      grammar.parse parser ⟨source, registry, complete, unnamedFile⟩
  | .block label actions raises, bench =>
    match bench.lookupOrAdd label with
    | .error stop => (.failed stop, bench)
    | .ok (id, bench) =>
      let (answers, after) := performAll actions (bench.withCurrent (some id))
      (.block id answers raises, after.withCurrent bench.session.current)
  | .thread actions, bench =>
    let (answers, after) := performAll actions (bench.withCurrent none)
    (.thread answers, after.withCurrent bench.session.current)

/-- Performs actions one after the other. -/
def performAll : List Action → Bench → List Answer × Bench
  | [], bench => ([], bench)
  | action :: rest, bench =>
    let (answer, bench) := perform action bench
    let (answers, bench) := performAll rest bench
    (answer :: answers, bench)

end

end SeedGrowth.Scoping
