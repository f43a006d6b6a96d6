import SeedGrowth.Calculator.Grammar
import SeedGrowth.CommandLine.Options
import SeedGrowth.CommandLine.Report
import SeedGrowth.Decimal.Precise

/-!
# The command

The command evaluates an expression, which is its operand or else is read from
the standard input, and prints the value. It can print how long that took and
which rules were guarded, and a trace of them. Faults of use end it with status 2,
expressions without a value with status 1. Any other fault is not dealt with.
-/
namespace SeedGrowth.CommandLine

/-- How the command ends. -/
inductive Status where
  | exit (code : Nat)
  /-- A fault that the command does not expect. -/
  | stopped (stop : Stop)

/-- What the command writes, and how it ends. -/
structure Outcome where
  stdout : String
  stderr : String
  status : Status

/-- The outcome of a wrong use. -/
def Outcome.ofUsage (message : String) : Outcome := ⟨"", usageError message, .exit 2⟩

/-- The outcome of a command line that is not carried out. -/
def Ending.outcome : Ending → Outcome
  | .help => ⟨helpText, "", .exit 0⟩
  | .usage message => .ofUsage message

/-- The outcome of a capacity that cannot be used. -/
def Outcome.ofCapacityFault (fault : Fault) : Outcome :=
  match fault with
  | .badCapacity _ => .ofUsage fault.message
  | fault => ⟨"", "", .stopped (.fault fault)⟩

/-- A command line that can be carried out. -/
structure Job where
  settings : Settings
  registry : Registry

/-- The job that a command line asks for. -/
def Job.read (release : Release) (arguments : List String) : Except Outcome Job :=
  match Settings.read release arguments with
  | .error ending => .error ending.outcome
  | .ok settings =>
    match Registry.create (some settings.capacity) (2 ≤ settings.verbose) with
    | .error fault => .error (.ofCapacityFault fault)
    | .ok registry => .ok ⟨settings, registry⟩

namespace Job

/-- The operand, unless the standard input is to be read. -/
def operand? (job : Job) : Option String := job.settings.expression.filter (· ≠ "-")

/-- The source of the expression. -/
def source (job : Job) (input : String) : String := job.operand?.getD input

/-- The name of the source. -/
def file (job : Job) : String := if job.operand?.isSome then unnamedFile else "<stdin>"

/-- Evaluates the expression. -/
def evaluate (job : Job) (input : String) : Except Stop Value × Session :=
  let (id, session) := Session.empty.addRegistry job.registry
  Calculator.evaluate (job.source input) (some id) session

/-- The lines of a trace. -/
def traceText (session : Session) : String :=
  String.join (session.traceLines.map (· ++ "\n"))

/-- A text behind spaces up to a width. -/
def rightAligned (width : Nat) (text : String) : String :=
  String.ofList (List.replicate (width - text.length) ' ') ++ text

/-- The names in a registry with their flags. -/
def nameLines (registry : Registry) : String :=
  String.join (registry.names.zipIdx.map fun (name, flag) =>
    "  " ++ rightAligned 3 (toString flag) ++ ": " ++ (name.plain.toOption.getD "") ++ "\n")

/-- How many characters there were for every second, unless no time passed. -/
def rateText (length : Nat) (elapsed : Number) : Except Fault String := do
  if elapsed.isZero then return ""
  else
    let rate ← (← Operation.divide.onNumbers (.int length) elapsed).toReal
    return "; " ++ Decimal.fixed 0 rate ++ " characters/sec"

/-- How long the evaluation took, and which rules were guarded. -/
def statistics (job : Job) (input : String) (session : Session) (before after : Number) :
    Except Fault String := do
  let length := (job.source input).length
  let elapsed ← Operation.subtract.onNumbers after before
  return "Total time: " ++ Decimal.fixed 3 (← elapsed.toReal) ++ s!" sec; {length} characters" ++
    (← rateText length elapsed) ++ "\n" ++ "Guarded rules:\n" ++ nameLines (session.registry 0)

/-- What is printed of a value. -/
def valueText (job : Job) (value : Value) : Except Fault String :=
  if job.settings.quiet then .ok "" else (· ++ "\n") <$> value.plain

/-- What is printed after the value. -/
def epilogue (job : Job) (input : String) (session : Session) (before after : Number) :
    Except Fault String :=
  if job.settings.verbose = 0 then .ok "" else job.statistics input session before after

/-- The outcome of an evaluation, given the times before and after it. -/
def outcome (job : Job) (input : String) (before after : Number) :
    Except Stop Value × Session → Outcome
  | (.ok value, session) =>
    match job.valueText value with
    | .error fault => ⟨traceText session, "", .stopped (.fault fault)⟩
    | .ok text =>
      let printed := traceText session ++ text
      match job.epilogue input session before after with
      | .error fault => ⟨printed, "", .stopped (.fault fault)⟩
      | .ok rest => ⟨printed ++ rest, "", .exit 0⟩
  | (.error stop, session) =>
    let report? :=
      match stop with
      | .fault fault => faultReport? fault job.file
      | .exhausted => none
    match report? with
    | some report => ⟨traceText session, report, .exit 1⟩
    | none => ⟨traceText session, "", .stopped stop⟩

end Job

/-- The outcome of a command line, given the standard input and the times before
and after the evaluation. -/
def run (arguments : List String) (input : String) (before after : Number)
    (release : Release := .earlier) : Outcome :=
  match Job.read release arguments with
  | .error outcome => outcome
  | .ok job => job.outcome input before after (job.evaluate input)

end SeedGrowth.CommandLine
