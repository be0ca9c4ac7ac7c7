-- A session: a registry, the engine on it, and whether it still runs. A line is parsed and
-- executed, and a fault is printed and changes nothing. It is `Program` with `execute`, `run_line`
-- and `should_run`.
import DataLayout.Command
import DataLayout.Console.Display
import DataLayout.Engine

namespace DataLayout

open Console Text

structure Program where
  registry : Registry
  engine : Engine
  running : Bool
  deriving DecidableEq

namespace Program

/-- A session on a registry that may hold definitions already. -/
def start (r : Registry) : Program := ⟨r, .empty, true⟩

def onRegistry {α : Type} (step : Logged Registry α) : Logged Program α :=
  Logged.within (·.registry) (fun r p => { p with registry := r }) step

def ask {α : Type} (question : Registry → Logged Engine α) : Logged Program α := do
  let p ← Logged.state
  Logged.within (·.engine) (fun e p => { p with engine := e }) (question p.registry)

section

variable (limit : DigitLimit) (settings : Settings)

/-! ## Actions -/

/-- Registers a definition and prints nothing. -/
def add (name : String) (d : Definition) : Logged Program (Option Report × String) := do
  onRegistry (Registry.register limit name (.ofDefinition d))
  return (none, "")

/-- Executes an action. The answer is the report, if there is one, and what is printed. -/
def execute (action : Action) : Logged Program (Option Report × String) := do
  Logged.note limit (.executing action)
  match action with
  | .exit =>
    Logged.change fun p => { p with running := false }
    return (none, "")
  | .describe name =>
    let report ← ask fun r => Engine.report limit r name
    if report.writable limit then return (some report, showReport settings report)
    else throw .numeralTooLong
  | .addAtomic name size alignment => add limit name (.atomic size alignment)
  | .addStruct name members => add limit name (.struct members)
  | .addUnion name variants => add limit name (.union variants)

/-- Refuses a value that is no action. -/
def attempt (value : Datum) : Logged Program (Option Report × String) := do
  Logged.note limit (.attempting value)
  throw (.notAnAction value.shown)

/-- Parses a line and executes its action. -/
def executeLine (line : String) : Logged Program (Option Report × String) :=
  match Action.parse line with
  | .ok action => execute limit settings action
  | .error fault => throw (.command fault)

/-! ## Lines -/

/-- Records a refused line. The answer is that it failed, and what is printed. -/
def reject (line message printed : String) : Logged Program (Bool × String) := do
  Logged.note limit (.rejected (String.ofList (trim line.toList)) message)
  return (false, printed)

/-- Answers a failure of a line. Faults are printed, and any other failure goes on. -/
def answerFailure (line : String) : Failure → Logged Program (Bool × String)
  | .type fault => reject limit line fault.message (showTypeFault settings fault.message)
  | .command fault =>
    match fault.message? with
    | some message => reject limit line message (showCommandFault settings message)
    | none => throw .noWording
  | failure => throw failure

/-- Runs a line. The answer is whether it succeeded, and what is printed. -/
def runLine (line : String) : Logged Program (Bool × String) :=
  tryCatch (do let (_, printed) ← executeLine limit settings line; return (true, printed))
    (answerFailure limit settings line)

end

/-! ## Turns -/

/-- What one step of a session leaves behind: its answer, what it printed and recorded, and
the session after it. A step that fails prints nothing. -/
structure Turn (α : Type) where
  answer : Except Failure α
  printed : String
  records : List Record
  program : Program

def turn {α : Type} (p : Program) (step : Logged Program (α × String)) : Turn α :=
  match Logged.runFrom p step with
  | (.ok (answer, printed), after) => ⟨.ok answer, printed, after.records, after.state⟩
  | (.error failure, after) => ⟨.error failure, "", after.records, after.state⟩

/-! ## Lines one after the other -/

section

variable (limit : DigitLimit) (settings : Settings)

/-- The session after some lines. A line that fails does not end them. -/
def afterLines (p : Program) (lines : List String) : Program :=
  lines.foldl (fun p line => (p.turn (runLine limit settings line)).program) p

/-- The turns of some lines. -/
def turns (p : Program) : List String → List (Turn Bool)
  | [] => []
  | line :: rest =>
    let t := p.turn (runLine limit settings line)
    t :: turns t.program rest

/-- What some lines answer and print. -/
def replies (p : Program) : List String → List (Except Failure Bool × String)
  | [] => []
  | line :: rest =>
    let t := p.turn (runLine limit settings line)
    (t.answer, t.printed) :: replies t.program rest

end

end Program

end DataLayout
