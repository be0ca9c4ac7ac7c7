-- The jobs of the local checks: to install the package, to lint it and to test it. They run one by
-- one, and the first that fails ends the run. They are `install`, `linter` and `tests`.
import DataLayout.Checks.Arguments

namespace DataLayout.Checks

/-! ## Jobs -/

/-- A command with its arguments, the directory that it runs in, if it is not the current
one, and whether its output is thrown away. -/
structure Job where
  words : List String
  directory : Option String
  silent : Bool
  deriving DecidableEq

/-- Where the checks run: the interpreter that runs their tools, and the directory of the
package. -/
structure Site where
  interpreter : String
  root : String
  deriving DecidableEq

/-- A path inside the directory of the package. The root of all files ends in a slash itself. -/
def Site.inside (site : Site) (name : String) : String :=
  if site.root.toList.getLast?.all (· = '/') then site.root ++ name else site.root ++ "/" ++ name

section

variable (site : Site) (choices : Choices)

/-- A tool that runs in the directory of the package. -/
def inRoot (tool : List String) : Job :=
  ⟨[site.interpreter, "-m"] ++ tool, some site.root, choices.quiet⟩

def installJob : Job :=
  ⟨[site.interpreter, "-m", "pip", "install", "-e", site.root ++ "[dev]"], none, choices.quiet⟩

/-- The faults that must not be there. -/
def criticalLint : Job :=
  inRoot site choices
    ["flake8", "--select=E9,F63,F7,F82", "--show-source", "typelayout", "tests"]

/-- All other faults. They are shown and never fail. -/
def laxLint : Job :=
  inRoot site choices ["flake8", "--exit-zero", "--max-line-length=127", "typelayout", "tests"]

/-- The arguments that the tests get behind their directory. -/
def testArguments : List String :=
  (if choices.coverage then ["--cov=typelayout", "--cov-report=term-missing"] else []) ++
    match choices.fuzzing with
    | some values => "--fuzzing" :: values
    | none => []

def testJob : Job :=
  inRoot site choices (["pytest", site.inside "tests"] ++ testArguments choices)

/-- The jobs that are asked for, in their order. -/
def jobs : List Job :=
  (if choices.install then [installJob site choices] else []) ++
    (if choices.noLinter then [] else [criticalLint site choices, laxLint site choices]) ++
    (if choices.noTests then [] else [testJob site choices])

end

/-! ## Runs -/

/-- The jobs that were started, and the code of the one that failed. -/
structure Run where
  started : List Job
  failure : Option Int
  deriving DecidableEq

/-- Runs jobs, the first of which has the given number. `failureOf` gives the code of a job
that fails. -/
def runJobs (failureOf : Nat → Option Int) (number : Nat) : List Job → Run
  | [] => ⟨[], none⟩
  | job :: rest =>
    match failureOf number with
    | some code => ⟨[job], some code⟩
    | none =>
      let run := runJobs failureOf (number + 1) rest
      { run with started := job :: run.started }

/-! ## The command line -/

/-- How the local checks are called. -/
def usage : String :=
  "usage: local-ci.py [-h] [-i] [--no-linter] [--no-tests] [-c] [-q]\n" ++
    "                   [-f [KEY=VALUE ...]]\n"

def helpText : String :=
  usage ++ "\n" ++
    "options:\n" ++
    "  -h, --help            show this help message and exit\n" ++
    "  -i, --install         Reinstall typelayout in editable mode with the dev\n" ++
    "                        extra.\n" ++
    "  --no-linter           Disable flake8 linting.\n" ++
    "  --no-tests            Disable the pytest testsuite.\n" ++
    "  -c, --coverage        Report test coverage of the typelayout package.\n" ++
    "  -q, --quiet           Suppress all tool output.\n" ++
    "  -f [KEY=VALUE ...], --fuzzing [KEY=VALUE ...]\n" ++
    "                        Also run the randomized layout checks, e.g. -f\n" ++
    "                        num_types=200 type_seed=3\n"

/-- What a fault of the arguments prints. -/
def refusal (fault : Fault) : String := usage ++ "local-ci.py: error: " ++ fault.message ++ "\n"

/-- What a call of the local checks leaves behind. -/
inductive Outcome
  /-- The help text was printed. -/
  | help
  /-- The arguments were refused. -/
  | refused (fault : Fault)
  /-- The jobs were run. -/
  | ran (choices : Choices) (run : Run)
  deriving DecidableEq

namespace Outcome

/-- The exit status. -/
def status : Outcome → Nat
  | .help => 0
  | .refused _ => 2
  | .ran _ run => if run.failure.isSome then 1 else 0

def output : Outcome → String
  | .help => helpText
  | _ => ""

def errors : Outcome → String
  | .refused fault => refusal fault
  | _ => ""

/-- The jobs that were started. -/
def started : Outcome → List Job
  | .ran _ run => run.started
  | _ => []

end Outcome

/-- The outcome of a call with the given arguments. -/
def outcome (dialect : Dialect) (site : Site) (failureOf : Nat → Option Int)
    (arguments : List String) : Outcome :=
  match read dialect arguments with
  | .help => .help
  | .refused fault => .refused fault
  | .accepted choices => .ran choices (runJobs failureOf 1 (jobs site choices))

end DataLayout.Checks
