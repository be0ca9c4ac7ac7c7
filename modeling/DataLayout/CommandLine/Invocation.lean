-- What a command line asks for: a script to run or a dialogue, with colours and a level of the
-- log. Options win over the environment. The commands are `run` and `repl`, and their options
-- `--strict`, `--color` and `--log-level`.
import DataLayout.CommandLine.Options
import DataLayout.Journal

namespace DataLayout.CommandLine

/-! ## Choices -/

/-- The names of the colour systems, and whether each one colours the output of a program
that does not write to a terminal. -/
def colorSystems : List (String × Bool) :=
  [("auto", false), ("standard", true), ("256", true), ("truecolor", true), ("windows", true),
    ("none", false)]

def colors? (name : String) : Option Bool := colorSystems.lookup name

/-- The level of a name, in any mix of capitals and small letters. -/
def level? (name : String) : Option Level :=
  [Level.debug, .info, .warning, .error].find? fun level =>
    name.toList.map Char.toUpper == level.word.toList

/-! ## Invocations -/

/-- A session that is asked for. -/
inductive Invocation
  | run (script : String) (strict colors : Bool) (level : Level)
  | dialogue (colors : Bool) (level : Level)
  deriving DecidableEq

/-- The outcome of reading a command line. -/
inductive Reading
  | session (invocation : Invocation)
  | help
  | usageError
  deriving DecidableEq

/-- The options of the whole program. Those of a command stand behind its name. -/
def programGrammar : Grammar := ⟨["--help"], ['h'], [], false⟩

def runGrammar : Grammar := ⟨["--help", "--strict"], ['h'], ["--color", "--log-level"], true⟩

def dialogueGrammar : Grammar := ⟨["--help"], ['h'], ["--color", "--log-level"], true⟩

def asksHelp (g : Given) : Bool := g.has "--help" || g.has "-h"

/-- The value of an option, or of its variable if the option is not given. An empty
variable counts as not set. -/
def setting (environment : List (String × String)) (g : Given) (option name default : String) :
    String :=
  match g.value? option with
  | some value => value
  | none =>
    match environment.lookup name with
    | some value => if value.isEmpty then default else value
    | none => default

/-- The colours and the level of the log. -/
def common (environment : List (String × String)) (g : Given) : Option (Bool × Level) := do
  let colors ← colors? (setting environment g "--color" "TYPELAYOUT_COLOR" "auto")
  let level ← level? (setting environment g "--log-level" "TYPELAYOUT_LOG_LEVEL" "WARNING")
  return (colors, level)

/-- The arguments of `run`: a script, or a dash for the standard input. -/
def readRun (environment : List (String × String)) (arguments : List String) : Reading :=
  match read runGrammar arguments with
  | none => .usageError
  | some g =>
    if asksHelp g then .help
    else
      match g.words, common environment g with
      | [script], some (colors, level) => .session (.run script (g.has "--strict") colors level)
      | _, _ => .usageError

/-- The arguments of `repl`: none but options. -/
def readDialogue (environment : List (String × String)) (arguments : List String) : Reading :=
  match read dialogueGrammar arguments with
  | none => .usageError
  | some g =>
    if asksHelp g then .help
    else
      match g.words, common environment g with
      | [], some (colors, level) => .session (.dialogue colors level)
      | _, _ => .usageError

/-- The options of the program where the name of a command should stand. Only a call for help
is understood there. -/
def readHelp (words : List String) : Reading :=
  match read programGrammar words with
  | some g => if asksHelp g then .help else .usageError
  | none => .usageError

/-- Reads a command line: options of the program, the name of a command, and its arguments. -/
def readArguments (environment : List (String × String)) (arguments : List String) : Reading :=
  match read programGrammar arguments with
  | none => .usageError
  | some g =>
    if asksHelp g then .help
    else
      match g.words with
      | "run" :: rest => readRun environment rest
      | "repl" :: rest => readDialogue environment rest
      | words => readHelp words

end DataLayout.CommandLine
