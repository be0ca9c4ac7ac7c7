-- A whole run of the program, from its arguments, its environment and its input to what it leaves
-- behind. The commands are `run` and `repl` of `cli`.
import DataLayout.CommandLine.Invocation
import DataLayout.Script

namespace DataLayout.CommandLine

open Console Console.Markup Text

/-- The exit status of a run, its output, and the lines of its standard error. -/
structure Outcome where
  status : Nat
  output : String
  errors : List String
  deriving DecidableEq

/-- The records that a level lets through, as lines of the log. -/
def logLines (level : Level) (records : List Record) : List String :=
  (records.filter fun r => level.rank ≤ r.level.rank).map (·.line)

def ofTranscript (level : Level) (t : Transcript) : Outcome :=
  ⟨t.status, t.printed, logLines level t.records⟩

/-- The lines of a program that does not write to a terminal are of this width. -/
def outputWidth : Nat := 80

/-- The settings of a session on the command line. -/
def settings (pictures : Pictures) (colors : Bool) : Settings := ⟨outputWidth, colors, pictures⟩

/-- How the program is called. -/
def usageLines : List String :=
  ["Usage: layout [-h] run SCRIPT [--strict] [--color SYSTEM] [--log-level LEVEL]",
    "       layout [-h] repl [--color SYSTEM] [--log-level LEVEL]"]

/-- What a run finds around it: the pictures that its terminal draws, its files, its variables,
and the standard input with what ends a line there. -/
structure Surroundings where
  pictures : Pictures
  files : String → Option String
  environment : List (String × String)
  input : String
  inputEnds : LineEnd

/-- The text of a script and what ends a line in it. A dash stands for the standard input. -/
def scriptText (around : Surroundings) (script : String) : Option (String × LineEnd) :=
  if script = "-" then some (around.input, around.inputEnds)
  else (around.files script).map (·, .any)

/-- The outcome of a call that is not understood. -/
def usageError : Outcome := ⟨2, "", usageLines⟩

/-- The outcome of a command line. A script that cannot be read is an error of usage. -/
def outcome (around : Surroundings) (arguments : List String) : Outcome :=
  match readArguments around.environment arguments with
  | .help => ⟨0, "\n".intercalate usageLines ++ "\n", []⟩
  | .usageError => usageError
  | .session (.run script strict colors level) =>
    match scriptText around script with
    | none => usageError
    | some (text, ends) =>
      ofTranscript level (Script.run .standard (settings around.pictures colors) strict ends text)
  | .session (.dialogue colors level) =>
    ofTranscript level
      (Dialogue.run .standard (settings around.pictures colors) around.inputEnds around.input)

end DataLayout.CommandLine
