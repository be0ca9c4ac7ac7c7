-- The program: it reads its arguments, its environment and its input, and prints. A dialogue
-- prints each reply before it reads on, and lines of its input end at line feeds.
import DataLayout.CommandLine.Outcome

namespace DataLayout

open CommandLine

/-- The variables that stand in for options. -/
def readEnvironment : IO (List (String × String)) :=
  ["TYPELAYOUT_COLOR", "TYPELAYOUT_LOG_LEVEL"].filterMapM fun name => do
    return (← IO.getEnv name).map (name, ·)

/-- The text of a script, if it can be read. A dash stands for the standard input. -/
def readScript (script : String) : IO (Option String) := do
  try
    if script = "-" then return some (← (← IO.getStdin).readToEnd)
    else return some (← IO.FS.readFile script)
  catch _ => return none

/-- Prints what a run leaves behind and gives its exit status. -/
def finish (o : Outcome) : IO UInt32 := do
  IO.print o.output
  for line in o.errors do IO.eprintln line
  return o.status.toUInt32

/-- The next line of the standard input without its line feed, if there is one. -/
def readLine : IO (Option String) := do
  let line ← (← IO.getStdin).getLine
  if line.isEmpty then return none
  else return some (if line.endsWith "\n" then (line.dropEnd 1).toString else line)

/-- Prints a prompt and the reply to what follows it, as long as the session goes on. -/
def converse (settings : Console.Settings) (level : Level) : IO UInt32 := do
  let mut p := Program.start .empty
  repeat
    IO.print Dialogue.prompt
    (← IO.getStdout).flush
    let (t, next) := Dialogue.reply .standard settings p (← readLine)
    IO.print t.printed
    for line in logLines level t.records do IO.eprintln line
    match next with
    | some q => p := q
    | none => return t.status.toUInt32
  return 0

end DataLayout

open DataLayout CommandLine

def main (arguments : List String) : IO UInt32 := do
  let environment ← readEnvironment
  match readArguments environment arguments with
  | .session (.dialogue colors level) =>
    IO.print (Dialogue.banner (settings .none colors))
    converse (settings .none colors) level
  | .session (.run script _ _ _) =>
    let text ← readScript script
    finish (outcome ⟨.none, fun _ => text, environment, text.getD "", .feed⟩ arguments)
  | _ => finish (outcome ⟨.none, fun _ => none, environment, "", .feed⟩ arguments)
