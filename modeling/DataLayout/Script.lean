-- Whole sessions: a script of lines, and a dialogue with a prompt. Both end at the first
-- exit, and neither runs a line after it. They are the commands `run` and `repl`.
import DataLayout.Program
import DataLayout.Text.LineEnds

namespace DataLayout

open Console Text

/-- What a session leaves behind: what it printed and recorded, its exit status, and the
failure that broke it off, if there was one. -/
structure Transcript where
  printed : String
  records : List Record
  status : Nat
  failure : Option Failure

namespace Transcript

/-- A session that ends by itself. -/
def finished (printed : String) (records : List Record) (status : Nat) : Transcript :=
  ⟨printed, records, status, none⟩

/-- A session that a failure breaks off. -/
def broken (printed : String) (records : List Record) (failure : Failure) : Transcript :=
  ⟨printed, records, 1, some failure⟩

/-- More output and records before those of a session. -/
def after (printed : String) (records : List Record) (t : Transcript) : Transcript :=
  { t with printed := printed ++ t.printed, records := records ++ t.records }

end Transcript

/-- The lines of a text. -/
def textLines (ends : LineEnd) (text : String) : List String :=
  (lines ends text.toList).map String.ofList

/-! ## Scripts -/

namespace Script

/-- Blank lines and lines that start with a number sign are skipped. -/
def isSkipped (line : List Char) : Bool := line.isEmpty || line.head? == some '#'

/-- What is printed when a script stops at a line. -/
def stoppedAt (settings : Settings) (number : Nat) : String :=
  showLines settings (wrap settings.width
    [⟨"Stopped at line ".toList, .boldColored .red⟩, ⟨digits number, .boldColored .red⟩])

/-- Runs lines, the first of which has the given number. A strict script stops at the first
line that fails. -/
def runLines (limit : DigitLimit) (settings : Settings) (strict : Bool) (p : Program)
    (number : Nat) : List String → Transcript
  | [] => .finished "" [] 0
  | line :: rest =>
    let line := trim line.toList
    if isSkipped line then runLines limit settings strict p (number + 1) rest
    else
      let t := p.turn (Program.runLine limit settings (String.ofList line))
      match t.answer with
      | .error failure => .broken t.printed t.records failure
      | .ok succeeded =>
        if !succeeded && strict then
          .finished (t.printed ++ stoppedAt settings number) t.records 1
        else if t.program.running then
          (runLines limit settings strict t.program (number + 1) rest).after t.printed t.records
        else .finished t.printed t.records 0

/-- Runs the lines of a script on an empty registry. -/
def run (limit : DigitLimit) (settings : Settings) (strict : Bool) (ends : LineEnd)
    (script : String) : Transcript :=
  runLines limit settings strict (.start .empty) 1 (textLines ends script)

end Script

/-! ## Dialogues -/

namespace Dialogue

/-- The first line of a dialogue. -/
def banner (settings : Settings) : String :=
  showLines settings (wrap settings.width
    (Markup.render settings.pictures
      "[bold green]Type layout simulator[/], run [bold]exit[/] to quit".toList))

def prompt : String := ">> "

/-- What a dialogue does with what follows a prompt, a line or the end of the input, and the
session that goes on after it, if one does. At the end of the input the prompt stands on a line
of its own. -/
def reply (limit : DigitLimit) (settings : Settings) (p : Program) :
    Option String → Transcript × Option Program
  | none => (.finished "\n" [] 0, none)
  | some line =>
    let t := p.turn (Program.runLine limit settings line)
    match t.answer with
    | .error failure => (.broken t.printed t.records failure, none)
    | .ok _ => (.finished t.printed t.records 0, if t.program.running then some t.program else none)

/-- Runs lines, each after a prompt. -/
def runLines (limit : DigitLimit) (settings : Settings) (p : Program) : List String → Transcript
  | [] => (reply limit settings p none).1.after prompt []
  | line :: rest =>
    match reply limit settings p (some line) with
    | (t, none) => t.after prompt []
    | (t, some next) => (runLines limit settings next rest).after (prompt ++ t.printed) t.records

/-- A dialogue on an empty registry. -/
def run (limit : DigitLimit) (settings : Settings) (ends : LineEnd) (input : String) :
    Transcript :=
  (runLines limit settings (.start .empty) (textLines ends input)).after (banner settings) []

end Dialogue

end DataLayout
