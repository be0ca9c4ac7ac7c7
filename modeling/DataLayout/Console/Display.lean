-- What a session prints: the table of a report, and the line of a fault. The functions are
-- `rich_report` and `rich_error`.
import DataLayout.Console.Markup
import DataLayout.Console.Table
import DataLayout.Report

namespace DataLayout.Console

open Text

/-- How wide the lines are, whether they are coloured, and the pictures that stand for codes. -/
structure Settings where
  width : Nat
  colors : Bool
  pictures : Markup.Pictures

/-- The printed lines, as far as the screen shows them. -/
def showLines (s : Settings) (lines : List Line) : String :=
  paint s.colors (lines.map (clipLine s.width))

/-! ## Reports -/

/-- The title of a report with its tags: the name in bold, and the kind behind it. -/
def titleMarkup (r : Report) : List Char :=
  "[bold]".toList ++ Markup.escape r.name.toList ++ "[/] [magenta](".toList ++
    r.kind.word.toList ++ ")[/]".toList

/-- A number, marked when it is not 0. -/
def lossRun (loss : Int) : Run :=
  ⟨numeral loss, if loss = 0 then .plain else .boldColored .red⟩

def reportTable (pictures : Markup.Pictures) (r : Report) : Table :=
  let layouts := Packing.reported.map r.layout
  { title := Markup.render pictures (titleMarkup r)
    columns :=
      [⟨"Packing", false, Packing.reported.map fun p => plainRun p.heading⟩,
        ⟨"Size", true, layouts.map fun l => ⟨numeral l.size, .plain⟩⟩,
        ⟨"Alignment", true, layouts.map fun l => ⟨numeral l.alignment, .plain⟩⟩,
        ⟨"Loss", true, layouts.map fun l => lossRun l.loss⟩] }

/-- The line on the best ordering. -/
def orderingLine (names : List String) : Line :=
  [⟨"Optimized ordering: ".toList ++ (", ".intercalate names).toList, .italic⟩]

def reportLines (s : Settings) (r : Report) : List Line :=
  (reportTable s.pictures r).lines ++
    match r.ordering with
    | some names => wrap s.width (orderingLine names)
    | none => []

/-- The printed report. -/
def showReport (s : Settings) (r : Report) : String := showLines s (reportLines s r)

/-! ## Faults -/

/-- A marked label and the message behind it. -/
def faultLine (label message : String) : Line :=
  [⟨label.toList, .boldColored .red⟩, plainRun (" " ++ message)]

/-- The printed fault of a type. -/
def showTypeFault (s : Settings) (message : String) : String :=
  showLines s (wrap s.width (faultLine "[TYPE ERROR]" message))

/-- The printed fault of a command. -/
def showCommandFault (s : Settings) (message : String) : String :=
  showLines s (wrap s.width (faultLine "[ERROR]" message))

end DataLayout.Console
