-- Styled text. A line is a list of runs, each in one style, and colour adds a control sequence
-- before and behind each run that is not plain. The sequences are those of a `Console` of rich
-- 14.3.

namespace DataLayout.Console

/-! ## Styles -/

inductive Color
  | red
  | green
  | magenta
  deriving DecidableEq, Inhabited

/-- The code of a text colour. -/
def Color.code : Color → String
  | .red => "31"
  | .green => "32"
  | .magenta => "35"

structure Style where
  isBold : Bool
  isItalic : Bool
  color : Option Color
  deriving DecidableEq, Inhabited

namespace Style

def plain : Style := ⟨false, false, none⟩
def bold : Style := ⟨true, false, none⟩
def italic : Style := ⟨false, true, none⟩
def colored (c : Color) : Style := ⟨false, false, some c⟩
def boldColored (c : Color) : Style := ⟨true, false, some c⟩

/-- A style over another one. The colour on top wins. -/
def atop (top below : Style) : Style :=
  ⟨top.isBold || below.isBold, top.isItalic || below.isItalic, top.color.or below.color⟩

/-- The codes of a style, in ascending order. -/
def codes (s : Style) : List String :=
  (if s.isBold then ["1"] else []) ++ (if s.isItalic then ["3"] else []) ++ (s.color.map Color.code).toList

end Style

/-! ## Runs and lines -/

structure Run where
  text : List Char
  style : Style
  deriving DecidableEq

abbrev Line := List Run

def plainRun (text : String) : Run := ⟨text.toList, .plain⟩

/-- The characters of a line without their styles. -/
def textOf (line : Line) : List Char := line.flatMap (·.text)

/-- A line in another style below its own. -/
def onto (below : Style) (line : Line) : Line :=
  line.map fun r => { r with style := r.style.atop below }

/-- A run as it is printed. Runs without text leave nothing. -/
def paintRun (colors : Bool) (r : Run) : List Char :=
  let codes := r.style.codes
  if r.text.isEmpty then []
  else if !colors || codes.isEmpty then r.text
  else "\x1b[".toList ++ (";".intercalate codes).toList ++ 'm' :: r.text ++ "\x1b[0m".toList

/-- A line as it is printed, with its line end. -/
def paintLine (colors : Bool) (line : Line) : List Char :=
  line.flatMap (paintRun colors) ++ ['\n']

/-- Lines as they are printed. -/
def paint (colors : Bool) (lines : List Line) : String :=
  String.ofList (lines.flatMap (paintLine colors))

theorem paintRun_uncolored (r : Run) : paintRun false r = r.text := by
  cases h : r.text <;> simp [paintRun, h]

theorem paintLine_uncolored (line : Line) : paintLine false line = textOf line ++ ['\n'] := by
  have : paintRun false = fun r => r.text := funext paintRun_uncolored
  simp [paintLine, textOf, this]

end DataLayout.Console
