-- Breaking a line so that it fits a width. Words stay whole when they fit, and the blanks behind a
-- word stay on its line as far as there is room. The rules are those of `Text.wrap` of rich 14.3.
import DataLayout.Console.Style
import DataLayout.Text.Blank
import DataLayout.Text.Cells
import DataLayout.Text.LineEnds

namespace DataLayout.Console

open Text

/-! ## Cutting -/

/-- The first `n` characters of a line and the rest of it. -/
def cutLine : Nat → Line → Line × Line
  | _, [] => ([], [])
  | 0, line => ([], line)
  | n, r :: rest =>
    if r.text.length ≤ n then
      let (first, later) := cutLine (n - r.text.length) rest
      (r :: first, later)
    else ([{ r with text := r.text.take n }], { r with text := r.text.drop n } :: rest)

/-- The parts of a line between ascending positions, the first of which is counted from
`start`. -/
def cutAt (start : Nat) (line : Line) : List Nat → List Line
  | [] => [line]
  | p :: later =>
    let (first, rest) := cutLine (p - start) line
    first :: cutAt p rest later

/-- The parts of a line between its line feeds. -/
def splitLine : Line → List Line
  | [] => [[]]
  | r :: rest =>
    let pieces := (splitAt '\n' r.text).map fun text => [{ r with text }]
    match splitLine rest with
    | next :: later => pieces.dropLast ++ (pieces.getLastD [] ++ next) :: later
    | [] => pieces

/-! ## Tabs and controls -/

/-- The characters that a terminal would take as orders to ring, to go back or to go on. -/
def isControl (c : Char) : Bool := c.toNat ∈ [7, 8, 11, 12, 13]

def cleanRun (r : Run) : Run := { r with text := r.text.filter (!isControl ·) }

/-- The runs of a text with each tab turned into a space and as many more as reach the next
multiple of 8 cells, and the column behind it. A run ends behind each tab, and `chunk` is
what it holds so far, the last character first. -/
def expandTabs (style : Style) (chunk : List Char) (column : Nat) : List Char → Line × Nat
  | [] => ([⟨chunk.reverse, style⟩], column + cells chunk.reverse)
  | c :: rest =>
    if c = '\t' then
      let text := chunk.reverse ++ [' ']
      let reached := column + cells text
      let gap := (8 - reached % 8) % 8
      let (line, last) := expandTabs style [] (reached + gap) rest
      (⟨text ++ List.replicate gap ' ', style⟩ :: line, last)
    else expandTabs style (c :: chunk) column rest

def expandLine (column : Nat) : Line → Line
  | [] => []
  | r :: rest =>
    let (line, last) := expandTabs r.style [] column r.text
    line ++ expandLine last rest

/-- A run before a line. Plain text next to plain text is one run. -/
def consRun (r : Run) : Line → Line
  | [] => [r]
  | next :: rest =>
    if r.style = .plain ∧ next.style = .plain then ⟨r.text ++ next.text, .plain⟩ :: rest
    else r :: next :: rest

/-! ## Words with their blanks -/

/-- Reads on in a chunk whose characters so far are `chunk`, the last one first. The flag
says whether it holds a word already. -/
def chunksFrom (chunk : List Char) (hasWord : Bool) : List Char → List (List Char)
  | [] => if hasWord then [chunk.reverse] else []
  | c :: rest =>
    if isBlank c then chunksFrom (c :: chunk) hasWord rest
    else if hasWord && (chunk.head?.map isBlank).getD false then
      chunk.reverse :: chunksFrom [c] true rest
    else chunksFrom (c :: chunk) true rest

/-- Each word with the blanks behind it. The first one also has the blanks before it. -/
def chunks (text : List Char) : List (List Char) := chunksFrom [] false text

/-! ## Where lines break -/

/-- The pieces of a long word, each with as many clusters as fit. `piece` is the piece so far
and `column` its width. A last piece without a width is none. -/
def piecesFrom (width : Nat) (piece : List Char) (column : Nat) : List Cluster → List (List Char)
  | [] => if column = 0 then [] else [piece]
  | k :: rest =>
    if column + k.width ≤ width then piecesFrom width (piece ++ k.chars) (column + k.width) rest
    else piece :: piecesFrom width k.chars k.width rest

/-- The positions at which the pieces start. -/
def startsOf (start : Nat) : List (List Char) → List Nat
  | [] => []
  | piece :: later => start :: startsOf (start + piece.length) later

/-- The positions at which lines break. The next chunk starts at `start`, and `column` is
the width of what is on the line so far. -/
def breaksFrom (width start column : Nat) : List (List Char) → List Nat
  | [] => []
  | chunk :: later =>
    let word := cells (dropBlankEnd chunk)
    let next := start + chunk.length
    if column + word ≤ width then breaksFrom width next (column + cells chunk) later
    else if width < word then
      let pieces := piecesFrom width [] 0 (clusters chunk)
      (startsOf start pieces).filter (· ≠ 0) ++
        breaksFrom width next ((pieces.getLast?.map cells).getD column) later
    else if column ≠ 0 ∧ start ≠ 0 then start :: breaksFrom width next (cells chunk) later
    else breaksFrom width next column later

def breaks (width : Nat) (text : List Char) : List Nat := breaksFrom width 0 0 (chunks text)

/-! ## Ends of lines -/

/-- A line without the blanks at its end that are too many characters for the width. -/
def trimLine (width : Nat) (line : Line) : Line :=
  let text := textOf line
  let blanks := text.length - (dropBlankEnd text).length
  (cutLine (text.length - min blanks (text.length - width)) line).1

/-- A line with another text. Each run takes as many characters of it as it had. -/
def refill (text : List Char) : Line → Line
  | [] => []
  | r :: rest =>
    { r with text := text.take r.text.length } :: refill (text.drop r.text.length) rest

/-- A line whose text is cut to `width` cells. -/
def cropLine (width : Nat) (line : Line) : Line :=
  if cells (textOf line) ≤ width then line else refill (cropCells width (textOf line)) line

/-- The start of a line that takes `width` cells when each run is measured for itself. -/
def clipRuns : Nat → Line → Line
  | _, [] => []
  | width, r :: rest =>
    if cells r.text < width then r :: clipRuns (width - cells r.text) rest
    else [{ r with text := cropCells width r.text }]

/-- A line as far as the screen shows it. A sign at the start of a run acts on nothing
before it, so the runs together may be wider than their text. -/
def clipLine (width : Nat) (line : Line) : Line :=
  if line.foldr (fun r total => cells r.text + total) 0 ≤ width then line else clipRuns width line

/-- A line filled with spaces up to the width. They join a plain run at its end. -/
def padLine (width : Nat) (line : Line) : Line :=
  let gap := List.replicate (width - cells (textOf line)) ' '
  match line.getLast? with
  | some ⟨text, .plain⟩ => line.dropLast ++ [⟨text ++ gap, .plain⟩]
  | _ => line ++ [⟨gap, .plain⟩]

/-! ## Whole texts -/

/-- The lines of one line of text. -/
def wrapLine (width : Nat) (line : Line) : List Line :=
  let line := (expandLine 0 line).foldr consRun []
  (cutAt 0 line (breaks width (textOf line))).map fun part => cropLine width (trimLine width part)

/-- The lines of a text, broken to fit `width` cells. -/
def wrap (width : Nat) (line : Line) : List Line :=
  (splitLine (line.map cleanRun)).flatMap (wrapLine width)

end DataLayout.Console
