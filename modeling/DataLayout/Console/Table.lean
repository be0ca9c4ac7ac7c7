-- Tables: a title, a row of headings, a rule, and the rows. Columns are as wide as their widest
-- cell. The rules are those of a `Table` of rich 14.3 in a console that is at least as wide as the
-- table. In a narrower one its columns would shrink, which is left out here.
import DataLayout.Console.Wrap

namespace DataLayout.Console

open Text

structure Column where
  heading : String
  /-- Whether the cells are moved to the right end of the column. -/
  toRight : Bool
  cells : List Run
  deriving DecidableEq

structure Table where
  title : Line
  columns : List Column
  deriving DecidableEq

namespace Table

/-! ## Widths -/

def columnWidth (c : Column) : Nat :=
  (c.cells.map fun r => cells r.text).foldl max (cells c.heading.toList)

/-- The width of the whole table. Each column has a space on both sides, one space stands
between two columns, and one at both ends. -/
def width (t : Table) : Nat :=
  (t.columns.map fun c => columnWidth c + 2).foldl (· + ·) 0 + (t.columns.length - 1) + 2

/-! ## Rows -/

def spaces (n : Nat) : Run := ⟨List.replicate n ' ', .plain⟩

/-- A cell filled up to the width of its column. -/
def fillCell (c : Column) (r : Run) : Line :=
  let gap := spaces (columnWidth c - cells r.text)
  if c.toRight then [spaces 1, gap, r, spaces 1] else [spaces 1, r, gap, spaces 1]

/-- The heading of a column, filled and bold. -/
def headingCell (c : Column) : Line :=
  let gap := List.replicate (columnWidth c - cells c.heading.toList) ' '
  let text := if c.toRight then gap ++ c.heading.toList else c.heading.toList ++ gap
  [⟨[' '], .bold⟩, ⟨text, .bold⟩, ⟨[' '], .bold⟩]

/-- The cells of a row with a space between them and at both ends. -/
def rowLine (cells : List Line) : Line :=
  spaces 1 :: (cells.intersperse [spaces 1]).flatten ++ [spaces 1]

/-- The cells in the row of the given number. -/
def rowCells (t : Table) (row : Nat) : List Line :=
  t.columns.filterMap fun c => (c.cells[row]?).map (fillCell c)

def rowCount (t : Table) : Nat := (t.columns.map fun c => c.cells.length).foldl max 0

/-! ## The whole table -/

/-- The title, italic and wrapped to the width of the table. -/
def titleLines (t : Table) : List Line :=
  (wrap t.width t.title).map fun line => onto .italic (padLine t.width line)

def rule (t : Table) : Line :=
  [spaces 1, ⟨List.replicate (t.width - 2) '─', .plain⟩, spaces 1]

def lines (t : Table) : List Line :=
  t.titleLines ++ [[spaces t.width], rowLine (t.columns.map headingCell), t.rule] ++
    (List.range t.rowCount).map (fun row => rowLine (t.rowCells row)) ++ [[spaces t.width]]

end Table

end DataLayout.Console
