-- The width of text on a terminal, counted in cells, and the clusters of characters that
-- share their cells. Two signs act on the characters beside them: one joins what stands
-- behind it to what stands before it, and one asks for a picture of what stands before it.
-- The rules are `cell_len` and `split_graphemes` of rich 14.3.
import DataLayout.Text.CellTable

namespace DataLayout.Text

/-! ## Characters -/

/-- Most characters take one cell, some none and some two. -/
def charCells (c : Char) : Nat :=
  if inRuns zeroWidthRuns c.toNat then 0
  else if inRuns doubleWidthRuns c.toNat then 2
  else 1

/-- The sign that joins the character behind it to the one before it. -/
def joiner : Char := '\u200d'

/-- The sign that asks for a picture of the character before it. -/
def pictureSign : Char := '\ufe0f'

/-- Whether a picture of the character is one cell wider than the character. -/
def isWidened (c : Char) : Bool := inRuns widenedRuns c.toNat

/-- The character itself when it has a width. Picture signs act on such characters alone. -/
def measured (c : Char) : Option Char := if charCells c = 0 then none else some c

/-- The cells that a picture sign adds behind the measured character `last`. -/
def pictureCells (last : Option Char) : Nat := if last.any isWidened then 1 else 0

/-! ## Widths -/

/-- The width of a text behind the measured character `last`. A picture sign acts on the
measured character nearest before it, and a second one there acts on none. -/
def cellsAfter (last : Option Char) : List Char → Nat
  | [] => 0
  | c :: rest =>
    if c = joiner then
      match rest with
      | [] => 0
      | _ :: later => cellsAfter last later
    else if c = pictureSign then pictureCells last + cellsAfter none rest
    else charCells c + cellsAfter ((measured c).or last) rest

/-- The width of a text. A joined character takes no cell of its own. -/
def cells (text : List Char) : Nat := cellsAfter none text

theorem cellsAfter_pictureSign (last : Option Char) (rest : List Char) :
    cellsAfter last (pictureSign :: rest) = pictureCells last + cellsAfter none rest := by
  rw [cellsAfter.eq_def]
  simp [show pictureSign ≠ joiner by decide]

theorem cellsAfter_cons {c : Char} (last : Option Char) (rest : List Char) (hj : c ≠ joiner)
    (hp : c ≠ pictureSign) :
    cellsAfter last (c :: rest) = charCells c + cellsAfter ((measured c).or last) rest := by
  rw [cellsAfter.eq_def]
  simp [hj, hp]

/-! ## Clusters -/

/-- Characters that share their cells. -/
structure Cluster where
  chars : List Char
  width : Nat
  deriving DecidableEq

/-- A cluster with more characters and as many more cells as they add. -/
def Cluster.grow (k : Cluster) (chars : List Char) (width : Nat) : Cluster :=
  ⟨k.chars ++ chars, k.width + width⟩

/-- The clusters of a text behind the start of one, and behind the measured character
`last`. Only a character with a width starts the next one. -/
def clustersAfter (start : Cluster) (last : Option Char) : List Char → List Cluster
  | [] => [start]
  | c :: rest =>
    if c = joiner then
      match rest with
      | [] => [start.grow [c] 0]
      | d :: later => clustersAfter (start.grow [c, d] 0) last later
    else if c = pictureSign then clustersAfter (start.grow [c] (pictureCells last)) none rest
    else if charCells c = 0 then clustersAfter (start.grow [c] 0) last rest
    else start :: clustersAfter ⟨[c], charCells c⟩ (some c) rest

/-- The clusters of a text. The first character starts one whatever it is. -/
def clusters : List Char → List Cluster
  | [] => []
  | c :: rest => clustersAfter ⟨[c], charCells c⟩ (measured c) rest

/-! ## Cutting -/

/-- The start of some clusters that takes `width` cells. When only half of a wide cluster
would be left, a space stands in its place. -/
def cropClusters : Nat → List Cluster → List Char
  | _, [] => []
  | width, k :: rest =>
    if width = 0 then []
    else if k.width ≤ width then k.chars ++ cropClusters (width - k.width) rest
    else [' ']

/-- The text, cut behind `width` cells of its clusters when it is wider than that. -/
def cropCells (width : Nat) (text : List Char) : List Char :=
  if cells text ≤ width then text else cropClusters width (clusters text)

end DataLayout.Text
