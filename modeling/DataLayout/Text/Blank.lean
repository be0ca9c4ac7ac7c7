-- Blank characters, and the words between them. Blank is every space, tab and line or
-- paragraph end of Unicode, with the four ASCII separators.

namespace DataLayout.Text

/-! ## The characters -/

/-- The blank characters, as first and last of each run. -/
def blankRuns : List (Nat × Nat) :=
  [(0x09, 0x0d), (0x1c, 0x20), (0x85, 0x85), (0xa0, 0xa0), (0x1680, 0x1680), (0x2000, 0x200a),
   (0x2028, 0x2029), (0x202f, 0x202f), (0x205f, 0x205f), (0x3000, 0x3000)]

/-- Whether a code point lies in one of the runs. -/
def inRuns (runs : List (Nat × Nat)) (code : Nat) : Bool :=
  runs.any fun (first, last) => first ≤ code && code ≤ last

def isBlank (c : Char) : Bool := inRuns blankRuns c.toNat

/-! ## Words -/

/-- Reads on in a word whose characters so far are `word`, the last one first. -/
def wordsFrom (word : List Char) : List Char → List (List Char)
  | [] => if word.isEmpty then [] else [word.reverse]
  | c :: rest =>
    if isBlank c then
      if word.isEmpty then wordsFrom [] rest else word.reverse :: wordsFrom [] rest
    else wordsFrom (c :: word) rest

/-- The longest runs of characters that are not blank, in their order. -/
def words (text : List Char) : List (List Char) := wordsFrom [] text

/-! ## Margins -/

def dropBlank (text : List Char) : List Char := text.dropWhile isBlank

def dropBlankEnd (text : List Char) : List Char := (dropBlank text.reverse).reverse

/-- The text without the blanks at both ends. -/
def trim (text : List Char) : List Char := dropBlankEnd (dropBlank text)

end DataLayout.Text
