-- Lower case for the letters of every script. One letter gives one letter, but for the
-- dotted capital I, and the capital sigma looks at its neighbours.
import DataLayout.Text.CaseTable

namespace DataLayout.Text

/-! ## One letter -/

/-- The lower-case form of a character that stands alone. -/
def lowerAlone (c : Char) : List Char :=
  if c = 'İ' then ['i', '\u0307']
  else
    match caseRuns.find? (·.holds c.toNat) with
    | some r => [Char.ofNat (c.toNat + r.shift).toNat]
    | none => [c]

/-! ## The sigma at the end of a word -/

/-- Whether the first character that counts has a case. -/
def startsCased (text : List Char) : Bool :=
  match text.dropWhile fun c => inRuns caseIgnorableRuns c.toNat with
  | c :: _ => inRuns casedRuns c.toNat
  | [] => false

/-- A sigma ends a word when a letter stands before it and none behind it. `before` is the
text before it, read backwards. -/
def endsWord (before after : List Char) : Bool := startsCased before && !startsCased after

/-! ## Whole texts -/

def lowerFrom (before : List Char) : List Char → List Char
  | [] => []
  | c :: rest =>
    (if c = 'Σ' then [if endsWord before rest then 'ς' else 'σ'] else lowerAlone c) ++
      lowerFrom (c :: before) rest

/-- The text in lower case. -/
def lower (text : List Char) : List Char := lowerFrom [] text

end DataLayout.Text
