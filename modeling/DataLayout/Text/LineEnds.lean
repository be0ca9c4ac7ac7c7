-- The lines of a text. In a file of text a line ends at a line feed, at a carriage return, or at
-- both together. The standard input may be read with line feeds alone. No other character ends
-- a line.

namespace DataLayout.Text

/-- What ends a line. -/
inductive LineEnd
  /-- A line feed, a carriage return, or both together. -/
  | any
  /-- A line feed. A carriage return belongs to its line. -/
  | feed
  deriving DecidableEq

/-- Every line end becomes one line feed. -/
def normalizeLineEnds : List Char → List Char
  | '\r' :: '\n' :: rest => '\n' :: normalizeLineEnds rest
  | '\r' :: rest => '\n' :: normalizeLineEnds rest
  | c :: rest => c :: normalizeLineEnds rest
  | [] => []

/-- The pieces between the separators. There is always one more piece than separators. -/
def splitAt (separator : Char) : List Char → List (List Char)
  | [] => [[]]
  | c :: rest =>
    if c = separator then [] :: splitAt separator rest
    else
      match splitAt separator rest with
      | piece :: later => (c :: piece) :: later
      | [] => [[c]]

/-- The text with a line feed at each line end. -/
def LineEnd.feeds : LineEnd → List Char → List Char
  | .any, text => normalizeLineEnds text
  | .feed, text => text

/-- The lines of a text. A line end at the end of the text starts no further line. -/
def lines (ends : LineEnd) (text : List Char) : List (List Char) :=
  let pieces := splitAt '\n' (ends.feeds text)
  if pieces.getLast? = some [] then pieces.dropLast else pieces

end DataLayout.Text
