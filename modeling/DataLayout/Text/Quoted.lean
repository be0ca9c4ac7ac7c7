-- Quoted text, as it stands in messages and in the log. The quote is single, unless the
-- text has single quotes and no double one.
import DataLayout.Text.Unprintable

namespace DataLayout.Text

/-! ## One character -/

/-- The last `width` hexadecimal digits of a number, in lower case. -/
def hexDigits (width n : Nat) : List Char :=
  (List.range width).reverse.map fun place => Nat.digitChar (n / Nat.pow 16 place % 16)

/-- How a character stands between quotes. -/
def escaped (quote c : Char) : List Char :=
  if c = quote ∨ c = '\\' then ['\\', c]
  else if c = '\n' then ['\\', 'n']
  else if c = '\r' then ['\\', 'r']
  else if c = '\t' then ['\\', 't']
  else if isPrintable c then [c]
  else if c.toNat < 0x100 then '\\' :: 'x' :: hexDigits 2 c.toNat
  else if c.toNat < 0x10000 then '\\' :: 'u' :: hexDigits 4 c.toNat
  else '\\' :: 'U' :: hexDigits 8 c.toNat

/-! ## Whole texts -/

def quoteFor (text : List Char) : Char :=
  if '\'' ∈ text ∧ '"' ∉ text then '"' else '\''

def quotedChars (text : List Char) : List Char :=
  let quote := quoteFor text
  quote :: text.flatMap (escaped quote) ++ [quote]

def quoted (text : String) : String := String.ofList (quotedChars text.toList)

/-- The quoted texts in parentheses. One text alone is followed by a comma. -/
def quotedTuple : List String → String
  | [] => "()"
  | [item] => "(" ++ quoted item ++ ",)"
  | items => "(" ++ ", ".intercalate (items.map quoted) ++ ")"

end DataLayout.Text
