-- Values without a fixed type. A caller may hand one over where a definition or a number is
-- expected, and the refusal shows what it was. What is shown of them is what `register` and
-- `execute` put into their refusals.
import DataLayout.Text.Numeral
import DataLayout.Text.Quoted

namespace DataLayout

open Text

/-! ## Single values -/

/-- A single value. A decimal is `mantissa` divided by the power of ten of `places`. -/
inductive Scalar
  | absent
  | flag (value : Bool)
  | integer (value : Int)
  | decimal (mantissa : Int) (places : Nat)
  | text (value : String)
  deriving DecidableEq, Inhabited

namespace Scalar

/-- The digits of a decimal, with a point before the last `places` of them. -/
def decimalChars (mantissa : Int) (places : Nat) : List Char :=
  let all := digits mantissa.natAbs
  let padded := List.replicate (places + 1 - all.length) '0' ++ all
  let cut := padded.length - places
  (if mantissa < 0 then ['-'] else []) ++ padded.take cut ++ '.' :: padded.drop cut

def writable (limit : DigitLimit) : Scalar → Bool
  | .integer n => Text.writable limit n
  | _ => true

/-- The value as it stands in running text. Text stands as it is. -/
def plain : Scalar → String
  | .absent => "None"
  | .flag true => "True"
  | .flag false => "False"
  | .integer n => String.ofList (numeral n)
  | .decimal m p => String.ofList (decimalChars m p)
  | .text s => s

/-- The value as it stands in a list of values. Text is quoted. -/
def shown : Scalar → String
  | .text s => quoted s
  | s => s.plain

/-- The numerator and the power of ten of a number. A flag counts as 0 or 1. -/
def fraction? : Scalar → Option (Int × Nat)
  | .flag b => some (if b then 1 else 0, 0)
  | .integer n => some (n, 0)
  | .decimal m p => some (m, p)
  | _ => none

/-- Numbers are the same when their values are, whatever their form. -/
def same (a b : Scalar) : Bool :=
  match a.fraction?, b.fraction? with
  | some (m, p), some (n, q) => m * Int.pow 10 q == n * Int.pow 10 p
  | none, none => a == b
  | _, _ => false

/-- What is left of a value when it is taken away from itself. Only numbers have it. -/
def minusItself? : Scalar → Option Scalar
  | .flag _ => some (.integer 0)
  | .integer _ => some (.integer 0)
  | .decimal _ _ => some (.decimal 0 1)
  | _ => none

end Scalar

/-! ## Lists of values -/

inductive Datum
  | scalar (value : Scalar)
  | list (items : List Datum)

namespace Datum

mutual

def writable (limit : DigitLimit) : Datum → Bool
  | .scalar s => s.writable limit
  | .list items => allWritable limit items

def allWritable (limit : DigitLimit) : List Datum → Bool
  | [] => true
  | d :: rest => d.writable limit && allWritable limit rest

end

mutual

/-- The value as it stands in a list of values. -/
def shown : Datum → String
  | .scalar s => s.shown
  | .list items => "[" ++ ", ".intercalate (allShown items) ++ "]"

def allShown : List Datum → List String
  | [] => []
  | d :: rest => d.shown :: allShown rest

end

/-- The value as it stands in running text. -/
def plain : Datum → String
  | .scalar s => s.plain
  | d => d.shown

end Datum

end DataLayout
