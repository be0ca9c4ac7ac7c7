-- Integers as decimal text, in both directions. Text of too many digits is neither read
-- nor written, so both directions know a limit on the number of digits.

namespace DataLayout.Text

/-! ## The limit -/

/-- The most digits of a numeral that is read or written, if there is such a bound. -/
abbrev DigitLimit := Option Nat

namespace DigitLimit

/-- Numerals of every length are read and written. -/
def unlimited : DigitLimit := none

/-- The bound under which the program works. -/
def standard : DigitLimit := some 4300

def admits (limit : DigitLimit) (digits : Nat) : Bool :=
  match limit with
  | none => true
  | some most => digits ≤ most

end DigitLimit

/-! ## Writing -/

/-- The decimal digits of a number, without leading zeros. -/
def digits (n : Nat) : List Char := Nat.toDigits 10 n

/-- The numeral of an integer: a minus sign if it is negative, then its digits. -/
def numeral (n : Int) : List Char :=
  if n < 0 then '-' :: digits n.natAbs else digits n.natAbs

/-- Whether the numeral of an integer keeps the limit. The sign does not count. -/
def writable (limit : DigitLimit) (n : Int) : Bool := limit.admits (digits n.natAbs).length

/-! ## Reading -/

/-- The code points of the zeros of Unicode. The other nine digits follow each zero. -/
def zeroCodes : List Nat :=
  [0x30, 0x0660, 0x06f0, 0x07c0, 0x0966, 0x09e6, 0x0a66, 0x0ae6, 0x0b66, 0x0be6, 0x0c66, 0x0ce6,
   0x0d66, 0x0de6, 0x0e50, 0x0ed0, 0x0f20, 0x1040, 0x1090, 0x17e0, 0x1810, 0x1946, 0x19d0, 0x1a80,
   0x1a90, 0x1b50, 0x1bb0, 0x1c40, 0x1c50, 0xa620, 0xa8d0, 0xa900, 0xa9d0, 0xa9f0, 0xaa50, 0xabf0,
   0xff10, 0x104a0, 0x10d30, 0x11066, 0x110f0, 0x11136, 0x111d0, 0x112f0, 0x11450, 0x114d0,
   0x11650, 0x116c0, 0x11730, 0x118e0, 0x11950, 0x11c50, 0x11d50, 0x11da0, 0x16a60, 0x16ac0,
   0x16b50, 0x1d7ce, 0x1d7d8, 0x1d7e2, 0x1d7ec, 0x1d7f6, 0x1e140, 0x1e2f0, 0x1e950, 0x1fbf0]

/-- The value of a decimal digit of any script. -/
def digitValue? (c : Char) : Option Nat :=
  (zeroCodes.find? fun first => first ≤ c.toNat && c.toNat < first + 10).map (c.toNat - ·)

/-- Reads digits with single underscores between them, with the digit before them at
hand: `value` is the value and `count` the number of the digits so far. -/
def digitsAfter (value count : Nat) : List Char → Option (Nat × Nat)
  | [] => some (value, count)
  | '_' :: c :: rest =>
    match digitValue? c with
    | some d => digitsAfter (10 * value + d) (count + 1) rest
    | none => none
  | c :: rest =>
    match digitValue? c with
    | some d => digitsAfter (10 * value + d) (count + 1) rest
    | none => none

/-- The value and the number of the digits of an unsigned numeral. -/
def unsigned? : List Char → Option (Nat × Nat)
  | [] => none
  | c :: rest =>
    match digitValue? c with
    | some d => digitsAfter d 1 rest
    | none => none

/-- The unsigned numerals that keep the limit. Leading zeros count, underscores do not. -/
def unsignedWithin? (limit : DigitLimit) (text : List Char) : Option Nat :=
  match unsigned? text with
  | some (value, count) => if limit.admits count then some value else none
  | none => none

/-- The integer that a text denotes: an optional sign, then digits. -/
def integer? (limit : DigitLimit) : List Char → Option Int
  | '-' :: rest => (unsignedWithin? limit rest).map fun n => -(n : Int)
  | '+' :: rest => (unsignedWithin? limit rest).map fun n => (n : Int)
  | rest => (unsignedWithin? limit rest).map fun n => (n : Int)

end DataLayout.Text
