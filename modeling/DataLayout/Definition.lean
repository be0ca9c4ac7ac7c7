-- Type definitions. An atomic type has a size and an alignment of its own, a struct and a union
-- refer to other types by name. They are `Atomic`, `Struct` and `Union`.
import DataLayout.Datum

namespace DataLayout

open Text

/-! ## Definitions -/

inductive Kind
  | atomic
  | struct
  | union
  deriving DecidableEq, Inhabited

/-- The word for a kind, in lower case. -/
def Kind.word : Kind → String
  | .atomic => "atomic"
  | .struct => "struct"
  | .union => "union"

/-- The word for a kind at the start of a line. -/
def Kind.heading : Kind → String
  | .atomic => "Atomic"
  | .struct => "Struct"
  | .union => "Union"

inductive Definition
  | atomic (size alignment : Int)
  | struct (members : List String)
  | union (variants : List String)
  deriving DecidableEq, Inhabited

namespace Definition

def kind : Definition → Kind
  | .atomic _ _ => .atomic
  | .struct _ => .struct
  | .union _ => .union

/-- The names that a definition refers to, in its order. -/
def references : Definition → List String
  | .atomic _ _ => []
  | .struct members => members
  | .union variants => variants

def writable (limit : DigitLimit) : Definition → Bool
  | .atomic size alignment => Text.writable limit size && Text.writable limit alignment
  | _ => true

/-- A definition in one line, with its names as they are. -/
def text : Definition → String
  | .atomic size alignment =>
    "Atomic[" ++ String.ofList (numeral size) ++ ", " ++ String.ofList (numeral alignment) ++ "]"
  | .struct members => "Struct[" ++ ", ".intercalate members ++ "]"
  | .union variants => "Union[" ++ ", ".intercalate variants ++ "]"

end Definition

/-! ## What is offered as a definition -/

/-- A value that is offered as a definition. Its numbers are not yet known to be integers,
and it may be no definition at all. -/
inductive Offer
  | atomic (size alignment : Scalar)
  | struct (members : List String)
  | union (variants : List String)
  | other (value : Datum)

namespace Offer

def ofDefinition : Definition → Offer
  | .atomic size alignment => .atomic (.integer size) (.integer alignment)
  | .struct members => .struct members
  | .union variants => .union variants

/-- Whether the value has the form of a definition, whatever its numbers are. -/
def isDefinition : Offer → Bool
  | .other _ => false
  | _ => true

/-- The definition that is offered. An atomic type needs two integers, and a flag is none. -/
def definition? : Offer → Option Definition
  | .atomic (.integer size) (.integer alignment) => some (.atomic size alignment)
  | .atomic _ _ => none
  | .struct members => some (.struct members)
  | .union variants => some (.union variants)
  | .other _ => none

theorem definition?_ofDefinition (d : Definition) : (ofDefinition d).definition? = some d := by
  cases d <;> rfl

def writable (limit : DigitLimit) : Offer → Bool
  | .atomic size alignment => size.writable limit && alignment.writable limit
  | .struct _ => true
  | .union _ => true
  | .other value => value.writable limit

/-- The offered value in one line. -/
def text : Offer → String
  | .atomic size alignment => "Atomic[" ++ size.plain ++ ", " ++ alignment.plain ++ "]"
  | .struct members => (Definition.struct members).text
  | .union variants => (Definition.union variants).text
  | .other value => value.shown

/-- Two offers are the same when they are of one form, their numbers have the same values
and their names are the same in the same order. -/
def same : Offer → Offer → Bool
  | .atomic a b, .atomic c d => a.same c && b.same d
  | .struct a, .struct b => a == b
  | .union a, .union b => a == b
  | .other (.scalar a), .other (.scalar b) => a.same b
  | _, _ => false

/-- Whether the value stays what it is. A list of values does not. -/
def isSettled : Offer → Bool
  | .other (.list _) => false
  | _ => true

/-- How many different values two offers are. Only settled values are counted. -/
def countDistinct? (a b : Offer) : Option Nat :=
  if a.isSettled && b.isSettled then some (if a.same b then 1 else 2) else none

end Offer

end DataLayout
