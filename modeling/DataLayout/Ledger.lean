-- A ledger: the registry of `register`, `lookup` and `names` as its callers may fill it. A name
-- may be any single value there, not only a text, and so may a member. Names that are the same
-- as numbers are the same name.
import DataLayout.Registry

namespace DataLayout

open Text

/-! ## Definitions and offers -/

/-- A definition whose members may be any values. -/
inductive AnyDefinition
  | atomic (size alignment : Int)
  | struct (members : List Datum)
  | union (variants : List Datum)

namespace AnyDefinition

def ofText (name : String) : Datum := .scalar (.text name)

def ofDefinition : Definition → AnyDefinition
  | .atomic size alignment => .atomic size alignment
  | .struct members => .struct (members.map ofText)
  | .union variants => .union (variants.map ofText)

/-- The values that a definition refers to, in its order. -/
def references : AnyDefinition → List Datum
  | .atomic _ _ => []
  | .struct members => members
  | .union variants => variants

end AnyDefinition

/-- What is offered as a definition, with members that may be any values. -/
inductive AnyOffer
  | atomic (size alignment : Scalar)
  | struct (members : List Datum)
  | union (variants : List Datum)
  | other (value : Datum)

namespace AnyOffer

def ofOffer : Offer → AnyOffer
  | .atomic size alignment => .atomic size alignment
  | .struct members => .struct (members.map AnyDefinition.ofText)
  | .union variants => .union (variants.map AnyDefinition.ofText)
  | .other value => .other value

def ofDefinition : AnyDefinition → AnyOffer
  | .atomic size alignment => .atomic (.integer size) (.integer alignment)
  | .struct members => .struct members
  | .union variants => .union variants

/-- The definition that an offer stands for. -/
def accept (limit : DigitLimit) : AnyOffer → Except Failure AnyDefinition
  | .atomic size alignment =>
    (Registry.accept limit (.atomic size alignment)).map .ofDefinition
  | .struct members => .ok (.struct members)
  | .union variants => .ok (.union variants)
  | .other value => (Registry.accept limit (.other value)).map .ofDefinition

end AnyOffer

/-! ## Look-up -/

/-- A definition under its name. -/
structure AnyEntry where
  name : Scalar
  definition : AnyDefinition

/-- The entries, the newest first. -/
structure Ledger where
  entries : List AnyEntry

namespace Ledger

def empty : Ledger := ⟨[]⟩

def ofRegistry (r : Registry) : Ledger :=
  ⟨r.entries.map fun e => ⟨.text e.name, .ofDefinition e.definition⟩⟩

/-- The names, in the order of their registration. -/
def names (l : Ledger) : List Scalar := l.entries.reverse.map (·.name)

def size (l : Ledger) : Nat := l.entries.length

def lookup? (l : Ledger) (name : Scalar) : Option AnyDefinition :=
  (l.entries.find? fun e => e.name.same name).map (·.definition)

/-- The name that a value is. A list of values is none. -/
def key : Datum → Except Failure Scalar
  | .scalar name => .ok name
  | .list _ => .error .notSettled

def contains (l : Ledger) (value : Datum) : Except Failure Bool := do
  return (l.lookup? (← key value)).isSome

/-! ## Registration -/

/-- The name that a fault is about. -/
def faultName : Datum → Option String
  | .scalar .absent => none
  | value => some value.plain

/-- Whether all members are registered. The first one that is not is the fault. -/
def checkMembers (l : Ledger) : List Datum → Except Failure Unit
  | [] => .ok ()
  | member :: rest => do
    if ← l.contains member then checkMembers l rest
    else throw (.type ⟨.unknownName, faultName member⟩)

/-- Whether a struct or a union may have these members: at least one, and all registered. -/
def checkCompound (l : Ledger) (members : List Datum) : Except Failure Unit :=
  if members.isEmpty then .error (.type ⟨.emptyCompound, none⟩) else l.checkMembers members

/-- Whether a definition is valid on its own and beside the registered ones. The first rule that
it breaks is the fault. -/
def check (l : Ledger) (name : Scalar) (d : AnyDefinition) : Except Failure Unit :=
  if (l.lookup? name).isSome then .error (.type ⟨.redefinition, none⟩)
  else
    match d with
    | .atomic size alignment =>
      if size ≤ 0 then .error (.type ⟨.zeroSize, none⟩)
      else if alignment ≤ 0 then .error (.type ⟨.zeroAlignment, none⟩)
      else .ok ()
    | .struct members => l.checkCompound members
    | .union variants => l.checkCompound variants

/-- Whether a value is a text. -/
def isText : Datum → Bool
  | .scalar (.text _) => true
  | _ => false

/-- Writes the record of an entry. Its numbers have to keep the limit, and its members have to
be texts. -/
def note (limit : DigitLimit) (e : AnyEntry) : Except Failure Unit :=
  if !e.name.writable limit then .error .numeralTooLong
  else
    match e.definition with
    | .atomic size alignment =>
      if writable limit size && writable limit alignment then .ok () else .error .numeralTooLong
    | d => if d.references.all isText then .ok () else .error .notText

end Ledger

/-! ## Calls one after the other -/

/-- A call to register an offer under a name, which may be any values. -/
structure AnyCall where
  name : Datum
  offer : AnyOffer

def AnyCall.ofCall (c : Call) : AnyCall := ⟨.scalar (.text c.name), .ofOffer c.offer⟩

namespace Ledger

variable (limit : DigitLimit)

/-- The entry that a call asks for, if it is valid. -/
def entry (l : Ledger) (c : AnyCall) : Except Failure AnyEntry := do
  let d ← c.offer.accept limit
  let name ← key c.name
  l.check name d
  return ⟨name, d⟩

/-- What a call answers, and the ledger after it. The record is written after the entry is added,
so an entry whose record fails is registered all the same. -/
def call (l : Ledger) (c : AnyCall) : Except Failure Unit × Ledger :=
  match l.entry limit c with
  | .ok e => (note limit e, ⟨e :: l.entries⟩)
  | .error failure => (.error failure, l)

/-- The ledger after some calls. A call that is refused does not end them. -/
def afterCalls (l : Ledger) (calls : List AnyCall) : Ledger :=
  calls.foldl (fun l c => (l.call limit c).2) l

/-- The ledger that some calls fill, from nothing. -/
def ofCalls (calls : List AnyCall) : Ledger := empty.afterCalls limit calls

end Ledger

end DataLayout
