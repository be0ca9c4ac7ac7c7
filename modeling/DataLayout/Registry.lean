-- The registry: definitions under names. It only grows, and a name is registered before anything
-- refers to it. It is `TypeRegistry` with `register`, `lookup`, `resolve` and `names`.
import DataLayout.Journal

namespace DataLayout

/-- A definition under its name. -/
structure Entry where
  name : String
  definition : Definition
  deriving DecidableEq

/-- The definition of a name among entries. -/
def definitionIn? : List Entry → String → Option Definition
  | [], _ => none
  | e :: older, name => if e.name = name then some e.definition else definitionIn? older name

/-! ## Look-up -/

/-- The registered entries, the newest first. So the entries behind an entry are those that
its definition may refer to. -/
structure Registry where
  entries : List Entry
  deriving DecidableEq

namespace Registry

def empty : Registry := ⟨[]⟩

/-- The registered names, in the order of their registration. -/
def names (r : Registry) : List String := r.entries.reverse.map (·.name)

def size (r : Registry) : Nat := r.entries.length

def lookup? (r : Registry) (name : String) : Option Definition := definitionIn? r.entries name

def contains (r : Registry) (name : String) : Bool := (r.lookup? name).isSome

/-- The definition of a name that has to be registered. -/
def resolve (r : Registry) (name : String) : Except Failure Definition :=
  orFail (.type (.unknown name)) (r.lookup? name)

/-- The registry in one line. -/
def text (r : Registry) : String := "TypeRegistry(" ++ ", ".intercalate r.names ++ ")"

/-! ## Registration -/

/-- Whether a struct or a union may have these members: at least one, and all registered. -/
def checkMembers (r : Registry) (names : List String) : Except TypeFault Unit :=
  if names.isEmpty then .error ⟨.emptyCompound, none⟩
  else
    match names.find? fun n => !r.contains n with
    | some n => .error (.unknown n)
    | none => .ok ()

/-- Whether a definition is valid on its own and beside the registered ones. The first
rule that it breaks is the fault. -/
def check (r : Registry) (name : String) (d : Definition) : Except TypeFault Unit :=
  if r.contains name then .error ⟨.redefinition, none⟩
  else
    match d with
    | .atomic size alignment =>
      if size ≤ 0 then .error ⟨.zeroSize, none⟩
      else if alignment ≤ 0 then .error ⟨.zeroAlignment, none⟩
      else .ok ()
    | .struct names => r.checkMembers names
    | .union names => r.checkMembers names

/-- The registry with one more entry, which is not checked. -/
def insert (r : Registry) (name : String) (d : Definition) : Registry :=
  ⟨⟨name, d⟩ :: r.entries⟩

/-- The definition that an offer stands for. The refusal shows the offer, so its numbers
have to keep the limit. -/
def accept (limit : Text.DigitLimit) (offer : Offer) : Except Failure Definition :=
  match offer.definition? with
  | some d => .ok d
  | none =>
    if !offer.writable limit then .error .numeralTooLong
    else if offer.isDefinition then .error (.notIntegers offer.text)
    else .error (.notADefinition offer.text)

/-- Checks an offered definition and registers it. The record is written after that, so a
number that is too long for the log is registered all the same. -/
def register (limit : Text.DigitLimit) (name : String) (offer : Offer) : Logged Registry Unit := do
  let d ← accept limit offer
  match (← Logged.state).check name d with
  | .error fault => throw (.type fault)
  | .ok () =>
    Logged.change fun r => r.insert name d
    Logged.note limit (.registered name d)

end Registry

/-! ## Calls one after the other -/

/-- A call to register an offer under a name. -/
structure Call where
  name : String
  offer : Offer

namespace Registry

/-- What a call answers, and the registry after it. -/
def call (limit : Text.DigitLimit) (r : Registry) (c : Call) : Except Failure Unit × Registry :=
  let (answer, after) := Logged.runFrom r (register limit c.name c.offer)
  (answer, after.state)

/-- The registry after some calls. A call that is refused does not end them. -/
def afterCalls (limit : Text.DigitLimit) (r : Registry) (calls : List Call) : Registry :=
  calls.foldl (fun r c => (r.call limit c).2) r

/-- The registry that some calls fill, from nothing. -/
def ofCalls (limit : Text.DigitLimit) (calls : List Call) : Registry :=
  empty.afterCalls limit calls

/-- The entries that the accepted ones of some calls ask for, the first accepted one first. -/
def acceptedFrom (limit : Text.DigitLimit) (r : Registry) : List Call → List Entry
  | [] => []
  | c :: rest =>
    match r.call limit c, c.offer.definition? with
    | (.ok (), after), some d => ⟨c.name, d⟩ :: acceptedFrom limit after rest
    | (_, after), _ => acceptedFrom limit after rest

/-- The entries of the accepted calls, from nothing. -/
def accepted (limit : Text.DigitLimit) (calls : List Call) : List Entry :=
  empty.acceptedFrom limit calls

/-! ## References -/

/-- One name's definition refers to another name. -/
def Refers (r : Registry) (name other : String) : Prop :=
  ∃ d, r.lookup? name = some d ∧ other ∈ d.references

end Registry

end DataLayout
