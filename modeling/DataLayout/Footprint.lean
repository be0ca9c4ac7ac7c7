-- What a type takes, by recursion over the registry and nothing else. A name is looked up among
-- the entries that are older than the one that refers to it. Nothing is remembered. The functions
-- are those of `LayoutStrategy` and `LayoutEngine`, as if they had no caches.
import DataLayout.Compound
import DataLayout.Packing
import DataLayout.Registry

namespace DataLayout

/-- Size, alignment and loss of a type under one packing. -/
structure ModeLayout where
  size : Int
  alignment : Int
  loss : Int
  deriving DecidableEq, Inhabited

namespace Footprint

open Text

/-! ## One definition, when its members are measured -/

/-- A struct or a union has at least one member. -/
def requireMembers (names : List String) : Except Failure Unit :=
  if names.isEmpty then .error (.type ⟨.emptyCompound, none⟩) else .ok ()

/-- The measured members of a struct, in its order. -/
def membersOf (extentOf : String → Except Failure Extent) (names : List String) :
    Except Failure (List Member) :=
  names.mapM fun n => do return ⟨n, ← extentOf n⟩

section

variable (limit : DigitLimit)

/-- The best ordering of measured members. Its size is put on record, so it has to keep the
limit. -/
def searchAmong (members : List Member) : Except Failure Ordered := do
  let best ← bestOrdering members
  if writable limit best.size then return best else throw .numeralTooLong

variable (p : Packing)

def sizeOf (extentOf : String → Except Failure Extent) : Definition → Except Failure Int
  | .atomic size _ => .ok size
  | .struct names => do
    requireMembers names
    let members ← membersOf extentOf names
    match p with
    | .unpacked => sizeInOrder (members.map (·.extent))
    | .packed => return sizeWithoutPadding (members.map (·.extent))
    | .optimized => return (← searchAmong limit members).size
  | .union names => do
    requireMembers names
    largest ((← membersOf extentOf names).map (·.extent.size))

/-- A struct is aligned like its first member, in the order in which it is laid out. -/
def alignmentOf (extentOf : String → Except Failure Extent) : Definition → Except Failure Int
  | .atomic _ alignment => .ok alignment
  | .struct names => do
    requireMembers names
    match p with
    | .unpacked | .packed => return (← extentOf (names.headD "")).alignment
    | .optimized =>
      let best ← searchAmong limit (← membersOf extentOf names)
      return (best.members.headD default).extent.alignment
  | .union names => do
    requireMembers names
    jointAlignment ((← membersOf extentOf names).map (·.extent.alignment))

/-- Size and alignment together, the size first. -/
def measured (extentOf : String → Except Failure Extent) (d : Definition) :
    Except Failure Extent := do
  let size ← sizeOf limit p extentOf d
  let alignment ← alignmentOf limit p extentOf d
  return ⟨size, alignment⟩

/-! ## Names -/

/-- What a name takes, among the given entries. -/
def extentIn : List Entry → String → Except Failure Extent
  | [], name => .error (.type (.unknown name))
  | e :: older, name =>
    if e.name = name then measured limit p (extentIn older) e.definition else extentIn older name

end

end Footprint

/-! ## Questions to a registry -/

namespace Registry

open Footprint

variable (r : Registry) (limit : Text.DigitLimit)

/-- What a registered name takes. -/
def extent (p : Packing) (name : String) : Except Failure Extent :=
  extentIn limit p r.entries name

/-- One level of the same by name and not by entry: the name is resolved among all entries,
and the names of its definition are measured by `inner`. -/
def level (p : Packing) (inner : String → Except Failure Extent) (name : String) :
    Except Failure Extent := do
  measured limit p inner (← r.resolve name)

/-- The size of a definition, which need not be registered. -/
def sizeOf (p : Packing) (d : Definition) : Except Failure Int :=
  Footprint.sizeOf limit p (r.extent limit p) d

/-- The alignment of a definition, which need not be registered. -/
def alignmentOf (p : Packing) (d : Definition) : Except Failure Int :=
  Footprint.alignmentOf limit p (r.extent limit p) d

/-- The packed sizes of those variants of a union that reach the given size. -/
def packedSizes (p : Packing) (size : Int) : List String → Except Failure (List Int)
  | [] => .ok []
  | n :: rest => do
    if (← r.extent limit p n).size = size then
      let packed ← r.extent limit .packed n
      return packed.size :: (← packedSizes p size rest)
    else packedSizes p size rest

/-- The bytes lost to padding. A union is compared with its best packed variant among
those that reach its size. -/
def lossOf (p : Packing) (d : Definition) : Except Failure Int := do
  let size ← r.sizeOf limit p d
  match d with
  | .union names => return size - (← largest (← r.packedSizes limit p size names))
  | _ => return size - (← r.sizeOf limit .packed d)

def layoutOf (p : Packing) (d : Definition) : Except Failure ModeLayout := do
  let size ← r.sizeOf limit p d
  let alignment ← r.alignmentOf limit p d
  let loss ← r.lossOf limit p d
  return ⟨size, alignment, loss⟩

/-- The best ordering of the members of a struct and its size. -/
def orderingOf (names : List String) : Except Failure (List String × Int) := do
  let best ← searchAmong limit (← membersOf (r.extent limit .optimized) names)
  return (best.members.map (·.name), best.size)

/-- The best ordering of a registered struct. -/
def ordering (name : String) : Except Failure (List String × Int) := do
  match ← r.resolve name with
  | .struct names => r.orderingOf limit names
  | d => if d.writable limit then throw (.notAStruct name d.text) else throw .numeralTooLong

end Registry

end DataLayout
