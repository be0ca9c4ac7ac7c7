-- Measuring with a memory. A strategy keeps what it has found out about names and about structs,
-- and writes a record of each search for the best ordering. It is `LayoutStrategy` with
-- `UnpackedLayout`, `PackedLayout` and `OptimizedLayout`.
import DataLayout.Compound
import DataLayout.Packing
import DataLayout.Registry

namespace DataLayout

/-! ## The memory -/

/-- What a strategy remembers: what names take, and the best orderings of structs by the
list of their members. The newest findings come first. -/
structure Memory where
  extents : List (String × Extent)
  searches : List (List String × (List String × Int))
  deriving DecidableEq

namespace Memory

def empty : Memory := ⟨[], []⟩

def extent? (m : Memory) (name : String) : Option Extent := m.extents.lookup name

def search? (m : Memory) (members : List String) : Option (List String × Int) :=
  m.searches.lookup members

def rememberExtent (m : Memory) (name : String) (e : Extent) : Memory :=
  { m with extents := (name, e) :: m.extents }

def rememberSearch (m : Memory) (members ordering : List String) (size : Int) : Memory :=
  { m with searches := (members, (ordering, size)) :: m.searches }

end Memory

/-! ## One definition -/

namespace Strategy

open Text

/-- A step of a strategy. -/
abbrev Work := Logged Memory

/-- A struct or a union has at least one member. -/
def requireMembers (names : List String) : Work Unit :=
  if names.isEmpty then throw (.type ⟨.emptyCompound, none⟩) else pure ()

/-- The remembered extent of a name, or the one that is found out now. -/
def remembered (name : String) (find : Work Extent) : Work Extent := do
  match (← Logged.state).extent? name with
  | some e => return e
  | none => find

/-- The best ordering of a struct and its size. The search is made and recorded once for
each list of members. -/
def search (limit : DigitLimit) (extentOf : String → Work Extent) (names : List String) :
    Work (List String × Int) := do
  match (← Logged.state).search? names with
  | some found => return found
  | none =>
    let extents ← names.mapM extentOf
    let best ← bestOrdering (List.zipWith Member.mk names extents)
    let ordering := best.members.map (·.name)
    Logged.note limit (.ordered names ordering best.size)
    Logged.change fun m => m.rememberSearch names ordering best.size
    return (ordering, best.size)

/-- The size of a struct. Without a packing there is no rule for it. -/
def structSize (limit : DigitLimit) (packing : Option Packing) (extentOf : String → Work Extent)
    (names : List String) : Work Int :=
  match packing with
  | none => throw .noPacking
  | some .unpacked => do sizeInOrder (← names.mapM extentOf)
  | some .packed => return sizeWithoutPadding (← names.mapM extentOf)
  | some .optimized => return (← search limit extentOf names).2

/-- The alignment of a struct is that of its first member, as it is laid out. -/
def structAlignment (limit : DigitLimit) (packing : Option Packing)
    (extentOf : String → Work Extent) (names : List String) : Work Int :=
  match packing with
  | none => throw .noPacking
  | some .unpacked => return (← extentOf (names.headD "")).alignment
  | some .packed => return (← extentOf (names.headD "")).alignment
  | some .optimized => do
    let (ordering, _) ← search limit extentOf names
    return (← extentOf (ordering.headD "")).alignment

def sizeWith (limit : DigitLimit) (packing : Option Packing) (extentOf : String → Work Extent) :
    Definition → Work Int
  | .atomic size _ => return size
  | .struct names => do
    requireMembers names
    structSize limit packing extentOf names
  | .union names => do
    requireMembers names
    largest ((← names.mapM extentOf).map (·.size))

def alignmentWith (limit : DigitLimit) (packing : Option Packing)
    (extentOf : String → Work Extent) : Definition → Work Int
  | .atomic _ alignment => return alignment
  | .struct names => do
    requireMembers names
    structAlignment limit packing extentOf names
  | .union names => do
    requireMembers names
    jointAlignment ((← names.mapM extentOf).map (·.alignment))

/-! ## Names -/

/-- Finds out what a name takes, among the given entries. The names of its definition are
recalled, or found out among the entries that are older. -/
def findExtent (limit : DigitLimit) (packing : Option Packing) : List Entry → String → Work Extent
  | [], name => throw (.type (.unknown name))
  | e :: older, name =>
    if e.name = name then do
      let known := fun n => remembered n (findExtent limit packing older n)
      let size ← sizeWith limit packing known e.definition
      let alignment ← alignmentWith limit packing known e.definition
      Logged.change fun m => m.rememberExtent name ⟨size, alignment⟩
      return ⟨size, alignment⟩
    else findExtent limit packing older name

/-! ## Questions to a strategy -/

section

variable (limit : DigitLimit) (packing : Option Packing) (r : Registry)

def extent (name : String) : Work Extent :=
  remembered name (findExtent limit packing r.entries name)

/-- One level of the same by name and not by entry: the name is resolved among all entries,
and the names of its definition are measured by `inner`. -/
def level (inner : String → Work Extent) (name : String) : Work Extent :=
  remembered name do
    let d ← r.resolve name
    let size ← sizeWith limit packing inner d
    let alignment ← alignmentWith limit packing inner d
    Logged.change fun m => m.rememberExtent name ⟨size, alignment⟩
    return ⟨size, alignment⟩

def size (d : Definition) : Work Int := sizeWith limit packing (extent limit packing r) d

def alignment (d : Definition) : Work Int := alignmentWith limit packing (extent limit packing r) d

/-- The best ordering of a struct, which need not be registered. -/
def ordering (names : List String) : Work (List String × Int) :=
  search limit (extent limit (some .optimized) r) names

end

end Strategy

end DataLayout
