-- The engine: one strategy for each packing, and the questions that need more than one. It is
-- `LayoutEngine`.
import DataLayout.Report
import DataLayout.Strategy

namespace DataLayout

open Text

/-- The memories of the three strategies. -/
structure Engine where
  unpacked : Memory
  packed : Memory
  optimized : Memory
  deriving DecidableEq

namespace Engine

def empty : Engine := ⟨.empty, .empty, .empty⟩

def memory (e : Engine) : Packing → Memory
  | .unpacked => e.unpacked
  | .packed => e.packed
  | .optimized => e.optimized

def putMemory (p : Packing) (m : Memory) (e : Engine) : Engine :=
  match p with
  | .unpacked => { e with unpacked := m }
  | .packed => { e with packed := m }
  | .optimized => { e with optimized := m }

/-- A step of the strategy of a packing. -/
def strategy {α : Type} (p : Packing) (step : Strategy.Work α) : Logged Engine α :=
  Logged.within (·.memory p) (putMemory p) step

section

variable (limit : DigitLimit) (r : Registry)

/-! ## One packing -/

def extent (p : Packing) (name : String) : Logged Engine Extent :=
  strategy p (Strategy.extent limit (some p) r name)

def size (p : Packing) (d : Definition) : Logged Engine Int :=
  strategy p (Strategy.size limit (some p) r d)

def alignment (p : Packing) (d : Definition) : Logged Engine Int :=
  strategy p (Strategy.alignment limit (some p) r d)

/-- The best ordering of a struct, which need not be registered. -/
def search (names : List String) : Logged Engine (List String × Int) :=
  strategy .optimized (Strategy.ordering limit r names)

/-! ## Two packings -/

/-- The packed sizes of those variants of a union that reach the given size. -/
def packedSizes (p : Packing) (size : Int) : List String → Logged Engine (List Int)
  | [] => return []
  | n :: rest => do
    if (← extent limit r p n).size = size then
      let packed ← extent limit r .packed n
      return packed.size :: (← packedSizes p size rest)
    else packedSizes p size rest

/-- The bytes lost to padding. A union is compared with its best packed variant among
those that reach its size. -/
def loss (p : Packing) (d : Definition) : Logged Engine Int := do
  let total ← size limit r p d
  match d with
  | .union names => return total - (← largest (← packedSizes limit r p total names))
  | _ => return total - (← size limit r .packed d)

def layout (p : Packing) (d : Definition) : Logged Engine ModeLayout := do
  let size ← size limit r p d
  let alignment ← alignment limit r p d
  let loss ← loss limit r p d
  return ⟨size, alignment, loss⟩

/-! ## Registered names -/

/-- The best ordering of a registered struct. -/
def ordering (name : String) : Logged Engine (List String × Int) := do
  match ← r.resolve name with
  | .struct names => search limit r names
  | d => if d.writable limit then throw (.notAStruct name d.text) else throw .numeralTooLong

def report (name : String) : Logged Engine Report := do
  let d ← r.resolve name
  let unpacked ← layout limit r .unpacked d
  let packed ← layout limit r .packed d
  let optimized ← layout limit r .optimized d
  let ordering ←
    match d with
    | .struct _ => do pure (some (← ordering limit r name).1)
    | _ => pure none
  return { name, kind := d.kind, unpacked, packed, optimized, ordering }

/-- The report on a registered name as plain text. -/
def reportText (name : String) : Logged Engine String := do
  let report ← report limit r name
  if report.writable limit then return report.text else throw .numeralTooLong

end

end Engine

end DataLayout
