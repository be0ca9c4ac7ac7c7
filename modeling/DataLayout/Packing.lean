-- The three ways to pack a struct: in the declared order with padding, without padding, and in the
-- order that wastes the least space. They are `PackingMode` and `REPORT_ORDER`.

namespace DataLayout

inductive Packing
  | unpacked
  | packed
  | optimized
  deriving DecidableEq, Inhabited

namespace Packing

def all : List Packing := [.unpacked, .packed, .optimized]

/-- The order in which a report lists the packings. -/
def reported : List Packing := [.optimized, .unpacked, .packed]

/-- The word for a packing, in lower case. -/
def word : Packing → String
  | .unpacked => "unpacked"
  | .packed => "packed"
  | .optimized => "optimized"

/-- The word for a packing at the start of a line. -/
def heading : Packing → String
  | .unpacked => "Unpacked"
  | .packed => "Packed"
  | .optimized => "Optimized"

end Packing

end DataLayout
