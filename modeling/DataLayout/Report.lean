-- The report on one type: its layout under each packing, and for a struct the best ordering of its
-- members. It is written as plain text. It is `LayoutReport`, built by `report`.
import DataLayout.Footprint

namespace DataLayout

open Text

structure Report where
  name : String
  kind : Kind
  unpacked : ModeLayout
  packed : ModeLayout
  optimized : ModeLayout
  ordering : Option (List String)
  deriving DecidableEq

namespace Report

def layout (r : Report) : Packing → ModeLayout
  | .unpacked => r.unpacked
  | .packed => r.packed
  | .optimized => r.optimized

/-- A report is written as text, so its numbers have to keep the limit. -/
def writable (limit : DigitLimit) (r : Report) : Bool :=
  Packing.reported.all fun p =>
    let l := r.layout p
    Text.writable limit l.size && Text.writable limit l.alignment && Text.writable limit l.loss

/-! ## Plain text -/

/-- The lines on one packing. -/
def packingLines (r : Report) (p : Packing) : List String :=
  let l := r.layout p
  ["   * " ++ p.heading ++ ":",
    "      + Size: " ++ String.ofList (numeral l.size),
    "      + Alignment: " ++ String.ofList (numeral l.alignment),
    "      + Loss: " ++ String.ofList (numeral l.loss)] ++
  match p, r.ordering with
  | .optimized, some names => ["      + Ordering: " ++ ", ".intercalate names]
  | _, _ => []

def lines (r : Report) : List String :=
  ["Symbol: " ++ r.name, r.kind.heading ++ ":"] ++ Packing.reported.flatMap r.packingLines

/-- The report as text, without a line end behind the last line. -/
def text (r : Report) : String := "\n".intercalate r.lines

/-- The names of the parts of a report, in their order. -/
def parts (r : Report) : List String :=
  ["name", "kind"] ++ Packing.reported.map (·.word) ++ (if r.ordering.isSome then ["ordering"] else [])

end Report

/-! ## Registered names -/

namespace Registry

variable (r : Registry) (limit : DigitLimit)

/-- The report on a registered name. -/
def report (name : String) : Except Failure Report := do
  let d ← r.resolve name
  let unpacked ← r.layoutOf limit .unpacked d
  let packed ← r.layoutOf limit .packed d
  let optimized ← r.layoutOf limit .optimized d
  let ordering ←
    match d with
    | .struct _ => do pure (some (← r.ordering limit name).1)
    | _ => pure none
  return { name, kind := d.kind, unpacked, packed, optimized, ordering }

/-- The report on a registered name as plain text. -/
def reportText (name : String) : Except Failure String := do
  let report ← r.report limit name
  if report.writable limit then return report.text else throw .numeralTooLong

end Registry

end DataLayout
