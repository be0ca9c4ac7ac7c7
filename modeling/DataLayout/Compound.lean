-- What a struct or a union takes, from what its members take. The functions are `struct_size`,
-- `struct_align`, `union_size` and `union_align`, without the look-up of names.
import DataLayout.Arithmetic
import DataLayout.Failure
import DataLayout.Journal
import DataLayout.Orderings
import DataLayout.Placement

namespace DataLayout

/-! ## Structs -/

/-- A name with what it takes. -/
structure Member where
  name : String
  extent : Extent
  deriving DecidableEq, Inhabited

/-- The size of members that are placed in their order. -/
def sizeInOrder (members : List Extent) : Except Failure Int :=
  orFail .alignedToZero (paddedSize members)

/-- The size of members without any padding. -/
def sizeWithoutPadding : List Extent → Int
  | [] => 0
  | e :: rest => e.size + sizeWithoutPadding rest

/-- An ordering of members with its size. -/
structure Ordered where
  members : List Member
  size : Int
  deriving DecidableEq, Inhabited

/-- One turn of the search: a smaller size takes the place of the best one so far. -/
def keepSmaller (best : Option Ordered) (members : List Member) : Except Failure (Option Ordered) := do
  let size ← sizeInOrder (members.map (·.extent))
  match best with
  | none => return some ⟨members, size⟩
  | some b => return if size < b.size then some ⟨members, size⟩ else some b

/-- The first of the smallest orderings. All orderings are tried. -/
def bestOrdering (members : List Member) : Except Failure Ordered := do
  orFail .noOrdering (← (orderings members).foldlM keepSmaller none)

/-! ## Unions -/

/-- The largest of some numbers. -/
def largest (numbers : List Int) : Except Failure Int := orFail .noLargest numbers.max?

/-- One turn of the fold: the alignments of two neighbours are joined to those before. -/
def joinPair (alignment : Int) (pair : Int × Int) : Option Int := do
  lcm alignment (← lcm pair.1 pair.2)

/-- The alignment of a union, from the pairs of neighbours among its variants. A lone
variant has no pair, and the union is then aligned to 1. -/
def jointAlignment (alignments : List Int) : Except Failure Int :=
  orFail .noCommonMultiple ((alignments.zip alignments.tail).foldlM joinPair 1)

end DataLayout
