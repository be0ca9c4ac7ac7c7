-- Placing members one after the other. Each member starts at the next multiple of its alignment,
-- and there is no padding behind the last one. The function is `padded_size`.

namespace DataLayout

/-- What a member takes: its size and its alignment. -/
structure Extent where
  size : Int
  alignment : Int
  deriving DecidableEq, Inhabited

/-- The first offset from `offset` on that is a multiple of `alignment`. -/
def alignUp (offset alignment : Int) : Int :=
  let excess := offset.fmod alignment
  if excess = 0 then offset else offset + (alignment - excess)

/-- The end of a member that is placed at `offset` or after it. Nothing can be aligned to 0. -/
def placeAt (offset : Int) (e : Extent) : Option Int :=
  if e.alignment = 0 then none else some (alignUp offset e.alignment + e.size)

/-- The end of the last member when all members are placed in their order. -/
def paddedSize (members : List Extent) : Option Int := members.foldlM placeAt 0

theorem foldlM_placeAt_eq_none_iff (members : List Extent) (offset : Int) :
    members.foldlM placeAt offset = none ↔ ∃ e ∈ members, e.alignment = 0 := by
  induction members generalizing offset with
  | nil => simp
  | cons e rest ih =>
    by_cases h : e.alignment = 0
    · simp [placeAt, h]
    · simp [placeAt, h, ih]

end DataLayout
