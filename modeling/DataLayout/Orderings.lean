-- All orderings of a list, found by backtracking. Positions are tried in order, so the orderings
-- come out in the lexicographic order of their positions. The function is `permutations`.

namespace DataLayout

/-! ## The backtracking -/

/-- Where the search stands: which positions are taken, the elements taken so far (the
last one first), and the orderings found so far (the last one first). -/
structure Backtrack (α : Type) where
  used : List Bool
  current : List α
  found : List (List α)
  deriving DecidableEq

namespace Backtrack

variable {α : Type}

/-- Nothing is taken and nothing is found. -/
def start (n : Nat) : Backtrack α :=
  { used := List.replicate n false, current := [], found := [] }

def isUsed (s : Backtrack α) (i : Nat) : Bool := s.used.getD i false

def take (s : Backtrack α) (i : Nat) (item : α) : Backtrack α :=
  { s with used := s.used.set i true, current := item :: s.current }

/-- Undoes the last `take`. -/
def giveBack (s : Backtrack α) (i : Nat) : Backtrack α :=
  { s with used := s.used.set i false, current := s.current.tail }

/-- The elements taken so far are a whole ordering. -/
def record (s : Backtrack α) : Backtrack α :=
  { s with found := s.current.reverse :: s.found }

/-- Takes `missing` more elements in every way. Each free position is taken in turn, the
rest is filled, and the position is given back. -/
def fill (items : List α) : Nat → Backtrack α → Backtrack α
  | 0, s => s.record
  | missing + 1, s =>
    items.zipIdx.foldl
      (fun s (item, i) => if s.isUsed i then s else (fill items missing (s.take i item)).giveBack i) s

end Backtrack

/-- Every ordering of `items`, in the lexicographic order of positions. No items have no
ordering at all, not even the empty one. -/
def orderings {α : Type} (items : List α) : List (List α) :=
  if items.isEmpty then []
  else ((Backtrack.start items.length).fill items items.length).found.reverse

/-! ## The same orderings by choice -/

/-- Each element with the elements that are left when it is chosen. -/
def choices {α : Type} : List α → List (α × List α)
  | [] => []
  | a :: rest => (a, rest) :: (choices rest).map fun (b, left) => (b, a :: left)

/-- The orderings of `n` chosen elements: a first element, then the orderings of the rest. -/
def arrangements {α : Type} : Nat → List α → List (List α)
  | 0, _ => [[]]
  | n + 1, items => (choices items).flatMap fun (a, left) => (arrangements n left).map (a :: ·)

end DataLayout
