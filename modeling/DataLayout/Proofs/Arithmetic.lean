-- The laws of divisors, multiples and placement. Euclid's loop finds the greatest common
-- divisor up to its sign. On positive alignments the common multiple is the least one, of two
-- and, pair by pair, of a whole list. A member is never placed before the end of those in front
-- of it.
import Mathlib.Data.List.Basic
import Mathlib.Data.Int.GCD
import DataLayout.Compound

namespace DataLayout

/-! ## Divisors -/

theorem gcd_fmod (x y : Int) : Int.gcd y (x.fmod y) = Int.gcd x y := by
  have hx : x.fmod y = x - y * x.fdiv y := by
    have := Int.fmod_add_mul_fdiv x y
    omega
  rw [hx, Int.gcd_sub_mul_left_right, Int.gcd_comm]

/-- Up to its sign, the result of the loop is the greatest common divisor. -/
theorem natAbs_gcd (x y : Int) : (gcd x y).natAbs = Int.gcd x y := by
  induction x, y using gcd.induct with
  | case1 x => rw [gcd_zero_right, Int.gcd_zero_right]
  | case2 x y h _ ih => rw [gcd_of_ne_zero x h, ih, gcd_fmod]

theorem gcd_nonneg {x y : Int} (hx : 0 ≤ x) (hy : 0 ≤ y) : 0 ≤ gcd x y := by
  induction x, y using gcd.induct with
  | case1 x =>
    rw [gcd_zero_right]
    exact hx
  | case2 x y h _ ih =>
    rw [gcd_of_ne_zero x h]
    exact ih hy (Int.fmod_nonneg_of_pos x (by omega))

theorem gcd_of_nonneg {x y : Int} (hx : 0 ≤ x) (hy : 0 ≤ y) : gcd x y = Int.gcd x y := by
  have hnonneg := gcd_nonneg hx hy
  have habs := natAbs_gcd x y
  omega

/-! ## Multiples -/

/-- On positive integers the common multiple is the least one. -/
theorem lcm_of_pos {x y : Int} (hx : 1 ≤ x) (hy : 1 ≤ y) : lcm x y = some (Int.lcm x y : Int) := by
  have hmul : x * y = (Int.gcd x y : Int) * (Int.lcm x y : Int) := by
    have h := congrArg Int.ofNat (Int.gcd_mul_lcm x y)
    simp only [Int.ofNat_eq_natCast, Int.natCast_mul] at h
    rw [h, Int.natAbs_of_nonneg (by omega), Int.natAbs_of_nonneg (by omega)]
  have hgcd : (Int.gcd x y : Int) ≠ 0 := by
    have := Int.gcd_pos_of_ne_zero_left y (by omega : x ≠ 0)
    omega
  unfold lcm
  rw [if_neg (by omega), gcd_of_nonneg (by omega) (by omega), hmul,
    Int.mul_fdiv_cancel_left _ hgcd]

theorem one_le_lcm {x y : Int} (hx : 1 ≤ x) (hy : 1 ≤ y) : (1 : Int) ≤ Int.lcm x y := by
  have := Int.lcm_pos (by omega : x ≠ 0) (by omega : y ≠ 0)
  omega

/-! ## Joint alignments -/

/-- A positive number whose multiples are exactly the common multiples of some numbers. -/
structure LeastMultiple (numbers : List Int) (least : Int) : Prop where
  positive : 1 ≤ least
  dvd_iff : ∀ multiple, least ∣ multiple ↔ ∀ a ∈ numbers, a ∣ multiple

namespace LeastMultiple

variable {numbers others : List Int} {least other : Int}

theorem dvd (h : LeastMultiple numbers least) {a : Int} (ha : a ∈ numbers) : a ∣ least :=
  (h.dvd_iff least).mp (Int.dvd_refl least) a ha

theorem dvd_of_subset (h : LeastMultiple numbers least) (hothers : LeastMultiple others other)
    (hsub : ∀ a ∈ numbers, a ∈ others) : least ∣ other :=
  (h.dvd_iff other).mpr fun _ ha => hothers.dvd (hsub _ ha)

/-- It does not matter in which order numbers come and how often. -/
theorem eq_of_same (h : LeastMultiple numbers least) (hothers : LeastMultiple others other)
    (hsame : ∀ a, a ∈ numbers ↔ a ∈ others) : least = other := by
  have hpos := h.positive
  have hpos' := hothers.positive
  exact Int.dvd_antisymm (by omega) (by omega)
    (h.dvd_of_subset hothers fun a ha => (hsame a).mp ha)
    (hothers.dvd_of_subset h fun a ha => (hsame a).mpr ha)

theorem eq_one (h : LeastMultiple [] least) : least = 1 := by
  have hpos := h.positive
  exact Int.eq_one_of_dvd_one (by omega) ((h.dvd_iff 1).mpr (by simp))

theorem exists_of_pos (h : ∀ a ∈ numbers, 1 ≤ a) :
    ∃ least, LeastMultiple numbers least := by
  induction numbers with
  | nil => exact ⟨1, Int.le_refl 1, fun multiple => by simp⟩
  | cons a rest ih =>
    obtain ⟨ha, hrest⟩ := List.forall_mem_cons.mp h
    obtain ⟨least, hleast⟩ := ih hrest
    refine ⟨Int.lcm a least, one_le_lcm ha hleast.positive, fun multiple => ?_⟩
    rw [Int.coe_lcm_dvd_iff, hleast.dvd_iff, List.forall_mem_cons]

end LeastMultiple

/-- The elements of a list that have a neighbour: all of them, unless there is only one. -/
def withNeighbour {α : Type} : List α → List α
  | [_] => []
  | items => items

section

variable {α β : Type}

theorem withNeighbour_of_two {items : List α} (h : 2 ≤ items.length) :
    withNeighbour items = items := by
  rcases items with _ | ⟨a, _ | ⟨b, rest⟩⟩
  · rfl
  · simp at h
  · rfl

theorem mem_of_mem_withNeighbour {items : List α} {a : α}
    (h : a ∈ withNeighbour items) : a ∈ items := by
  rcases items with _ | ⟨b, _ | ⟨c, rest⟩⟩
  · cases h
  · cases h
  · exact h

theorem withNeighbour_map (f : α → β) (items : List α) :
    withNeighbour (items.map f) = (withNeighbour items).map f := by
  rcases items with _ | ⟨a, _ | ⟨b, rest⟩⟩ <;> rfl

/-- What holds of both sides of all neighbouring pairs holds of all that have a neighbour. -/
theorem forall_neighbours_iff (P : α → Prop) (items : List α) :
    (∀ pair ∈ items.zip items.tail, P pair.1 ∧ P pair.2) ↔ ∀ a ∈ withNeighbour items, P a := by
  match items with
  | [] => simp [withNeighbour]
  | [a] => simp [withNeighbour]
  | a :: b :: rest =>
    have ih := forall_neighbours_iff P (b :: rest)
    -- The first pair already has `b`, so it counts whether or not it has a neighbour behind it.
    have hb : P b → ((∀ c ∈ withNeighbour (b :: rest), P c) ↔ ∀ c ∈ rest, P c) := by
      intro hb
      cases rest with
      | nil => simp [withNeighbour]
      | cons c rest => simp [withNeighbour, hb]
    simp only [List.tail_cons] at ih
    simp only [List.tail_cons, List.zip_cons_cons, List.forall_mem_cons, ih, withNeighbour]
    constructor
    · rintro ⟨⟨ha, hpb⟩, hrest⟩
      exact ⟨ha, hpb, (hb hpb).mp hrest⟩
    · rintro ⟨ha, hpb, hrest⟩
      exact ⟨⟨ha, hpb⟩, (hb hpb).mpr hrest⟩

end

theorem joinPair_of_pos {start : Int} {pair : Int × Int} (hstart : 1 ≤ start)
    (hleft : 1 ≤ pair.1) (hright : 1 ≤ pair.2) :
    joinPair start pair = some (Int.lcm start (Int.lcm pair.1 pair.2 : Int) : Int) := by
  unfold joinPair
  rw [lcm_of_pos hleft hright]
  exact lcm_of_pos hstart (one_le_lcm hleft hright)

/-- Joining pair after pair gives the number whose multiples are those of the start and of both
sides of each pair. -/
theorem foldlM_joinPair_of_pos {pairs : List (Int × Int)}
    (h : ∀ pair ∈ pairs, 1 ≤ pair.1 ∧ 1 ≤ pair.2) {start : Int} (hstart : 1 ≤ start) :
    ∃ joint, pairs.foldlM joinPair start = some joint ∧ 1 ≤ joint ∧
      ∀ multiple, joint ∣ multiple ↔
        start ∣ multiple ∧ ∀ pair ∈ pairs, pair.1 ∣ multiple ∧ pair.2 ∣ multiple := by
  induction pairs generalizing start with
  | nil => exact ⟨start, rfl, hstart, by simp⟩
  | cons pair rest ih =>
    obtain ⟨hleft, hright⟩ := h pair List.mem_cons_self
    obtain ⟨joint, hjoint, hpos, hdvd⟩ := ih (fun q hq => h q (List.mem_cons_of_mem _ hq))
      (one_le_lcm hstart (one_le_lcm hleft hright))
    refine ⟨joint, ?_, hpos, fun multiple => ?_⟩
    · rw [List.foldlM_cons, joinPair_of_pos hstart hleft hright]
      exact hjoint
    · rw [hdvd, Int.coe_lcm_dvd_iff, Int.coe_lcm_dvd_iff, List.forall_mem_cons, and_assoc]

/-- Positive alignments always have a joint one. It is the least common multiple of all of them,
and 1 if there is only one. -/
theorem jointAlignment_of_pos {alignments : List Int} (h : ∀ a ∈ alignments, 1 ≤ a) :
    ∃ joint, jointAlignment alignments = .ok joint ∧
      LeastMultiple (withNeighbour alignments) joint := by
  have hpairs : ∀ pair ∈ alignments.zip alignments.tail, 1 ≤ pair.1 ∧ 1 ≤ pair.2 := by
    intro pair hpair
    obtain ⟨hleft, hright⟩ := List.of_mem_zip hpair
    exact ⟨h _ hleft, h _ (List.mem_of_mem_tail hright)⟩
  obtain ⟨joint, hjoint, hpos, hdvd⟩ := foldlM_joinPair_of_pos hpairs (Int.le_refl 1)
  refine ⟨joint, ?_, hpos, fun multiple => ?_⟩
  · unfold jointAlignment
    rw [hjoint]
    rfl
  · rw [hdvd, forall_neighbours_iff (· ∣ multiple)]
    simp

/-! ## Placement -/

/-- Size and alignment are at least 1. -/
def Extent.Positive (e : Extent) : Prop := 1 ≤ e.size ∧ 1 ≤ e.alignment

theorem le_alignUp (offset : Int) {alignment : Int} (h : 1 ≤ alignment) :
    offset ≤ alignUp offset alignment := by
  have := Int.fmod_lt_of_pos offset (by omega : 0 < alignment)
  simp only [alignUp]
  split_ifs <;> omega

theorem placeAt_of_positive {e : Extent} (h : e.Positive) (offset : Int) :
    placeAt offset e = some (alignUp offset e.alignment + e.size) := by
  obtain ⟨_, halign⟩ := h
  unfold placeAt
  rw [if_neg (by omega)]

/-- Placing positive members goes on by their sizes, and by the padding between them. -/
theorem foldlM_placeAt_of_positive {members : List Extent} (h : ∀ e ∈ members, e.Positive)
    (start : Int) :
    ∃ offset, members.foldlM placeAt start = some offset ∧
      start + sizeWithoutPadding members ≤ offset := by
  induction members generalizing start with
  | nil => exact ⟨start, rfl, by simp [sizeWithoutPadding]⟩
  | cons e rest ih =>
    have he := h e List.mem_cons_self
    obtain ⟨offset, hoffset, hle⟩ :=
      ih (fun e' he' => h e' (List.mem_cons_of_mem _ he')) (alignUp start e.alignment + e.size)
    refine ⟨offset, ?_, ?_⟩
    · rw [List.foldlM_cons, placeAt_of_positive he]
      exact hoffset
    · have := le_alignUp start he.2
      simp only [sizeWithoutPadding]
      omega

/-- Members that are placed in their order take at least what they take without padding. -/
theorem sizeInOrder_of_positive {members : List Extent} (h : ∀ e ∈ members, e.Positive) :
    ∃ size, sizeInOrder members = .ok size ∧ sizeWithoutPadding members ≤ size := by
  obtain ⟨size, hsize, hle⟩ := foldlM_placeAt_of_positive h 0
  refine ⟨size, ?_, by omega⟩
  unfold sizeInOrder paddedSize
  rw [hsize]
  rfl

theorem length_le_sizeWithoutPadding {members : List Extent} (h : ∀ e ∈ members, e.Positive) :
    members.length ≤ sizeWithoutPadding members := by
  induction members with
  | nil => exact Int.le_refl 0
  | cons e rest ih =>
    have hrest := ih fun e' he' => h e' (List.mem_cons_of_mem _ he')
    have := (h e List.mem_cons_self).1
    simp only [sizeWithoutPadding, List.length_cons]
    omega

/-! ## The largest number -/

/-- Some numbers have a largest one, and it is one of them. -/
theorem largest_of_ne_nil (numbers : List Int) (h : numbers ≠ []) :
    ∃ n, largest numbers = .ok n ∧ n ∈ numbers ∧ ∀ m ∈ numbers, m ≤ n := by
  unfold largest
  cases hmax : numbers.max? with
  | none => exact absurd (List.max?_eq_none_iff.mp hmax) h
  | some n =>
    obtain ⟨hmem, hle⟩ := List.max?_eq_some_iff.mp hmax
    exact ⟨n, rfl, hmem, hle⟩

end DataLayout
