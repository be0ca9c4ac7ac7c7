-- The laws of placement. Each member is put at the first multiple of its alignment that is free,
-- so no legal placement has any member at a lower offset, and before each member less is left
-- free than its alignment. The first member starts at 0, where nothing has to be left free.
import Mathlib.Algebra.Ring.Int.Defs
import Mathlib.Data.List.Forall2
import DataLayout.Proofs.Arithmetic

namespace DataLayout

/-! ## The next multiple -/

theorem dvd_alignUp (offset alignment : Int) : alignment ∣ alignUp offset alignment := by
  have hdiv := Int.fmod_add_mul_fdiv offset alignment
  simp only [alignUp]
  split_ifs with hexcess
  · exact ⟨offset.fdiv alignment, by omega⟩
  · exact ⟨offset.fdiv alignment + 1, by rw [Int.mul_add]; omega⟩

theorem alignUp_lt (offset : Int) {alignment : Int} (h : 1 ≤ alignment) :
    alignUp offset alignment < offset + alignment := by
  have := Int.fmod_nonneg_of_pos offset (by omega : 0 < alignment)
  simp only [alignUp]
  split_ifs <;> omega

/-- No multiple lies between an offset and the multiple that it is raised to. -/
theorem alignUp_le {offset multiple alignment : Int} (h : 1 ≤ alignment) (hle : offset ≤ multiple)
    (hdvd : alignment ∣ multiple) : alignUp offset alignment ≤ multiple := by
  have hless := alignUp_lt offset h
  obtain ⟨k, hk⟩ := Int.dvd_sub hdvd (dvd_alignUp offset alignment)
  by_contra hlarge
  -- The two multiples are less than one alignment apart, so there is no room for a step.
  have hstep : k < 0 := by
    by_contra hnonneg
    have := Int.mul_nonneg (by omega : 0 ≤ alignment) (by omega : 0 ≤ k)
    omega
  have := Int.mul_le_mul_of_nonneg_left (by omega : k ≤ -1) (by omega : 0 ≤ alignment)
  omega

/-- From a later offset the next multiple is no earlier. -/
theorem alignUp_mono {offset other alignment : Int} (h : 1 ≤ alignment) (hle : offset ≤ other) :
    alignUp offset alignment ≤ alignUp other alignment :=
  alignUp_le h (Int.le_trans hle (le_alignUp other h)) (dvd_alignUp other alignment)

/-! ## Legal placements -/

/-- The members are at these offsets, the first of them at `start` or behind it. Each offset is
a multiple of the alignment, and the next member is not before the end of this one. -/
inductive Placed : Int → List Extent → List Int → Prop
  | nil {start : Int} : Placed start [] []
  | cons {start offset : Int} {e : Extent} {members : List Extent} {offsets : List Int}
      (hstart : start ≤ offset) (haligned : e.alignment ∣ offset)
      (hrest : Placed (offset + e.size) members offsets) :
      Placed start (e :: members) (offset :: offsets)

/-- Where the last member ends, and `start` if there is none. -/
def endFrom (start : Int) : List Extent → List Int → Int
  | e :: members, offset :: offsets => endFrom (offset + e.size) members offsets
  | _, _ => start

/-- The offsets of members that are placed one after the other. -/
def offsetsFrom (start : Int) : List Extent → List Int
  | [] => []
  | e :: members =>
    alignUp start e.alignment :: offsetsFrom (alignUp start e.alignment + e.size) members

section

variable {members : List Extent} (h : ∀ e ∈ members, 1 ≤ e.alignment)

include h in
theorem placed_offsetsFrom (start : Int) : Placed start members (offsetsFrom start members) := by
  induction members generalizing start with
  | nil => exact .nil
  | cons e rest ih =>
    refine .cons (le_alignUp start (h e List.mem_cons_self)) (dvd_alignUp start e.alignment) ?_
    exact ih (fun e' he' => h e' (List.mem_cons_of_mem _ he')) _

include h in
theorem foldlM_placeAt_eq (start : Int) :
    members.foldlM placeAt start = some (endFrom start members (offsetsFrom start members)) := by
  induction members generalizing start with
  | nil => rfl
  | cons e rest ih =>
    have hplace : placeAt start e = some (alignUp start e.alignment + e.size) := by
      have := h e List.mem_cons_self
      unfold placeAt
      rw [if_neg (by omega)]
    rw [List.foldlM_cons, hplace]
    exact ih (fun e' he' => h e' (List.mem_cons_of_mem _ he')) _

include h in
theorem sizeInOrder_eq :
    sizeInOrder members = .ok (endFrom 0 members (offsetsFrom 0 members)) := by
  unfold sizeInOrder paddedSize
  rw [foldlM_placeAt_eq h]
  rfl

include h in
/-- One after the other, from a start that is no later, no member is at a higher offset than in any
legal placement. -/
theorem Placed.least {start other : Int} {offsets : List Int}
    (hplaced : Placed other members offsets) (hstart : start ≤ other) :
    List.Forall₂ (· ≤ ·) (offsetsFrom start members) offsets ∧
      endFrom start members (offsetsFrom start members) ≤ endFrom other members offsets := by
  induction hplaced generalizing start with
  | nil => exact ⟨.nil, hstart⟩
  | @cons other offset e rest offsets hother haligned _ ih =>
    have hfirst : alignUp start e.alignment ≤ offset :=
      alignUp_le (h e List.mem_cons_self) (by omega) haligned
    have hnext : alignUp start e.alignment + e.size ≤ offset + e.size := by omega
    obtain ⟨hrest, hend⟩ := ih (fun e' he' => h e' (List.mem_cons_of_mem _ he')) hnext
    exact ⟨.cons hfirst hrest, hend⟩

include h in
/-- Before each member less than its alignment is left free. -/
theorem endFrom_bounds (start : Int) :
    start + (members.map (·.size)).sum ≤ endFrom start members (offsetsFrom start members) ∧
      endFrom start members (offsetsFrom start members) ≤
        start + (members.map (·.size)).sum + (members.map (·.alignment - 1)).sum := by
  induction members generalizing start with
  | nil => simp [endFrom]
  | cons e rest ih =>
    have halign := h e List.mem_cons_self
    have hlow := le_alignUp start halign
    have hhigh := alignUp_lt start halign
    obtain ⟨hleast, hmost⟩ := ih (fun e' he' => h e' (List.mem_cons_of_mem _ he'))
      (alignUp start e.alignment + e.size)
    simp only [offsetsFrom, endFrom, List.map_cons, List.sum_cons]
    omega

end

/-- Without some of its members a list that starts no later does not end later. -/
theorem endFrom_le_of_sublist {members others : List Extent} (hsub : members.Sublist others)
    (h : ∀ e ∈ others, e.Positive) {start other : Int} (hstart : start ≤ other) :
    endFrom start members (offsetsFrom start members) ≤
      endFrom other others (offsetsFrom other others) := by
  induction hsub generalizing start other with
  | slnil => exact hstart
  | cons e hsub ih =>
    obtain ⟨hsize, halign⟩ := h e List.mem_cons_self
    have hlater := le_alignUp other halign
    exact ih (fun e' he' => h e' (List.mem_cons_of_mem _ he')) (by omega)
  | cons_cons e hsub ih =>
    obtain ⟨_, halign⟩ := h e List.mem_cons_self
    have hnext := alignUp_mono halign hstart
    exact ih (fun e' he' => h e' (List.mem_cons_of_mem _ he')) (by omega)

/-- Some of the members in their order take no more than all of them. -/
theorem sizeInOrder_le_of_sublist {members others : List Extent} (hsub : members.Sublist others)
    (h : ∀ e ∈ others, e.Positive) {small large : Int} (hsmall : sizeInOrder members = .ok small)
    (hlarge : sizeInOrder others = .ok large) : small ≤ large := by
  rw [sizeInOrder_eq fun e he => (h e (hsub.subset he)).2] at hsmall
  rw [sizeInOrder_eq fun e he => (h e he).2] at hlarge
  cases hsmall
  cases hlarge
  exact endFrom_le_of_sublist hsub h (Int.le_refl 0)

/-! ## The law -/

/-- Members that are placed in their order are placed as tightly as it is legal. When alignments
are positive, there is a legal placement that ends at the padded size, and every legal placement
has each member at the same offset or a higher one, and ends there or later. The padded size is at
least the sum of the sizes, and before each member but the first at most one less than its
alignment is lost. Whatever the numbers are, an alignment of 0 fails, and nothing else does. -/
theorem no_legal_placement_is_tighter (members : List Extent) :
    ((∀ e ∈ members, 1 ≤ e.alignment) → ∃ offsets size,
      sizeInOrder members = .ok size ∧
      Placed 0 members offsets ∧ size = endFrom 0 members offsets ∧
      (∀ others, Placed 0 members others →
        List.Forall₂ (· ≤ ·) offsets others ∧ size ≤ endFrom 0 members others) ∧
      (members.map (·.size)).sum ≤ size ∧
      size ≤ (members.map (·.size)).sum + (members.tail.map (·.alignment - 1)).sum) ∧
    (sizeInOrder members = .error .alignedToZero ↔ ∃ e ∈ members, e.alignment = 0) ∧
    ∀ failure, sizeInOrder members = .error failure → failure = .alignedToZero := by
  refine ⟨fun h => ?_, ?_, ?_⟩
  · refine ⟨offsetsFrom 0 members, _, sizeInOrder_eq h, placed_offsetsFrom h 0, rfl,
      fun others hothers => hothers.least h (Int.le_refl 0), ?_⟩
    cases members with
    | nil => exact ⟨Int.le_refl 0, Int.le_refl 0⟩
    | cons e rest =>
      -- 0 is a multiple of every alignment, so the first member starts there.
      have hfirst : alignUp 0 e.alignment = 0 := by simp [alignUp]
      obtain ⟨hleast, hmost⟩ :=
        endFrom_bounds (fun e' he' => h e' (List.mem_cons_of_mem _ he')) (0 + e.size)
      simp only [offsetsFrom, endFrom, hfirst, List.map_cons, List.sum_cons, List.tail_cons]
      omega
  · unfold sizeInOrder paddedSize
    rw [← foldlM_placeAt_eq_none_iff members 0]
    cases members.foldlM placeAt 0 <;> simp [orFail]
  · intro failure hfailure
    unfold sizeInOrder at hfailure
    cases hsize : paddedSize members with
    | none =>
      rw [hsize] at hfailure
      cases hfailure
      rfl
    | some size =>
      rw [hsize] at hfailure
      cases hfailure

/-- A byte, a word and a half word: wherever they are put, they do not end before offset 10. -/
theorem a_byte_a_word_and_a_half_word_end_at_ten :
    (∃ offsets, Placed 0 [⟨1, 1⟩, ⟨4, 4⟩, ⟨2, 2⟩] offsets ∧
      10 = endFrom 0 [⟨1, 1⟩, ⟨4, 4⟩, ⟨2, 2⟩] offsets) ∧
    ∀ others, Placed 0 [⟨1, 1⟩, ⟨4, 4⟩, ⟨2, 2⟩] others →
      10 ≤ endFrom 0 [⟨1, 1⟩, ⟨4, 4⟩, ⟨2, 2⟩] others := by
  obtain ⟨htight, _⟩ := no_legal_placement_is_tighter [⟨1, 1⟩, ⟨4, 4⟩, ⟨2, 2⟩]
  obtain ⟨offsets, size, hsize, hplaced, hend, hleast, _⟩ := htight (by decide)
  obtain rfl : size = 10 := (Except.ok.inj hsize).symm
  exact ⟨⟨offsets, hplaced, hend⟩, fun others hothers => (hleast others hothers).2⟩

end DataLayout
