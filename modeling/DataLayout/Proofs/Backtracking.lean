-- The law of the orderings. They are those of the positions, each one once and in lexicographic
-- order. Wherever the backtracking goes on to take more, the positions that are taken are those of
-- the elements taken so far, and it comes back with the same ones.
import Mathlib.Data.List.FinRange
import Mathlib.Data.List.Permutation
import DataLayout.Proofs.Orderings

namespace DataLayout

/-! ## Taken positions -/

namespace Backtrack

/-- Two states with the same positions taken and the same elements. -/
structure SameTaken {α : Type} (s other : Backtrack α) : Prop where
  used_eq : s.used = other.used
  current_eq : s.current = other.current

/-- Some positions are the taken ones, each one taken once, and their elements are the current ones
in the order in which they were taken. -/
structure Marks {α : Type} (items : List α) (s : Backtrack α)
    (taken : List (Fin items.length)) : Prop where
  nodup : taken.Nodup
  length_eq : s.used.length = items.length
  isUsed_iff : ∀ i : Fin items.length, s.isUsed i = true ↔ i ∈ taken
  current_eq : s.current.reverse = taken.map items.get

/-- The states in which the backtracking is called, with the number of elements that are missing. It
is called from the start, and from a turn of its own loop at a free position, which it takes. -/
inductive Entered {α : Type} (items : List α) : Nat → Backtrack α → Prop
  | start : Entered items items.length (.start items.length)
  | again {missing i : Nat} {s : Backtrack α} {item : α} {before after : List (α × Nat)}
      (h : Entered items (missing + 1) s) (hplaces : items.zipIdx = before ++ (item, i) :: after)
      (hfree : (before.foldl (turn items missing) s).isUsed i = false) :
      Entered items missing ((before.foldl (turn items missing) s).take i item)

section

variable {α : Type} {items : List α} {n missing : Nat} {s other : Backtrack α}
  {taken : List (Fin items.length)}

theorem SameTaken.trans {last : Backtrack α} (h : s.SameTaken other)
    (hother : other.SameTaken last) : s.SameTaken last :=
  ⟨h.used_eq.trans hother.used_eq, h.current_eq.trans hother.current_eq⟩

theorem fill_sameTaken (h : s.used.length = items.length) : (fill items n s).SameTaken s := by
  rw [fill_eq items n s h]
  exact ⟨rfl, rfl⟩

/-- A free position that is taken and given back is free again. -/
theorem SameTaken.giveBack {i : Nat} {item : α} (h : other.SameTaken (s.take i item))
    (hfree : s.isUsed i = false) : (other.giveBack i).SameTaken s := by
  constructor
  · have hsame : s.used.set i false = s.used := by
      by_cases hi : i < s.used.length
      · have hfalse : s.used[i] = false := by simpa [isUsed, hi] using hfree
        conv_rhs => rw [← List.set_getElem_self hi, hfalse]
      · exact List.set_eq_of_length_le (by omega)
    calc other.used.set i false = (s.used.set i true).set i false := by rw [h.used_eq]; rfl
      _ = s.used := by rw [List.set_set, hsame]
  · calc other.current.tail = (item :: s.current).tail := by rw [h.current_eq]; rfl
      _ = s.current := rfl

/-- One turn comes back with what was taken before it. -/
theorem turn_sameTaken (h : s.used.length = items.length) (place : α × Nat) :
    (turn items n s place).SameTaken s := by
  by_cases hused : s.isUsed place.2 = true
  · rw [turn, if_pos hused]
    exact ⟨rfl, rfl⟩
  · rw [turn, if_neg hused]
    have hlength : (s.take place.2 place.1).used.length = items.length := by simpa [take] using h
    exact (fill_sameTaken hlength).giveBack (Bool.eq_false_iff.mpr hused)

/-- So do any turns of the loop. -/
theorem foldl_turn_sameTaken (h : s.used.length = items.length) (places : List (α × Nat)) :
    (places.foldl (turn items n) s).SameTaken s := by
  induction places generalizing s with
  | nil => exact ⟨rfl, rfl⟩
  | cons place rest ih =>
    have hturn := turn_sameTaken (n := n) h place
    exact (ih (hturn.used_eq ▸ h)).trans hturn

theorem Marks.of_sameTaken (h : Marks items s taken) (hsame : other.SameTaken s) :
    Marks items other taken := by
  refine ⟨h.nodup, hsame.used_eq ▸ h.length_eq, fun i => ?_, hsame.current_eq ▸ h.current_eq⟩
  rw [isUsed, hsame.used_eq]
  exact h.isUsed_iff i

theorem marks_start : Marks items (.start items.length) [] where
  nodup := List.nodup_nil
  length_eq := List.length_replicate
  isUsed_iff := fun i => by simp [isUsed, start]
  current_eq := rfl

theorem isUsed_take {i j : Nat} {item : α} (hj : j < s.used.length) :
    (s.take i item).isUsed j = true ↔ j = i ∨ s.isUsed j = true := by
  simp only [isUsed, Backtrack.take, List.getD_eq_getElem?_getD]
  by_cases hij : j = i
  · subst hij
    simp [hj]
  · rw [List.getElem?_set_ne (Ne.symm hij)]
    simp [hij]

/-- Where a free position is taken, it is one more taken position. -/
theorem Marks.take (h : Marks items s taken) {i : Fin items.length} (hfree : s.isUsed i = false) :
    Marks items (s.take i (items.get i)) (taken ++ [i]) where
  nodup := by
    refine List.nodup_append.mpr ⟨h.nodup, List.nodup_singleton i, fun a ha b hb heq => ?_⟩
    rw [heq, List.mem_singleton.mp hb, ← h.isUsed_iff, hfree] at ha
    cases ha
  length_eq := by simpa [Backtrack.take] using h.length_eq
  isUsed_iff := fun j => by
    rw [isUsed_take (h.length_eq.symm ▸ j.isLt), h.isUsed_iff, List.mem_append,
      List.mem_singleton, Fin.ext_iff, Or.comm]
  current_eq := by
    simp [Backtrack.take, h.current_eq]

/-- In every call the taken positions are marked, and those that are not taken are missing. -/
theorem Entered.exists_marks (h : Entered items missing s) :
    ∃ taken, Marks items s taken ∧ missing + taken.length = items.length := by
  induction h with
  | start => exact ⟨[], marks_start, rfl⟩
  | @again missing i s item before after _ hplaces hfree ih =>
    obtain ⟨taken, hmarks, hcount⟩ := ih
    have hmem : (item, i) ∈ items.zipIdx := by simp [hplaces]
    obtain ⟨hi, rfl⟩ := List.getElem?_eq_some_iff.mp (List.mk_mem_zipIdx_iff_getElem?.mp hmem)
    -- The turns before this one gave back what they took, so the invariant of the call still holds.
    have hloop := hmarks.of_sameTaken (foldl_turn_sameTaken (n := missing) hmarks.length_eq before)
    refine ⟨taken ++ [⟨i, hi⟩], hloop.take (i := ⟨i, hi⟩) hfree, ?_⟩
    rw [List.length_append, List.length_singleton]
    omega

end

end Backtrack

/-! ## Orders of positions -/

section

variable {α : Type} (items : List α)

/-- The orderings of some elements are read through the orderings of their positions. -/
theorem orderings_eq_map_get :
    orderings items = (orderings (List.finRange items.length)).map (·.map items.get) := by
  rw [← orderings_map, List.map_get_finRange]

variable {items} (h : items ≠ [])

include h in
theorem mem_orderings_finRange_iff (order : List (Fin items.length)) :
    order ∈ orderings (List.finRange items.length) ↔ order.Perm (List.finRange items.length) := by
  refine mem_orderings_iff ?_ order
  rwa [Ne, List.finRange_eq_nil_iff, List.length_eq_zero_iff]

theorem pairwise_lex_orderings_finRange (n : Nat) :
    (orderings (List.finRange n)).Pairwise (List.Lex (· < ·)) :=
  pairwise_lex_orderings (List.pairwise_lt_finRange n)

/-- No order of positions comes twice, since each one is behind those before it. -/
theorem nodup_orderings_finRange (n : Nat) : (orderings (List.finRange n)).Nodup :=
  (pairwise_lex_orderings_finRange n).imp fun hlex heq => by
    subst heq
    exact List.lex_irrefl (fun i => lt_irrefl i) _ hlex

include h in
/-- The orderings of the positions are all their permutations. -/
theorem orderings_finRange_perm :
    (orderings (List.finRange items.length)).Perm (List.finRange items.length).permutations := by
  refine (List.perm_ext_iff_of_nodup (nodup_orderings_finRange _) ?_).mpr fun order => ?_
  · exact List.nodup_permutations _ (List.nodup_finRange _)
  · rw [mem_orderings_finRange_iff h, List.mem_permutations]

end

/-! ## The law -/

open Backtrack

/-- The orderings of at least one element are read through all orders of the positions, in
lexicographic order and each one once, so there are `n!` of them. A list is among them as often as
orders of the positions give it. Nothing has no ordering. Whenever the backtracking is called, some
positions are taken and the others are missing, just these are marked, their elements are the
current ones, and all this is the same when the call ends. -/
theorem orderings_go_through_all_orders_of_positions {α : Type} [DecidableEq α] (items : List α) :
    orderings ([] : List α) = [] ∧
      (items ≠ [] →
        (orderings items).length = items.length.factorial ∧
        (∃ orders : List (List (Fin items.length)),
          orderings items = orders.map (·.map items.get) ∧
          orders.Pairwise (List.Lex (· < ·)) ∧ orders.Nodup ∧
          ∀ order, order ∈ orders ↔ order.Perm (List.finRange items.length)) ∧
        ∀ order, (orderings items).count order =
          (List.finRange items.length).permutations.countP fun positions =>
            positions.map items.get = order) ∧
      ∀ missing s, Entered items missing s → ∃ taken,
        missing + taken.length = items.length ∧ Marks items s taken ∧
        Marks items (fill items missing s) taken ∧ (fill items missing s).SameTaken s := by
  refine ⟨orderings_nil, fun h => ⟨?_, ?_, fun order => ?_⟩, fun missing s hentered => ?_⟩
  · rw [orderings_eq_map_get, List.length_map, (orderings_finRange_perm h).length_eq,
      List.length_permutations, List.length_finRange]
  · exact ⟨_, orderings_eq_map_get items, pairwise_lex_orderings_finRange _,
      nodup_orderings_finRange _, mem_orderings_finRange_iff h⟩
  · rw [orderings_eq_map_get, List.count_eq_countP, List.countP_map,
      (orderings_finRange_perm h).countP_eq]
    exact List.countP_congr fun positions _ => by simp
  · obtain ⟨taken, hmarks, hcount⟩ := hentered.exists_marks
    have hsame := fill_sameTaken (n := missing) hmarks.length_eq
    exact ⟨taken, hcount, hmarks, hmarks.of_sameTaken hsame, hsame⟩

/-- Two equal elements and another one have six orderings. Two orders of the positions give the
list itself. When the first element is taken, its position is marked. -/
theorem two_equal_elements_and_another_have_six_orderings :
    (orderings ["x", "x", "y"]).length = 6 ∧
      ((List.finRange 3).permutations.countP fun positions =>
        positions.map ["x", "x", "y"].get = ["x", "x", "y"]) = 2 ∧
      ∃ taken, Marks ["x", "x", "y"] ((start 3).take 0 "x") taken ∧ taken.length = 1 := by
  obtain ⟨_, hlaws, hcalls⟩ := orderings_go_through_all_orders_of_positions ["x", "x", "y"]
  obtain ⟨hlength, _, hcount⟩ := hlaws (by decide)
  have hcalled : Entered ["x", "x", "y"] 2 ((start 3).take 0 "x") :=
    @Entered.again _ _ 2 0 (start 3) "x" [] [("x", 1), ("y", 2)] .start rfl rfl
  obtain ⟨taken, hmissing, hmarks, _⟩ := hcalls 2 _ hcalled
  have hthree : 2 + taken.length = 3 := hmissing
  exact ⟨hlength, (hcount ["x", "x", "y"]).symm.trans (by decide), taken, hmarks, by omega⟩

end DataLayout
