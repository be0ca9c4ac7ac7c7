-- The laws of the orderings of a list. The backtracking finds exactly the arrangements by
-- choice, in their order, and leaves everything else of its state as it was. Each ordering
-- takes every element once, each way to do so is found, and the list itself comes first.
import Mathlib.Data.List.Basic
import DataLayout.Orderings

namespace DataLayout

/-! ## Choices -/

section

variable {α β : Type}

/-- A chosen element and what is left are the whole list again. -/
theorem perm_of_mem_choices {items left : List α} {a : α} (h : (a, left) ∈ choices items) :
    (a :: left).Perm items := by
  induction items generalizing left with
  | nil => cases h
  | cons b rest ih =>
    simp only [choices, List.mem_cons, List.mem_map, Prod.mk.injEq] at h
    rcases h with ⟨rfl, rfl⟩ | ⟨⟨c, others⟩, hmem, rfl, rfl⟩
    · exact List.Perm.refl _
    · exact (List.Perm.swap b c others).trans ((ih hmem).cons b)

/-- Choosing looks at positions only, so it commutes with any change of the elements. -/
theorem choices_map (f : α → β) (items : List α) :
    choices (items.map f) = (choices items).map fun (a, left) => (f a, left.map f) := by
  induction items with
  | nil => rfl
  | cons a rest ih => simp [choices, ih, Function.comp_def]

theorem map_fst_choices (items : List α) : (choices items).map (·.1) = items := by
  induction items with
  | nil => rfl
  | cons a rest ih => simpa [choices, Function.comp_def] using ih

theorem sublist_of_mem_choices {items left : List α} {a : α} (h : (a, left) ∈ choices items) :
    left.Sublist items := by
  induction items generalizing left with
  | nil => cases h
  | cons b rest ih =>
    simp only [choices, List.mem_cons, List.mem_map, Prod.mk.injEq] at h
    rcases h with ⟨rfl, rfl⟩ | ⟨⟨c, others⟩, hmem, rfl, rfl⟩
    · exact List.sublist_cons_self _ _
    · exact (ih hmem).cons_cons b

/-- Whatever stands first in an ordering of a list can be chosen, and the rest is an ordering of
what is left. -/
theorem exists_mem_choices_of_perm {items rest : List α} {a : α} (h : (a :: rest).Perm items) :
    ∃ left, (a, left) ∈ choices items ∧ rest.Perm left := by
  have ha : a ∈ (choices items).map (·.1) := by
    rw [map_fst_choices]
    exact h.mem_iff.mp List.mem_cons_self
  obtain ⟨⟨b, left⟩, hmem, rfl⟩ := List.mem_map.mp ha
  exact ⟨left, hmem, (h.trans (perm_of_mem_choices hmem).symm).cons_inv⟩

/-! ## Arrangements -/

theorem perm_of_mem_arrangements {items order : List α}
    (h : order ∈ arrangements items.length items) : order.Perm items := by
  generalize hn : items.length = n at h
  induction n generalizing items order with
  | zero =>
    rw [List.length_eq_zero_iff.mp hn]
    simp only [arrangements, List.mem_singleton] at h
    rw [h]
  | succ n ih =>
    simp only [arrangements, List.mem_flatMap, List.mem_map] at h
    obtain ⟨⟨a, left⟩, hchoice, others, hothers, rfl⟩ := h
    have hperm := perm_of_mem_choices hchoice
    have hlen := hperm.length_eq
    have hleft : left.length = n := by
      simp only [List.length_cons] at hlen
      omega
    exact ((ih hleft hothers).cons a).trans hperm

theorem arrangements_map (f : α → β) (n : Nat) (items : List α) :
    arrangements n (items.map f) = (arrangements n items).map (List.map f) := by
  induction n generalizing items with
  | zero => rfl
  | succ n ih =>
    simp only [arrangements, choices_map, List.flatMap_map, List.map_flatMap, ih, List.map_map]
    rfl

/-- The first arrangement of a list is the list itself. -/
theorem arrangements_eq_cons (items : List α) :
    ∃ others, arrangements items.length items = items :: others := by
  induction items with
  | nil => exact ⟨[], rfl⟩
  | cons a rest ih =>
    obtain ⟨others, hothers⟩ := ih
    simp [arrangements, choices, hothers]

/-- Every ordering of a list is one of its arrangements. -/
theorem mem_arrangements_of_perm {items order : List α} (h : order.Perm items) :
    order ∈ arrangements items.length items := by
  induction order generalizing items with
  | nil =>
    rw [List.nil_perm.mp h]
    exact List.mem_cons_self
  | cons a rest ih =>
    obtain ⟨left, hmem, hrest⟩ := exists_mem_choices_of_perm h
    rw [← h.length_eq, List.length_cons, hrest.length_eq]
    simp only [arrangements, List.mem_flatMap, List.mem_map]
    exact ⟨(a, left), hmem, rest, ih hrest, rfl⟩

/-- The arrangements of an increasing list come in lexicographic order. -/
theorem pairwise_lex_arrangements [LT α] (n : Nat) {items : List α}
    (h : items.Pairwise (· < ·)) : (arrangements n items).Pairwise (List.Lex (· < ·)) := by
  induction n generalizing items with
  | zero => exact List.pairwise_singleton _ _
  | succ n ih =>
    simp only [arrangements]
    rw [List.pairwise_flatMap]
    constructor
    · rintro ⟨a, left⟩ hmem
      rw [List.pairwise_map]
      exact (ih (h.sublist (sublist_of_mem_choices hmem))).imp fun hlex => .cons hlex
    · have hfirsts : ((choices items).map (·.1)).Pairwise (· < ·) := by
        rw [map_fst_choices]
        exact h
      rw [List.pairwise_map] at hfirsts
      refine hfirsts.imp fun hlt order horder other hother => ?_
      obtain ⟨rest, _, rfl⟩ := List.mem_map.mp horder
      obtain ⟨rest', _, rfl⟩ := List.mem_map.mp hother
      exact .rel hlt

/-! ## The state of the backtracking -/

/-- The elements whose positions are not taken. -/
def freeOf : List α → List Bool → List α
  | a :: rest, u :: us => if u then freeOf rest us else a :: freeOf rest us
  | _, _ => []

theorem freeOf_append {before after : List α} {us vs : List Bool}
    (h : us.length = before.length) :
    freeOf (before ++ after) (us ++ vs) = freeOf before us ++ freeOf after vs := by
  induction before generalizing us with
  | nil =>
    rw [List.length_eq_zero_iff.mp h]
    rfl
  | cons a rest ih =>
    cases us with
    | nil => simp at h
    | cons u us =>
      have hrest := @ih us (by simpa using h)
      cases u <;> simp [freeOf, hrest]

theorem freeOf_replicate_false (items : List α) :
    freeOf items (List.replicate items.length false) = items := by
  induction items with
  | nil => rfl
  | cons a rest ih => simp [freeOf, List.replicate_succ, ih]

namespace Backtrack

/-- More findings, the last one first. -/
def addFound (s : Backtrack α) (orders : List (List α)) : Backtrack α :=
  { s with found := orders.reverse ++ s.found }

/-- One turn of the loop over positions. -/
def turn (items : List α) (n : Nat) (s : Backtrack α) (place : α × Nat) : Backtrack α :=
  if s.isUsed place.2 then s else (fill items n (s.take place.2 place.1)).giveBack place.2

/-- The orderings that start with what is taken and go on with one chosen element. -/
def continuations (n : Nat) (taken skipped free : List α) : List (List α) :=
  (choices free).flatMap fun (a, left) =>
    (arrangements n (skipped ++ left)).map fun order => taken ++ a :: order

theorem fill_succ (items : List α) (n : Nat) (s : Backtrack α) :
    fill items (n + 1) s = items.zipIdx.foldl (turn items n) s := rfl

/-- The loop over the positions behind `before`, when filling `n` more elements only adds
findings. -/
theorem foldl_turn (items : List α) (n : Nat)
    (hfill : ∀ s : Backtrack α, s.used.length = items.length → fill items n s =
      s.addFound ((arrangements n (freeOf items s.used)).map (s.current.reverse ++ ·)))
    (before after : List α) (us vs : List Bool) (s : Backtrack α)
    (hitems : items = before ++ after) (hused : s.used = us ++ vs)
    (hus : us.length = before.length) (hvs : vs.length = after.length) :
    (after.zipIdx before.length).foldl (turn items n) s =
      s.addFound (continuations n s.current.reverse (freeOf before us) (freeOf after vs)) := by
  induction after generalizing before us vs s with
  | nil => simp [continuations, freeOf, choices, addFound]
  | cons a rest ih =>
    cases vs with
    | nil => simp at hvs
    | cons v vs =>
      have hnext := fun (s' : Backtrack α) (h : s'.used = (us ++ [v]) ++ vs) =>
        ih (before ++ [a]) (us ++ [v]) vs s' (by simp [hitems]) h (by simp [hus])
          (by simpa using hvs)
      have hisUsed : s.isUsed before.length = v := by
        simp [isUsed, hused, ← hus]
      simp only [List.zipIdx_cons, List.foldl_cons]
      cases v with
      | true =>
        have hturn : turn items n s (a, before.length) = s := by
          simp [turn, hisUsed]
        have hskip : freeOf (before ++ [a]) (us ++ [true]) = freeOf before us := by
          rw [freeOf_append hus]
          simp [freeOf]
        have hrest := hnext s (by simp [hused])
        rw [hskip] at hrest
        rw [hturn]
        simpa [freeOf] using hrest
      | false =>
        -- Position `before.length` is taken, the rest is filled, and the position is free again.
        have htaken : (s.take before.length a).used = us ++ true :: vs := by
          simp [take, hused, ← hus]
        have hfree : freeOf items (us ++ true :: vs) = freeOf before us ++ freeOf rest vs := by
          rw [hitems, freeOf_append hus]
          simp [freeOf]
        have hturn : turn items n s (a, before.length) =
            s.addFound ((arrangements n (freeOf before us ++ freeOf rest vs)).map
              fun order => s.current.reverse ++ a :: order) := by
          have hlen : (s.take before.length a).used.length = items.length := by
            rw [htaken, hitems]
            simp [hus, ← hvs]
          simp only [turn, hisUsed, Bool.false_eq_true, if_false]
          rw [hfill _ hlen, htaken, hfree]
          simp [addFound, giveBack, take, hused, ← hus]
        have hkeep : freeOf (before ++ [a]) (us ++ [false]) = freeOf before us ++ [a] := by
          rw [freeOf_append hus]
          simp [freeOf]
        rw [hturn]
        have hrest := hnext (s.addFound ((arrangements n (freeOf before us ++ freeOf rest vs)).map
          fun order => s.current.reverse ++ a :: order)) (by simp [addFound, hused])
        rw [hkeep] at hrest
        rw [show (before ++ [a]).length = before.length + 1 by simp] at hrest
        rw [hrest]
        simp [continuations, addFound, freeOf, choices, List.flatMap_map]

/-- Filling adds the arrangements of the free elements to the findings and gives back every
position that it took. -/
theorem fill_eq (items : List α) (n : Nat) (s : Backtrack α)
    (h : s.used.length = items.length) :
    fill items n s =
      s.addFound ((arrangements n (freeOf items s.used)).map (s.current.reverse ++ ·)) := by
  induction n generalizing s with
  | zero => simp [fill, record, addFound, arrangements]
  | succ n ih =>
    have hloop := foldl_turn items n ih [] items [] s.used s rfl rfl rfl h
    rw [fill_succ]
    refine hloop.trans ?_
    simp [continuations, arrangements, freeOf, List.map_flatMap, Function.comp_def]

end Backtrack

/-! ## Orderings -/

/-- The backtracking finds the arrangements by choice, in their order. -/
theorem orderings_eq_arrangements {items : List α} (h : items ≠ []) :
    orderings items = arrangements items.length items := by
  unfold orderings
  rw [if_neg (by simpa using h), Backtrack.fill_eq _ _ _ (by simp [Backtrack.start])]
  simp [Backtrack.addFound, Backtrack.start, freeOf_replicate_false]

theorem orderings_nil : orderings ([] : List α) = [] := rfl

theorem perm_of_mem_orderings {items order : List α} (h : order ∈ orderings items) :
    order.Perm items := by
  by_cases hitems : items = []
  · subst hitems
    rw [orderings_nil] at h
    cases h
  · rw [orderings_eq_arrangements hitems] at h
    exact perm_of_mem_arrangements h

/-- The first ordering of some items is their own order. -/
theorem orderings_eq_cons {items : List α} (h : items ≠ []) :
    ∃ others, orderings items = items :: others := by
  rw [orderings_eq_arrangements h]
  exact arrangements_eq_cons items

theorem orderings_map (f : α → β) (items : List α) :
    orderings (items.map f) = (orderings items).map (List.map f) := by
  by_cases hitems : items = []
  · subst hitems
    rw [List.map_nil, orderings_nil, orderings_nil, List.map_nil]
  · rw [orderings_eq_arrangements hitems,
      orderings_eq_arrangements (by simpa using hitems), List.length_map, arrangements_map]

/-- The orderings of some items are exactly the lists with the same elements. -/
theorem mem_orderings_iff {items : List α} (h : items ≠ []) (order : List α) :
    order ∈ orderings items ↔ order.Perm items := by
  refine ⟨perm_of_mem_orderings, fun hperm => ?_⟩
  rw [orderings_eq_arrangements h]
  exact mem_arrangements_of_perm hperm

theorem pairwise_lex_orderings [LT α] {items : List α} (h : items.Pairwise (· < ·)) :
    (orderings items).Pairwise (List.Lex (· < ·)) := by
  by_cases hitems : items = []
  · subst hitems
    exact List.Pairwise.nil
  · rw [orderings_eq_arrangements hitems]
    exact pairwise_lex_arrangements _ h
end

end DataLayout
