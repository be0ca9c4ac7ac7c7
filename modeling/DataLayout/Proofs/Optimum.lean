-- The law of the best ordering. The search tries the orderings in the lexicographic order of
-- their positions and keeps the first of the smallest, so no ordering of the members is smaller,
-- and none that is as small comes before it.
import Mathlib.Data.List.FinRange
import Mathlib.Order.Bounds.Basic
import DataLayout.Proofs.Prediction

namespace DataLayout

open Text

/-! ## The first of the smallest -/

/-- None of some orderings takes less than a size. -/
def NoneSmaller (size : Int) (orders : List (List Member)) : Prop :=
  ∀ order ∈ orders, ∀ other, sizeInOrder (order.map (·.extent)) = .ok other → size ≤ other

theorem NoneSmaller.append {size : Int} {orders others : List (List Member)}
    (h : NoneSmaller size orders) (hothers : NoneSmaller size others) :
    NoneSmaller size (orders ++ others) := by
  intro order horder
  rcases List.mem_append.mp horder with hmem | hmem
  · exact h order hmem
  · exact hothers order hmem

theorem NoneSmaller.mono {size less : Int} {orders : List (List Member)}
    (h : NoneSmaller size orders) (hless : less ≤ size) : NoneSmaller less orders :=
  fun order horder other hother => Int.le_trans hless (h order horder other hother)

/-- Among some orderings, one is smaller than all before it and no larger than those behind it. -/
def FirstSmallest (orders : List (List Member)) (best : Ordered) : Prop :=
  ∃ before after, orders = before ++ best.members :: after ∧
    sizeInOrder (best.members.map (·.extent)) = .ok best.size ∧
    NoneSmaller (best.size + 1) before ∧ NoneSmaller best.size after

theorem noneSmaller_singleton {size : Int} {order : List Member}
    (h : sizeInOrder (order.map (·.extent)) = .ok size) : NoneSmaller size [order] := by
  intro other hother otherSize hotherSize
  rw [List.mem_singleton.mp hother, h] at hotherSize
  cases hotherSize
  exact Int.le_refl size

theorem FirstSmallest.noneSmaller {orders : List (List Member)} {best : Ordered}
    (h : FirstSmallest orders best) : NoneSmaller best.size orders := by
  obtain ⟨before, after, rfl, hsize, hbefore, hafter⟩ := h
  rw [List.append_cons]
  exact ((hbefore.mono (by omega)).append (noneSmaller_singleton hsize)).append hafter

theorem firstSmallest_of_first {order : List Member} {next : Option Ordered}
    (h : keepSmaller none order = .ok next) : ∃ best, next = some best ∧
      FirstSmallest [order] best := by
  obtain ⟨size, hsize, h⟩ := bind_eq_ok_iff.mp h
  cases h
  have hnone : ∀ size, NoneSmaller size [] := fun _ _ hmem => by cases hmem
  exact ⟨⟨order, size⟩, rfl, [], [], rfl, hsize, hnone _, hnone _⟩

/-- One more ordering: a smaller one takes the lead, and any other one comes behind it. -/
theorem FirstSmallest.keepSmaller {orders : List (List Member)} {best : Ordered}
    (h : FirstSmallest orders best) {order : List Member} {next : Option Ordered}
    (hnext : keepSmaller (some best) order = .ok next) : ∃ best', next = some best' ∧
      FirstSmallest (orders ++ [order]) best' := by
  obtain ⟨size, hsize, hnext⟩ := bind_eq_ok_iff.mp hnext
  cases hnext
  by_cases hsmaller : size < best.size
  · refine ⟨⟨order, size⟩, if_pos hsmaller, orders, [], rfl, hsize,
      h.noneSmaller.mono hsmaller, ?_⟩
    intro _ hmem
    cases hmem
  · obtain ⟨before, after, rfl, hbest, hbefore, hafter⟩ := h
    refine ⟨best, if_neg hsmaller, before, after ++ [order], ?_, hbest, hbefore, ?_⟩
    · simp
    · exact hafter.append ((noneSmaller_singleton hsize).mono (by omega))

theorem FirstSmallest.foldlM {orders : List (List Member)} {best : Ordered}
    (h : FirstSmallest orders best) {rest : List (List Member)} {found : Option Ordered}
    (hfound : rest.foldlM DataLayout.keepSmaller (some best) = .ok found) :
    ∃ best', found = some best' ∧ FirstSmallest (orders ++ rest) best' := by
  induction rest generalizing orders best with
  | nil =>
    cases hfound
    exact ⟨best, rfl, by rwa [List.append_nil]⟩
  | cons order rest ih =>
    rw [List.foldlM_cons] at hfound
    obtain ⟨next, hnext, hrest⟩ := bind_eq_ok_iff.mp hfound
    obtain ⟨best', rfl, hbest'⟩ := h.keepSmaller hnext
    rw [List.append_cons]
    exact ih hbest' hrest

/-- The search finds the first of the smallest orderings. -/
theorem firstSmallest_of_bestOrdering {members : List Member} {best : Ordered}
    (h : bestOrdering members = .ok best) : FirstSmallest (orderings members) best := by
  obtain ⟨found, hfold, hfound⟩ := bind_eq_ok_iff.mp h
  rw [orFail_eq_ok_iff.mp hfound] at hfold
  cases horders : orderings members with
  | nil =>
    rw [horders] at hfold
    cases hfold
  | cons order rest =>
    rw [horders, List.foldlM_cons] at hfold
    obtain ⟨next, hnext, hrest⟩ := bind_eq_ok_iff.mp hfold
    obtain ⟨first, rfl, hfirst⟩ := firstSmallest_of_first hnext
    obtain ⟨_, heq, hbest⟩ := hfirst.foldlM hrest
    cases heq
    exact hbest

/-- What comes first and is no larger than the first of the smallest is the first of the smallest. -/
theorem FirstSmallest.eq_head {order : List Member} {rest : List (List Member)} {best : Ordered}
    (h : FirstSmallest (order :: rest) best) {size : Int}
    (hsize : sizeInOrder (order.map (·.extent)) = .ok size) (hle : size ≤ best.size) :
    best = ⟨order, size⟩ := by
  obtain ⟨before, after, horders, hbest, hbefore, _⟩ := h
  cases before with
  | nil =>
    obtain ⟨members, bestSize⟩ := best
    obtain ⟨rfl, _⟩ := List.cons.inj horders
    rw [hsize] at hbest
    cases hbest
    rfl
  | cons first before =>
    obtain ⟨rfl, _⟩ := List.cons.inj horders
    have hless := hbefore order List.mem_cons_self size hsize
    omega

/-- Searched again in the order that was found, the members keep it. -/
theorem bestOrdering_again {members : List Member} {best : Ordered}
    (h : bestOrdering members = .ok best) (hpos : ∀ m ∈ members, m.extent.Positive)
    (hmembers : members ≠ []) : bestOrdering best.members = .ok best := by
  obtain ⟨hmem, hsize⟩ := bestOrdering_mem h
  have hperm := perm_of_mem_orderings hmem
  have hne : best.members ≠ [] := fun hnil => hmembers (List.nil_perm.mp (hnil ▸ hperm))
  obtain ⟨again, hagain⟩ := bestOrdering_of_positive hne fun m hm => hpos m (hperm.mem_iff.mp hm)
  obtain ⟨others, horders⟩ := orderings_eq_cons hne
  have hfirst := firstSmallest_of_bestOrdering hagain
  rw [horders] at hfirst
  -- Whatever is found now is an ordering of the first members too, so it is no smaller.
  have hleast : best.size ≤ again.size :=
    (firstSmallest_of_bestOrdering h).noneSmaller again.members
      ((mem_orderings_iff hmembers _).mpr ((bestOrdering_perm hagain).trans hperm)) again.size
      (bestOrdering_mem hagain).2
  rw [hagain, hfirst.eq_head hsize hleast]

/-! ## Positions -/

/-- The names of a struct in the order of some positions. -/
def namesAt (names : List String) (positions : List (Fin names.length)) : List String :=
  positions.map names.get

/-- Some positions are an ordering of a struct whose padded size is the given one. No ordering
of the positions takes less, and each one that takes as much comes behind it in lexicographic
order. -/
structure BestPositions (taken : String → Extent) (names : List String) (size : Int)
    (positions : List (Fin names.length)) : Prop where
  perm : positions.Perm (List.finRange names.length)
  size_eq : paddedSize ((namesAt names positions).map taken) = some size
  least : ∀ other : List (Fin names.length), other.Perm (List.finRange names.length) →
    ∃ otherSize, paddedSize ((namesAt names other).map taken) = some otherSize ∧
      size ≤ otherSize ∧
      (otherSize = size → positions = other ∨ List.Lex (· < ·) positions other)

/-- The orderings of named members are those of their positions. -/
theorem orderings_members (taken : String → Extent) (names : List String) :
    orderings (names.map fun n => (⟨n, taken n⟩ : Member)) =
      (orderings (List.finRange names.length)).map fun positions =>
        (namesAt names positions).map fun n => ⟨n, taken n⟩ := by
  have hnames : names.map (fun n => (⟨n, taken n⟩ : Member)) =
      (List.finRange names.length).map fun i => ⟨names.get i, taken (names.get i)⟩ := by
    conv_lhs => rw [← List.map_get_finRange names]
    rw [List.map_map]
    rfl
  rw [hnames, orderings_map]
  simp [namesAt, Function.comp_def]

theorem sizeInOrder_eq_ok_iff {extents : List Extent} {size : Int} :
    sizeInOrder extents = .ok size ↔ paddedSize extents = some size := orFail_eq_ok_iff

/-- The search among members with positive extents finds the best positions. -/
theorem bestPositions_of_bestOrdering {taken : String → Extent} {names : List String}
    (hnames : names ≠ []) (hpos : ∀ n ∈ names, (taken n).Positive) {best : Ordered}
    (h : bestOrdering (names.map fun n => ⟨n, taken n⟩) = .ok best) :
    ∃ positions, BestPositions taken names best.size positions ∧
      best.members.map (·.name) = namesAt names positions := by
  obtain ⟨before, after, horders, hsize, hbefore, hafter⟩ := firstSmallest_of_bestOrdering h
  rw [orderings_members] at horders
  obtain ⟨earlier, others, hsplit, rfl, hothers⟩ := List.map_eq_append_iff.mp horders
  obtain ⟨positions, later, rfl, hbest, rfl⟩ := List.map_eq_cons_iff.mp hothers
  have hrange : List.finRange names.length ≠ [] := by
    rw [Ne, List.finRange_eq_nil_iff, List.length_eq_zero_iff]
    exact hnames
  have hmem : ∀ other, other ∈ earlier ++ positions :: later ↔
      other.Perm (List.finRange names.length) := by
    intro other
    rw [← hsplit]
    exact mem_orderings_iff hrange other
  have hextents : ∀ other : List (Fin names.length),
      ((namesAt names other).map fun n => (⟨n, taken n⟩ : Member)).map (·.extent) =
        (namesAt names other).map taken := fun other => by simp
  have hlex := pairwise_lex_orderings (List.pairwise_lt_finRange names.length)
  rw [hsplit, List.pairwise_append, List.pairwise_cons] at hlex
  obtain ⟨_, ⟨hlater, _⟩, _⟩ := hlex
  refine ⟨positions, ⟨?_, ?_, ?_⟩, ?_⟩
  · exact (hmem positions).mp (List.mem_append_right _ List.mem_cons_self)
  · rw [← hbest, hextents] at hsize
    exact sizeInOrder_eq_ok_iff.mp hsize
  · intro other hother
    have hpositive : ∀ e ∈ (namesAt names other).map taken, e.Positive := by
      refine List.forall_mem_map.mpr fun n hn => hpos n ?_
      obtain ⟨i, _, rfl⟩ := List.mem_map.mp hn
      exact names.get_mem i
    obtain ⟨otherSize, hotherSize, _⟩ := sizeInOrder_of_positive hpositive
    refine ⟨otherSize, sizeInOrder_eq_ok_iff.mp hotherSize, ?_⟩
    rw [← hextents] at hotherSize
    rcases List.mem_append.mp ((hmem other).mpr hother) with hearlier | hrest
    · have := hbefore _ (List.mem_map.mpr ⟨other, hearlier, rfl⟩) otherSize hotherSize
      exact ⟨by omega, fun hsame => absurd hsame (by omega)⟩
    · rcases List.mem_cons.mp hrest with rfl | hmem
      · rw [hbest, hsize] at hotherSize
        cases hotherSize
        exact ⟨Int.le_refl _, fun _ => Or.inl rfl⟩
      · exact ⟨hafter _ (List.mem_map.mpr ⟨other, hmem, rfl⟩) otherSize hotherSize,
          fun _ => Or.inr (hlater other hmem)⟩
  · rw [← hbest, List.map_map]
    exact List.map_id _

/-! ## Sizes of orderings -/

/-- The padded sizes of all orderings of some names. -/
def orderedSizes (taken : String → Extent) (names : List String) : Set Int :=
  {size | ∃ order : List String, order.Perm names ∧ sizeInOrder (order.map taken) = .ok size}

/-- An ordering of named members is settled by the order of their names. -/
theorem map_name_of_perm {taken : String → Extent} {names : List String} {members : List Member}
    (h : members.Perm (names.map fun n => ⟨n, taken n⟩)) :
    (members.map (·.name)).map (fun n => (⟨n, taken n⟩ : Member)) = members := by
  rw [List.map_map]
  conv_rhs => rw [← List.map_id members]
  refine List.map_congr_left fun m hm => ?_
  obtain ⟨n, _, rfl⟩ := List.mem_map.mp (h.mem_iff.mp hm)
  rfl

/-- The search finds an ordering of the names whose padded size is the least one. -/
theorem isLeast_of_bestOrdering {taken : String → Extent} {names : List String} {best : Ordered}
    (hnames : names ≠ []) (h : bestOrdering (names.map fun n => ⟨n, taken n⟩) = .ok best) :
    sizeInOrder ((best.members.map (·.name)).map taken) = .ok best.size ∧
      IsLeast (orderedSizes taken names) best.size := by
  have hperm := bestOrdering_perm h
  have hextents : (best.members.map (·.name)).map taken = best.members.map (·.extent) := by
    conv_rhs => rw [← map_name_of_perm hperm, List.map_map]
    rfl
  have hsize : sizeInOrder ((best.members.map (·.name)).map taken) = .ok best.size := by
    rw [hextents]
    exact (bestOrdering_mem h).2
  have hnamed : (best.members.map (·.name)).Perm names := by
    have hmap := hperm.map (·.name)
    rwa [List.map_map, Function.comp_def, List.map_id'] at hmap
  refine ⟨hsize, ⟨_, hnamed, hsize⟩, ?_⟩
  rintro size ⟨order, horder, hother⟩
  refine (firstSmallest_of_bestOrdering h).noneSmaller (order.map fun n => ⟨n, taken n⟩) ?_ size ?_
  · exact (mem_orderings_iff (by simpa using hnames) _).mpr (horder.map _)
  · rw [List.map_map]
    exact hother

namespace Registry

open Footprint

section

variable {r : Registry} (h : WellFormed r.entries) {names : List String}
  (hfits : (Definition.struct names).Fits r.entries)

include h hfits in
/-- The ordering of a struct that fits is the one that the search finds among its members. -/
theorem bestOrdering_of_orderingOf {found : List String × Int}
    (hfound : r.orderingOf .unlimited names = .ok found) : ∃ best,
      bestOrdering (names.map fun n => ⟨n, r.taken .optimized n⟩) = .ok best ∧
        found = (best.members.map (·.name), best.size) := by
  have hmeasures : Measures (r.extent .unlimited .optimized) (r.taken .optimized) names :=
    measures_of_fits h .optimized hfits
  obtain ⟨members, best, hmembers, hbest, heq⟩ := orderingOf_eq_ok hfound
  rw [hmeasures.membersOf_eq] at hmembers
  cases hmembers
  rw [searchAmong_unlimited] at hbest
  exact ⟨best, hbest, heq⟩

include h hfits in
/-- The ordering of a struct that fits has the size that it is found with, and no other ordering
has less. -/
theorem isLeast_of_orderingOf {order : List String} {size : Int}
    (hfound : r.orderingOf .unlimited names = .ok (order, size)) :
    sizeInOrder (order.map (r.taken .optimized)) = .ok size ∧
      IsLeast (orderedSizes (r.taken .optimized) names) size := by
  obtain ⟨best, hbest, heq⟩ := bestOrdering_of_orderingOf h hfits hfound
  cases heq
  exact isLeast_of_bestOrdering hfits.1 hbest

end

/-- A struct that fits has a best ordering, found at its best positions. -/
theorem bestPositions_of_fits {r : Registry} (h : WellFormed r.entries) {names : List String}
    (hfits : (Definition.struct names).Fits r.entries) :
    ∃ positions size, BestPositions (r.taken .optimized) names size positions ∧
      r.orderingOf .unlimited names = .ok (namesAt names positions, size) ∧
      r.sizeOf .unlimited .optimized (.struct names) = .ok size := by
  have hmeasures : Measures (r.extent .unlimited .optimized) (r.taken .optimized) names :=
    measures_of_fits h .optimized hfits
  obtain ⟨order, size, horder, hsize⟩ := orderingOf_of_fits h hfits
  obtain ⟨best, hbest, heq⟩ := bestOrdering_of_orderingOf h hfits horder
  cases heq
  obtain ⟨positions, hpositions, hnames⟩ :=
    bestPositions_of_bestOrdering hfits.1 (fun n hn => (hmeasures n hn).2) hbest
  exact ⟨positions, best.size, hpositions, hnames ▸ horder, hsize⟩

/-- An optimized struct is aligned like the name at the head of its best ordering. -/
theorem alignmentOf_of_orderingOf {r : Registry} (h : WellFormed r.entries) {names : List String}
    (hfits : (Definition.struct names).Fits r.entries) {found : List String × Int}
    (hfound : r.orderingOf .unlimited names = .ok found) :
    r.alignmentOf .unlimited .optimized (.struct names) =
      .ok (r.taken .optimized (found.1.headD "")).alignment := by
  have halignment := alignmentOf_head r .unlimited hfits.1
  have hhead := extent_of_registered h .optimized
    (hfits.2 _ (head_of_orderingOf hfits.1 hfound))
  rw [hfound, ok_bind, hhead.1] at halignment
  unfold Registry.alignmentOf
  simp only [Footprint.alignmentOf, requireMembers_of_ne_nil hfits.1, ok_bind]
  exact halignment

end Registry

/-! ## The law -/

/-- A search finds the first of the smallest orderings. After any run, every engine answers for a
struct of registered names with an ordering of its positions: the names keep their number, the
size is the padded one of this ordering of the members as the engine measures them, and among all
orderings of the positions it is the first one with the smallest size. A report on such a struct
has this ordering and this size, and the alignment of the name at its head. -/
theorem a_search_finds_the_first_of_the_smallest_orderings (steps : List Workshop.Step) :
    let w := Workshop.run .unlimited steps
    ∀ e ∈ w.engines, ∀ names : List String, names ≠ [] → (∀ n ∈ names, n ∈ w.registry.names) →
      ∃ (taken : String → Extent) (positions : List (Fin names.length)) (size : Int),
        (∀ n ∈ names, w.answer .unlimited e (.member .optimized n) = .ok (taken n)) ∧
        BestPositions taken names size positions ∧
        (namesAt names positions).Perm names ∧
        w.answer .unlimited e (.search names) = .ok (namesAt names positions, size) ∧
        ∀ name, w.registry.lookup? name = some (.struct names) →
          w.answer .unlimited e (.ordering name) = .ok (namesAt names positions, size) ∧
          ∃ report, w.answer .unlimited e (.report name) = .ok report ∧
            report.ordering = some (namesAt names positions) ∧
            report.optimized.size = size ∧
            report.optimized.alignment = (taken ((namesAt names positions).headD "")).alignment := by
  intro w e he names hne hnames
  have hw : w.Sound .unlimited := Workshop.sound_run .unlimited steps
  have hsound := hw.engines e he
  obtain ⟨hfits, _⟩ := Registry.fits_of_names hne hnames
  obtain ⟨positions, size, hbest, hordering, hsize⟩ :=
    Registry.bestPositions_of_fits hw.wellFormed hfits
  have hperm := Registry.perm_of_orderingOf hordering
  refine ⟨w.registry.taken .optimized, positions, size, ?_, hbest, hperm, ?_, ?_⟩
  · exact fun n hn => hw.answer_member hsound .optimized (hnames n hn)
  · rw [hw.answer_eq hsound]
    exact hordering
  · intro name hname
    obtain ⟨report, hreport, _, hlayouts⟩ := Registry.report_of_registered hw.wellFormed hname
    obtain ⟨order, horder, hfound⟩ :=
      Registry.ordering_of_report hw.wellFormed hname hreport
    rw [hordering] at hfound
    cases hfound
    have halignment := Registry.alignmentOf_of_orderingOf hw.wellFormed hfits hordering
    obtain ⟨_, _, hrest⟩ := bind_eq_ok_iff.mp (hlayouts .optimized)
    obtain ⟨_, hlaid, hrest⟩ := bind_eq_ok_iff.mp hrest
    obtain ⟨_, _, hlayout⟩ := bind_eq_ok_iff.mp hrest
    rw [halignment] at hlaid
    cases hlaid
    refine ⟨?_, report, ?_, horder, rfl, ?_⟩
    · rw [hw.answer_eq hsound]
      exact (Registry.ordering_of_struct hname).trans hordering
    · rw [hw.answer_eq hsound]
      exact hreport
    · exact congrArg ModeLayout.alignment (Except.ok.inj hlayout).symm

/-- A number, a letter, a pair that was asked for on the way, and a struct of two letters around
a number. -/
def letterSteps : List Workshop.Step :=
  [.register ⟨"char", .atomic (.integer 1) (.integer 1)⟩,
    .register ⟨"int", .atomic (.integer 4) (.integer 4)⟩, .newEngine,
    .ask 0 (.search ["char", "int"]),
    .register ⟨"letters", .struct ["char", "int", "char"]⟩]

/-- The number comes first. The letters keep their order, though the other one is as small. -/
theorem the_number_comes_first : ∃ e ∈ (Workshop.run .unlimited letterSteps).engines,
    ∃ (taken : String → Extent) (positions : List (Fin 3)),
      BestPositions taken ["char", "int", "char"] 6 positions ∧
      namesAt ["char", "int", "char"] positions = ["int", "char", "char"] ∧
      ∃ report, (Workshop.run .unlimited letterSteps).answer .unlimited e (.report "letters") =
        .ok report ∧ report.ordering = some ["int", "char", "char"] := by
  have hengines : ∃ e, e ∈ (Workshop.run .unlimited letterSteps).engines :=
    List.exists_mem_of_length_pos (by decide)
  obtain ⟨e, he⟩ := hengines
  obtain ⟨taken, positions, size, _, hbest, _, _, hnamed⟩ :=
    a_search_finds_the_first_of_the_smallest_orderings letterSteps e he
      ["char", "int", "char"] (by decide) (by decide)
  obtain ⟨hordering, report, hreport, hreported, _⟩ := hnamed "letters" (by decide)
  have hfound : ∀ e ∈ (Workshop.run .unlimited letterSteps).engines,
      (Workshop.run .unlimited letterSteps).answer .unlimited e (.ordering "letters") =
        .ok (["int", "char", "char"], 6) := by decide
  rw [hfound e he] at hordering
  obtain ⟨hordered, rfl⟩ := Prod.mk.inj (Except.ok.inj hordering)
  exact ⟨e, he, taken, positions, hbest, hordered.symm, report, hreport, hordered ▸ hreported⟩

end DataLayout
