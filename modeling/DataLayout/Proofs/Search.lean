-- The laws of the search for the best ordering. It finds one of the orderings of the members,
-- with the size of that ordering.
import DataLayout.Proofs.Arithmetic
import DataLayout.Proofs.Footprint

namespace DataLayout

open Text

/-! ## One turn of the search -/

/-- The best ordering so far stays, or the new one takes its place with its own size. -/
theorem keepSmaller_cases {best next : Option Ordered} {members : List Member}
    (h : keepSmaller best members = .ok next) :
    next = best ∨ ∃ size, sizeInOrder (members.map (·.extent)) = .ok size ∧
      next = some ⟨members, size⟩ := by
  obtain ⟨size, hsize, h⟩ := bind_eq_ok_iff.mp h
  cases best with
  | none =>
    cases h
    exact Or.inr ⟨size, hsize, rfl⟩
  | some b =>
    cases h
    split_ifs
    · exact Or.inr ⟨size, hsize, rfl⟩
    · exact Or.inl rfl

/-! ## The whole search -/

theorem foldlM_keepSmaller {orders : List (List Member)} {start : Option Ordered} {best : Ordered}
    (h : orders.foldlM keepSmaller start = .ok (some best)) :
    start = some best ∨
      best.members ∈ orders ∧ sizeInOrder (best.members.map (·.extent)) = .ok best.size := by
  induction orders generalizing start with
  | nil =>
    cases h
    exact Or.inl rfl
  | cons order rest ih =>
    rw [List.foldlM_cons] at h
    obtain ⟨next, hnext, hrest⟩ := bind_eq_ok_iff.mp h
    rcases ih hrest with hfound | ⟨hmem, hsize⟩
    · rcases keepSmaller_cases hnext with hkeep | ⟨size, hsize, hnew⟩
      · exact Or.inl (hkeep ▸ hfound)
      · right
        rw [hfound] at hnew
        cases hnew
        exact ⟨List.mem_cons_self, hsize⟩
    · exact Or.inr ⟨List.mem_cons_of_mem _ hmem, hsize⟩

theorem orFail_eq_ok_iff {α : Type} {failure : Failure} {o : Option α} {a : α} :
    orFail failure o = .ok a ↔ o = some a := by
  cases o <;> simp [orFail]

/-- The best ordering is one of the orderings, and its size is the one it is laid out with. -/
theorem bestOrdering_mem {members : List Member} {best : Ordered}
    (h : bestOrdering members = .ok best) :
    best.members ∈ orderings members ∧
      sizeInOrder (best.members.map (·.extent)) = .ok best.size := by
  obtain ⟨found, hfold, hfound⟩ := bind_eq_ok_iff.mp h
  rw [orFail_eq_ok_iff.mp hfound] at hfold
  rcases foldlM_keepSmaller hfold with hstart | hmem
  · cases hstart
  · exact hmem

theorem bestOrdering_perm {members : List Member} {best : Ordered}
    (h : bestOrdering members = .ok best) : best.members.Perm members :=
  perm_of_mem_orderings (bestOrdering_mem h).1

/-- A turn on members that can be placed leaves some best ordering. -/
theorem keepSmaller_of_positive (best : Option Ordered) {members : List Member}
    (h : ∀ m ∈ members, m.extent.Positive) :
    ∃ next, keepSmaller best members = .ok (some next) := by
  obtain ⟨size, hsize, _⟩ := sizeInOrder_of_positive (List.forall_mem_map.mpr h)
  unfold keepSmaller
  rw [hsize]
  cases best with
  | none => exact ⟨_, rfl⟩
  | some b =>
    by_cases hsmaller : size < b.size
    · exact ⟨⟨members, size⟩, by simp [hsmaller]⟩
    · exact ⟨b, by simp [hsmaller]⟩

/-- Members that can be placed have a best ordering. -/
theorem bestOrdering_of_positive {members : List Member} (hmembers : members ≠ [])
    (h : ∀ m ∈ members, m.extent.Positive) : ∃ best, bestOrdering members = .ok best := by
  have hfold : ∀ (orders : List (List Member)) (start : Ordered),
      (∀ order ∈ orders, ∀ m ∈ order, m.extent.Positive) →
      ∃ best, orders.foldlM keepSmaller (some start) = .ok (some best) := by
    intro orders
    induction orders with
    | nil => exact fun start _ => ⟨start, rfl⟩
    | cons order rest ih =>
      intro start horders
      obtain ⟨next, hnext⟩ :=
        keepSmaller_of_positive (some start) (horders order List.mem_cons_self)
      rw [List.foldlM_cons, hnext]
      exact ih next fun o ho => horders o (List.mem_cons_of_mem _ ho)
  obtain ⟨others, horders⟩ := orderings_eq_cons hmembers
  obtain ⟨first, hfirst⟩ := keepSmaller_of_positive none h
  obtain ⟨best, hbest⟩ := hfold others first fun order ho m hm => by
    have hperm : order.Perm members :=
      perm_of_mem_orderings (by rw [horders]; exact List.mem_cons_of_mem _ ho)
    exact h m (hperm.mem_iff.mp hm)
  refine ⟨best, ?_⟩
  unfold bestOrdering
  rw [horders, List.foldlM_cons, hfirst, ok_bind, hbest]
  rfl

namespace Footprint

theorem searchAmong_eq_ok_iff {limit : DigitLimit} {members : List Member} {best : Ordered} :
    searchAmong limit members = .ok best ↔
      bestOrdering members = .ok best ∧ writable limit best.size = true := by
  unfold searchAmong
  rw [bind_eq_ok_iff]
  constructor
  · rintro ⟨b, hb, hwritten⟩
    by_cases hw : writable limit b.size = true
    · rw [if_pos hw] at hwritten
      cases hwritten
      exact ⟨hb, hw⟩
    · rw [if_neg hw] at hwritten
      cases hwritten
  · rintro ⟨hb, hw⟩
    exact ⟨best, hb, by rw [if_pos hw]; rfl⟩

theorem searchAmong_unlimited (members : List Member) :
    searchAmong .unlimited members = bestOrdering members := by
  cases h : bestOrdering members with
  | error failure =>
    unfold searchAmong
    rw [h]
    rfl
  | ok best => exact searchAmong_eq_ok_iff.mpr ⟨h, rfl⟩

/-- The member at the head of the best ordering of a nonempty struct takes what its name
takes. -/
theorem head_of_searchAmong {limit : DigitLimit} {f : String → Except Failure Extent}
    {names : List String} {members : List Member} {best : Ordered} (hnames : names ≠ [])
    (hmembers : membersOf f names = .ok members) (h : searchAmong limit members = .ok best) :
    f ((best.members.map (·.name)).headD "") = .ok (best.members.headD default).extent := by
  have hperm := bestOrdering_perm (searchAmong_eq_ok_iff.mp h).1
  cases hbest : best.members with
  | nil =>
    rw [hbest] at hperm
    rw [List.nil_perm.mp hperm] at hmembers
    exact absurd (names_of_membersOf hmembers).symm hnames
  | cons m rest =>
    have hm : m ∈ members := hperm.mem_iff.mp (by rw [hbest]; exact List.mem_cons_self)
    exact (mem_of_membersOf hmembers hm).2

end Footprint

namespace Registry

open Footprint

variable {r : Registry} {limit : DigitLimit} {names : List String}

/-- The members of a found ordering, with what they take. -/
theorem orderingOf_eq_ok {found : List String × Int} (h : r.orderingOf limit names = .ok found) :
    ∃ members best, membersOf (r.extent limit .optimized) names = .ok members ∧
      searchAmong limit members = .ok best ∧ found = (best.members.map (·.name), best.size) := by
  obtain ⟨members, hmembers, h⟩ := bind_eq_ok_iff.mp h
  obtain ⟨best, hbest, h⟩ := bind_eq_ok_iff.mp h
  cases h
  exact ⟨members, best, hmembers, hbest, rfl⟩

theorem perm_of_orderingOf {found : List String × Int} (h : r.orderingOf limit names = .ok found) :
    found.1.Perm names := by
  obtain ⟨members, best, hmembers, hbest, rfl⟩ := orderingOf_eq_ok h
  rw [← names_of_membersOf hmembers]
  exact (bestOrdering_perm (searchAmong_eq_ok_iff.mp hbest).1).map _

theorem head_of_orderingOf (hnames : names ≠ []) {found : List String × Int}
    (h : r.orderingOf limit names = .ok found) : found.1.headD "" ∈ names := by
  have hperm := perm_of_orderingOf h
  refine hperm.mem_iff.mp (headD_mem ?_ "")
  rintro hnil
  rw [hnil] at hperm
  exact hnames (List.nil_perm.mp hperm)

/-- An optimized struct is aligned like the head of its best ordering. -/
theorem alignmentOf_head (r : Registry) (limit : DigitLimit) (hnames : names ≠ []) :
    (membersOf (r.extent limit .optimized) names >>= fun members =>
      searchAmong limit members >>= fun best =>
        pure (best.members.headD default).extent.alignment) =
      r.orderingOf limit names >>= fun found =>
        r.extent limit .optimized (found.1.headD "") >>= fun e => pure e.alignment := by
  unfold orderingOf
  cases hmembers : membersOf (r.extent limit .optimized) names with
  | error failure => rfl
  | ok members =>
    simp only [ok_bind, bind_assoc, pure_bind]
    cases hbest : searchAmong limit members with
    | error failure => rfl
    | ok best =>
      simp only [ok_bind]
      rw [head_of_searchAmong hnames hmembers hbest]
      rfl

end Registry

end DataLayout
