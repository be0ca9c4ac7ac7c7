-- The laws of member lists. A list with some of the members, in another order, takes no more as a
-- union, and none as a struct that is packed or optimized. Unpacked, the members that stay have to
-- keep their order. So the order of the members alone makes no difference where it is not kept.
import DataLayout.Proofs.Optimum
import DataLayout.Proofs.Padding
import DataLayout.Proofs.Placement
import DataLayout.Proofs.Unions

namespace DataLayout

open Text

/-! ## Orderings of fewer names -/

/-- For each ordering of some names, some of them have an ordering that takes no more. -/
theorem exists_orderedSizes_le {taken : String → Extent} {names others : List String}
    (hsub : names.Subperm others) (hpos : ∀ n ∈ others, (taken n).Positive) {large : Int}
    (hlarge : large ∈ orderedSizes taken others) :
    ∃ small ∈ orderedSizes taken names, small ≤ large := by
  obtain ⟨order, horder, hsize⟩ := hlarge
  -- The names that are left keep the places that they have in the ordering.
  obtain ⟨shorter, hshorter, hkept⟩ : names.Subperm order := hsub.trans horder.symm.subperm
  have hpositive : ∀ e ∈ order.map taken, e.Positive :=
    List.forall_mem_map.mpr fun n hn => hpos n (horder.mem_iff.mp hn)
  obtain ⟨small, hsmall, _⟩ := sizeInOrder_of_positive fun e he =>
    hpositive e ((hkept.map taken).subset he)
  exact ⟨small, ⟨shorter, hshorter, hsmall⟩,
    sizeInOrder_le_of_sublist (hkept.map taken) hpositive hsmall hsize⟩

theorem withNeighbour_of_subperm {α : Type} {items others : List α} (h : items.Subperm others)
    {a : α} (ha : a ∈ withNeighbour items) : a ∈ withNeighbour others := by
  by_cases htwo : 2 ≤ items.length
  · have hlength := h.length_le
    rw [withNeighbour_of_two htwo] at ha
    rw [withNeighbour_of_two (by omega)]
    exact h.subset ha
  · rcases items with _ | ⟨b, _ | ⟨c, rest⟩⟩
    · cases ha
    · cases ha
    · simp at htwo

namespace Registry

open Footprint

/-! ## Fewer variants -/

section

variable {r : Registry} (h : WellFormed r.entries) (p : Packing) {names others : List String}
  (hd : (Definition.union names).Fits r.entries)
  (hothers : (Definition.union others).Fits r.entries)

include h hd hothers in
theorem sizeOf_union_le (hsub : names ⊆ others) {small large : Int}
    (hsmall : r.sizeOf .unlimited p (.union names) = .ok small)
    (hlarge : r.sizeOf .unlimited p (.union others) = .ok large) : small ≤ large := by
  obtain ⟨small', hsmall', ⟨n, hn, hreach⟩, _⟩ :=
    Measures.sizeOf_union hd.1 (measures_of_fits h p hd) .unlimited p
  obtain ⟨large', hlarge', _, hall⟩ :=
    Measures.sizeOf_union hothers.1 (measures_of_fits h p hothers) .unlimited p
  rw [Except.ok.inj (hsmall.symm.trans hsmall'), Except.ok.inj (hlarge.symm.trans hlarge'),
    ← hreach]
  exact hall n (hsub hn)

include h hd hothers in
theorem alignmentOf_union_dvd (hsub : names.Subperm others) {small large : Int}
    (hsmall : r.alignmentOf .unlimited p (.union names) = .ok small)
    (hlarge : r.alignmentOf .unlimited p (.union others) = .ok large) : small ∣ large := by
  obtain ⟨small', hsmall', hleast⟩ := alignmentOf_union h p hd
  obtain ⟨large', hlarge', hleast'⟩ := alignmentOf_union h p hothers
  rw [Except.ok.inj (hsmall.symm.trans hsmall'), Except.ok.inj (hlarge.symm.trans hlarge')]
  refine hleast.dvd_of_subset hleast' fun a ha => ?_
  obtain ⟨n, hn, rfl⟩ := List.mem_map.mp ha
  exact List.mem_map_of_mem (withNeighbour_of_subperm hsub hn)

include h hd hothers in
/-- Where two unions are as large as each other, the one with more variants loses no more. -/
theorem lossOf_union_le (hsub : names ⊆ others) {total loss loss' : Int}
    (htotal : r.sizeOf .unlimited p (.union names) = .ok total)
    (htotal' : r.sizeOf .unlimited p (.union others) = .ok total)
    (hloss : r.lossOf .unlimited p (.union names) = .ok loss)
    (hloss' : r.lossOf .unlimited p (.union others) = .ok loss') : loss' ≤ loss := by
  obtain ⟨best, hbest, ⟨n, hn, hreach, hpacked⟩, _⟩ := lossOf_union h p hd htotal
  obtain ⟨best', hbest', _, hall⟩ := lossOf_union h p hothers htotal'
  have hle := hall n (hsub hn) hreach
  have hlost := Except.ok.inj (hloss.symm.trans hbest)
  have hlost' := Except.ok.inj (hloss'.symm.trans hbest')
  omega

include h hd hothers in
/-- A union has the same layout for every order of its variants. -/
theorem layout_union_of_perm (hperm : names.Perm others) {l l' : ModeLayout}
    (hsize : r.sizeOf .unlimited p (.union names) = .ok l.size)
    (hsize' : r.sizeOf .unlimited p (.union others) = .ok l'.size)
    (halign : r.alignmentOf .unlimited p (.union names) = .ok l.alignment)
    (halign' : r.alignmentOf .unlimited p (.union others) = .ok l'.alignment)
    (hloss : r.lossOf .unlimited p (.union names) = .ok l.loss)
    (hloss' : r.lossOf .unlimited p (.union others) = .ok l'.loss) : l = l' := by
  obtain ⟨size, alignment, loss⟩ := l
  obtain ⟨size', alignment', loss'⟩ := l'
  obtain rfl : size = size' := Int.le_antisymm
    (sizeOf_union_le h p hd hothers hperm.subset hsize hsize')
    (sizeOf_union_le h p hothers hd hperm.symm.subset hsize' hsize)
  have haligned : alignment' = alignment := by
    rw [alignmentOf_union_of_same h p hd hothers fun n =>
      ⟨withNeighbour_of_subperm hperm.subperm, withNeighbour_of_subperm hperm.symm.subperm⟩,
      halign] at halign'
    exact (Except.ok.inj halign').symm
  have hlost : loss = loss' := Int.le_antisymm
    (lossOf_union_le h p hothers hd hperm.symm.subset hsize' hsize hloss' hloss)
    (lossOf_union_le h p hd hothers hperm.subset hsize hsize' hloss hloss')
  rw [haligned, hlost]

end

/-! ## Fewer members -/

section

variable {r : Registry} (h : WellFormed r.entries) {p : Packing} {names others : List String}
  (hd : (Definition.struct names).Fits r.entries)
  (hothers : (Definition.struct others).Fits r.entries) {small large : Int}
  (hsmall : r.sizeOf .unlimited p (.struct names) = .ok small)
  (hlarge : r.sizeOf .unlimited p (.struct others) = .ok large)

include h hothers in
theorem positive_of_fits (p : Packing) : ∀ n ∈ others, (r.taken p n).Positive := fun n hn =>
  (extent_of_registered h p (hothers.2 n hn)).2

include h hd hothers hsmall hlarge in
/-- Where the declared order is not kept, fewer members take no more in any order. -/
theorem sizeOf_struct_le_of_subperm (hp : p ≠ .unpacked) (hsub : names.Subperm others) :
    small ≤ large := by
  have hpos := positive_of_fits h hothers p
  cases p with
  | unpacked => exact absurd rfl hp
  | packed =>
    have hnames := Measures.sizeOf_packed hd.1 (measures_of_fits h .packed hd) .unlimited
    have hall := Measures.sizeOf_packed hothers.1 (measures_of_fits h .packed hothers) .unlimited
    obtain ⟨reordered, hperm, hkept⟩ := hsub
    rw [Except.ok.inj (hsmall.symm.trans hnames), Except.ok.inj (hlarge.symm.trans hall),
      ← sizeWithoutPadding_perm (hperm.map (r.taken .packed))]
    exact sizeWithoutPadding_le_of_sublist (hkept.map _) (List.forall_mem_map.mpr hpos)
  | optimized =>
    obtain ⟨order, size, horder, hsize⟩ := orderingOf_of_fits h hd
    obtain ⟨order', size', horder', hsize'⟩ := orderingOf_of_fits h hothers
    have hleast := (isLeast_of_orderingOf h hd horder).2
    have hleast' := (isLeast_of_orderingOf h hothers horder').2
    obtain ⟨shorter, hshorter, hle⟩ := exists_orderedSizes_le hsub hpos hleast'.1
    rw [Except.ok.inj (hsmall.symm.trans hsize), Except.ok.inj (hlarge.symm.trans hsize')]
    exact Int.le_trans (hleast.2 hshorter) hle

include h hd hothers hsmall hlarge in
/-- Fewer members in their order take no more. -/
theorem sizeOf_struct_le_of_sublist (hsub : names.Sublist others) : small ≤ large := by
  by_cases hp : p = .unpacked
  · subst hp
    have hnames := Measures.sizeOf_unpacked hd.1 (measures_of_fits h .unpacked hd) .unlimited
    have hall := Measures.sizeOf_unpacked hothers.1 (measures_of_fits h .unpacked hothers) .unlimited
    exact sizeInOrder_le_of_sublist (hsub.map (r.taken .unpacked))
      (List.forall_mem_map.mpr (positive_of_fits h hothers .unpacked))
      (hnames.symm.trans hsmall) (hall.symm.trans hlarge)
  · exact sizeOf_struct_le_of_subperm h hd hothers hsmall hlarge hp hsub.subperm

include h hd hothers in
/-- Where the declared order is not kept, a struct has the same size for every order of its
members. -/
theorem sizeOf_struct_of_perm (hp : p ≠ .unpacked) (hperm : names.Perm others) :
    r.sizeOf .unlimited p (.struct others) = r.sizeOf .unlimited p (.struct names) := by
  obtain ⟨size, hsize, _⟩ := sizeOf_of_measures p hd (measures_of_fits h p hd)
  obtain ⟨size', hsize', _⟩ := sizeOf_of_measures p hothers (measures_of_fits h p hothers)
  have hsizes : size' = size := Int.le_antisymm
    (sizeOf_struct_le_of_subperm h hothers hd hsize' hsize hp hperm.symm.subperm)
    (sizeOf_struct_le_of_subperm h hd hothers hsize hsize' hp hperm.subperm)
  exact hsize'.trans (hsizes ▸ hsize.symm)

end

end Registry

/-! ## The laws -/

/-- Another order takes as much where the declared order is not kept. After any run, every engine
lays out a union of registered names in the same way for every order of its variants, under each
packing. A struct has the same size and the same loss for every order of its members, packed and
optimized. -/
theorem another_order_takes_as_much (steps : List Workshop.Step) :
    let w := Workshop.run .unlimited steps
    ∀ names others : List String, names ≠ [] → (∀ n ∈ names, n ∈ w.registry.names) →
      names.Perm others →
      (∀ p, ∃ l, ∀ e ∈ w.engines,
        w.LaysOut e p (.union names) l ∧ w.LaysOut e p (.union others) l) ∧
      ∀ p, p ≠ .unpacked → ∃ l l', l.size = l'.size ∧ l.loss = l'.loss ∧ ∀ e ∈ w.engines,
        w.LaysOut e p (.struct names) l ∧ w.LaysOut e p (.struct others) l' := by
  intro w names others hne hnames hperm
  have hw : w.Sound .unlimited := Workshop.sound_run .unlimited steps
  have hne' : others ≠ [] := by
    rintro rfl
    exact hne (List.perm_nil.mp hperm)
  obtain ⟨hstruct, hunion⟩ := Registry.fits_of_names hne hnames
  obtain ⟨hstruct', hunion'⟩ :=
    Registry.fits_of_names hne' fun n hn => hnames n (hperm.mem_iff.mpr hn)
  refine ⟨fun p => ?_, fun p hp => ?_⟩
  · obtain ⟨l, hsize, halign, hloss, hlays⟩ := hw.layout p hunion
    obtain ⟨l', hsize', halign', hloss', hlays'⟩ := hw.layout p hunion'
    have hsame : l = l' := Registry.layout_union_of_perm hw.wellFormed p hunion hunion' hperm
      hsize hsize' halign halign' hloss hloss'
    exact ⟨l, fun e he => ⟨hlays e he, hsame ▸ hlays' e he⟩⟩
  · have hsame := fun p hp =>
      Registry.sizeOf_struct_of_perm hw.wellFormed (p := p) hstruct hstruct' hp hperm
    obtain ⟨l, hsize, _, hloss, hlays⟩ := hw.layout p hstruct
    obtain ⟨l', hsize', _, hloss', hlays'⟩ := hw.layout p hstruct'
    obtain ⟨packed, hpacked, _⟩ := hw.layout .packed hstruct
    rw [hsame p hp] at hsize'
    rw [Registry.lossOf_of_kind_ne_union p (by simp [Definition.kind]) hsize hpacked] at hloss
    rw [Registry.lossOf_of_kind_ne_union p (by simp [Definition.kind])
      ((hsame p hp).trans hsize) ((hsame .packed (by decide)).trans hpacked)] at hloss'
    exact ⟨l, l', Except.ok.inj (hsize.symm.trans hsize'), Except.ok.inj (hloss.symm.trans hloss'),
      fun e he => ⟨hlays e he, hlays' e he⟩⟩

/-- A number in front of two letters takes as much as between them, once it is optimized. As they
are declared, the one struct is smaller than the other and aligned in another way. -/
theorem a_number_may_stand_anywhere :
    let w := Workshop.run .unlimited numberSteps
    ∃ e ∈ w.engines,
      (∃ l l', l.size = l'.size ∧ l.loss = l'.loss ∧
        w.LaysOut e .optimized (.struct ["char", "int", "char"]) l ∧
        w.LaysOut e .optimized (.struct ["int", "char", "char"]) l') ∧
      w.answer .unlimited e (.size .unpacked (.struct ["char", "int", "char"])) =
        .ok (.integer 9) ∧
      w.answer .unlimited e (.size .unpacked (.struct ["int", "char", "char"])) =
        .ok (.integer 6) ∧
      w.answer .unlimited e (.alignment .unpacked (.struct ["char", "int", "char"])) =
        .ok (.integer 1) ∧
      w.answer .unlimited e (.alignment .unpacked (.struct ["int", "char", "char"])) =
        .ok (.integer 4) := by
  intro w
  obtain ⟨e, he⟩ : ∃ e, e ∈ w.engines := List.exists_mem_of_length_pos (by decide)
  obtain ⟨_, hstructs⟩ := another_order_takes_as_much numberSteps ["char", "int", "char"]
    ["int", "char", "char"] (by decide) (by decide) (List.Perm.swap _ _ _)
  obtain ⟨l, l', hsize, hloss, hlays⟩ := hstructs .optimized (by decide)
  have hdeclared : ∀ e ∈ w.engines,
      w.answer .unlimited e (.size .unpacked (.struct ["char", "int", "char"])) =
        .ok (.integer 9) ∧
      w.answer .unlimited e (.size .unpacked (.struct ["int", "char", "char"])) =
        .ok (.integer 6) ∧
      w.answer .unlimited e (.alignment .unpacked (.struct ["char", "int", "char"])) =
        .ok (.integer 1) ∧
      w.answer .unlimited e (.alignment .unpacked (.struct ["int", "char", "char"])) =
        .ok (.integer 4) := by decide
  exact ⟨e, he, ⟨l, l', hsize, hloss, hlays e he⟩, hdeclared e he⟩

/-- Members that are left out never cost anything. After any run, under each packing, every engine
gives a struct of registered names at most the size of one with more members, when those that it
has stand in the same order there. It gives a union at most the size of one with more variants, and
an alignment that divides the one there. -/
theorem fewer_members_take_no_more (steps : List Workshop.Step) :
    let w := Workshop.run .unlimited steps
    ∀ names others : List String, names ≠ [] → (∀ n ∈ others, n ∈ w.registry.names) →
      names.Sublist others → ∀ p,
      (∃ small large, small.size ≤ large.size ∧ ∀ e ∈ w.engines,
        w.LaysOut e p (.struct names) small ∧ w.LaysOut e p (.struct others) large) ∧
      ∃ small large, small.size ≤ large.size ∧ small.alignment ∣ large.alignment ∧
        ∀ e ∈ w.engines,
          w.LaysOut e p (.union names) small ∧ w.LaysOut e p (.union others) large := by
  intro w names others hne hnames hsub p
  have hw : w.Sound .unlimited := Workshop.sound_run .unlimited steps
  have hne' : others ≠ [] := by
    rintro rfl
    exact hne (List.sublist_nil.mp hsub)
  obtain ⟨hstruct, hunion⟩ := Registry.fits_of_names hne fun n hn => hnames n (hsub.subset hn)
  obtain ⟨hstruct', hunion'⟩ := Registry.fits_of_names hne' hnames
  constructor
  · obtain ⟨small, hsmall, _, _, hlays⟩ := hw.layout p hstruct
    obtain ⟨large, hlarge, _, _, hlays'⟩ := hw.layout p hstruct'
    exact ⟨small, large,
      Registry.sizeOf_struct_le_of_sublist hw.wellFormed hstruct hstruct' hsmall hlarge hsub,
      fun e he => ⟨hlays e he, hlays' e he⟩⟩
  · obtain ⟨small, hsmall, halign, _, hlays⟩ := hw.layout p hunion
    obtain ⟨large, hlarge, halign', _, hlays'⟩ := hw.layout p hunion'
    exact ⟨small, large,
      Registry.sizeOf_union_le hw.wellFormed p hunion hunion' hsub.subset hsmall hlarge,
      Registry.alignmentOf_union_dvd hw.wellFormed p hunion hunion' hsub.subperm halign halign',
      fun e he => ⟨hlays e he, hlays' e he⟩⟩

/-- The number that is left in a union alone is aligned to 1, which divides what it was. -/
theorem a_lone_number_takes_no_more :
    let w := Workshop.run .unlimited numberSteps
    ∃ e ∈ w.engines, ∃ small large, small.size ≤ large.size ∧ small.alignment ∣ large.alignment ∧
      w.LaysOut e .packed (.union ["int"]) small ∧ small.alignment = 1 ∧
      w.LaysOut e .packed (.union ["char", "int"]) large ∧ large.alignment = 4 := by
  intro w
  obtain ⟨e, he⟩ : ∃ e, e ∈ w.engines := List.exists_mem_of_length_pos (by decide)
  obtain ⟨_, small, large, hsize, halign, hlays⟩ := fewer_members_take_no_more numberSteps ["int"]
    ["char", "int"] (by decide) (by decide) (List.sublist_cons_self _ _) .packed
  obtain ⟨hsmall, hlarge⟩ := hlays e he
  have halone : ∀ e ∈ w.engines,
      w.answer .unlimited e (.alignment .packed (.union ["int"])) = .ok (.integer 1) ∧
      w.answer .unlimited e (.alignment .packed (.union ["char", "int"])) = .ok (.integer 4) := by
    decide +kernel
  obtain ⟨hone, hfour⟩ := halone e he
  exact ⟨e, he, small, large, hsize, halign,
    hsmall, Scalar.integer.inj (Except.ok.inj (hsmall.alignment_eq.symm.trans hone)),
    hlarge, Scalar.integer.inj (Except.ok.inj (hlarge.alignment_eq.symm.trans hfour))⟩

end DataLayout
