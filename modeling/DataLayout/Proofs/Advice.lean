-- The laws of the best ordering as advice. Declared in its best order a struct keeps it, with the
-- same size. Where each member takes the same unpacked and optimized, as numbers do, this order is
-- best for the unpacked struct too.
import DataLayout.Proofs.Optimum
import DataLayout.Proofs.Padding

namespace DataLayout

open Text

namespace Registry

open Footprint

section

variable {r : Registry} (h : WellFormed r.entries) {names : List String}
  (hfits : (Definition.struct names).Fits r.entries)

/-! ## Searched again -/

include hfits in
theorem fits_of_perm {others : List String} (hperm : others.Perm names) :
    (Definition.struct others).Fits r.entries := by
  refine ⟨?_, fun n hn => hfits.2 n (hperm.mem_iff.mp hn)⟩
  rintro rfl
  exact hfits.1 (List.nil_perm.mp hperm)

include h hfits in
/-- The search among the names in their best order finds this order again. -/
theorem orderingOf_again {order : List String} {size : Int}
    (hfound : r.orderingOf .unlimited names = .ok (order, size)) :
    r.orderingOf .unlimited order = .ok (order, size) := by
  have hmeasures : Measures (r.extent .unlimited .optimized) (r.taken .optimized) order :=
    measures_of_fits h .optimized (fits_of_perm hfits (perm_of_orderingOf hfound))
  obtain ⟨best, hbest, heq⟩ := bestOrdering_of_orderingOf h hfits hfound
  cases heq
  have hpos : ∀ m ∈ names.map fun n => (⟨n, r.taken .optimized n⟩ : Member), m.extent.Positive :=
    (measures_of_fits h .optimized hfits : Measures _ _ names).positive
  have hagain := bestOrdering_again hbest hpos (by simpa using hfits.1)
  unfold orderingOf
  rw [hmeasures.membersOf_eq, ok_bind, map_name_of_perm (bestOrdering_perm hbest),
    searchAmong_unlimited, hagain]
  rfl

/-! ## Declared in another order -/

include h hfits in
theorem alignmentOf_unpacked : r.alignmentOf .unlimited .unpacked (.struct names) =
    .ok (r.taken .unpacked (names.headD "")).alignment :=
  alignmentOf_declared h .unpacked (by decide) hfits

include h hfits in
/-- Where the members take the same as optimized, an unpacked struct takes what its declared order
takes in the search. -/
theorem sizeOf_unpacked_of_alike
    (halike : ∀ n ∈ names, r.taken .unpacked n = r.taken .optimized n) :
    r.sizeOf .unlimited .unpacked (.struct names) =
      sizeInOrder (names.map (r.taken .optimized)) := by
  rw [← List.map_congr_left halike]
  exact Measures.sizeOf_unpacked hfits.1 (measures_of_fits h .unpacked hfits) .unlimited

end

end Registry

/-! ## The law -/

/-- The best ordering is good advice. After any run, every engine that is asked for the best
ordering of a struct of registered names, and then for that of the struct in this order, answers
the same twice, and a report on such a struct has this ordering. If each member takes the same
unpacked and optimized, as every number does, then the struct in this order takes as much unpacked
and is aligned as the optimized one. The struct as it is declared takes no less, and so does every
other order of its members. -/
theorem the_best_ordering_is_good_advice (steps : List Workshop.Step) :
    let w := Workshop.run .unlimited steps
    ∀ e ∈ w.engines,
      (∀ name size alignment, w.registry.lookup? name = some (.atomic size alignment) →
        ∀ p, w.answer .unlimited e (.member p name) = .ok ⟨size, alignment⟩) ∧
      ∀ names : List String, names ≠ [] → (∀ n ∈ names, n ∈ w.registry.names) →
        ∃ ordering best, ordering.Perm names ∧
          w.LaysOut e .optimized (.struct names) best ∧
          w.answer .unlimited e (.search names) = .ok (ordering, best.size) ∧
          w.answer .unlimited e (.search ordering) = .ok (ordering, best.size) ∧
          (∀ name, w.registry.lookup? name = some (.struct names) → ∃ report,
            w.answer .unlimited e (.report name) = .ok report ∧
              report.ordering = some ordering) ∧
          ((∀ n ∈ names, w.answer .unlimited e (.member .unpacked n) =
              w.answer .unlimited e (.member .optimized n)) →
            (∃ declared, w.LaysOut e .unpacked (.struct names) declared ∧
              best.size ≤ declared.size) ∧
            (∃ advised, w.LaysOut e .unpacked (.struct ordering) advised ∧
              advised.size = best.size ∧ advised.alignment = best.alignment) ∧
            ∀ others, others.Perm names → ∃ other,
              w.LaysOut e .unpacked (.struct others) other ∧ best.size ≤ other.size) := by
  intro w e he
  have hw : w.Sound .unlimited := Workshop.sound_run .unlimited steps
  have hsound := hw.engines e he
  refine ⟨fun name size alignment hname p => ?_, fun names hne hnames => ?_⟩
  · have hmem : name ∈ w.registry.names :=
      (w.registry.mem_names_iff name).mpr (Option.isSome_of_eq_some hname)
    obtain ⟨hsize, halign⟩ := Registry.taken_of_lookup hw.wellFormed p hname
    rw [hw.answer_member hsound p hmem]
    cases hsize
    cases halign
    rfl
  obtain ⟨hfits, _⟩ := Registry.fits_of_names hne hnames
  obtain ⟨best, hsize, halign, _, hlays⟩ := hw.layout .optimized hfits
  obtain ⟨ordering, size, hfound, hsize'⟩ := Registry.orderingOf_of_fits hw.wellFormed hfits
  obtain rfl : best.size = size := Except.ok.inj (hsize.symm.trans hsize')
  have hperm : ordering.Perm names := Registry.perm_of_orderingOf hfound
  have hagain := Registry.orderingOf_again hw.wellFormed hfits hfound
  obtain ⟨hordered, hleast⟩ := Registry.isLeast_of_orderingOf hw.wellFormed hfits hfound
  refine ⟨ordering, best, hperm, hlays e he, (hw.answer_eq hsound _).trans hfound,
    (hw.answer_eq hsound _).trans hagain, fun name hname => ?_, fun hmembers => ?_⟩
  · obtain ⟨report, hreport, _⟩ := Registry.report_of_registered hw.wellFormed hname
    obtain ⟨order, horder, hfound'⟩ := Registry.ordering_of_report hw.wellFormed hname hreport
    rw [hfound] at hfound'
    obtain ⟨rfl, _⟩ := Prod.mk.inj (Except.ok.inj hfound')
    exact ⟨report, (hw.answer_eq hsound _).trans hreport, horder⟩
  have halike : ∀ n ∈ names, w.registry.taken .unpacked n = w.registry.taken .optimized n := by
    intro n hn
    have hsame := hmembers n hn
    rw [hw.answer_member hsound .unpacked (hnames n hn),
      hw.answer_member hsound .optimized (hnames n hn)] at hsame
    exact Except.ok.inj hsame
  -- Every order of the members, the declared one too, was tried in the search.
  have htried : ∀ others : List String, others.Perm names → ∃ other,
      w.LaysOut e .unpacked (.struct others) other ∧ best.size ≤ other.size := by
    intro others hothers
    have hfits' := Registry.fits_of_perm hfits hothers
    obtain ⟨other, hother, _, _, hlays'⟩ := hw.layout .unpacked hfits'
    rw [Registry.sizeOf_unpacked_of_alike hw.wellFormed hfits' fun n hn =>
      halike n (hothers.mem_iff.mp hn)] at hother
    exact ⟨other, hlays' e he, hleast.2 ⟨others, hothers, hother⟩⟩
  refine ⟨htried names (List.Perm.refl names), ?_, htried⟩
  have hfits' := Registry.fits_of_perm hfits hperm
  obtain ⟨advised, hadvised, haligned, _, hlays'⟩ := hw.layout .unpacked hfits'
  rw [Registry.sizeOf_unpacked_of_alike hw.wellFormed hfits' fun n hn =>
    halike n (hperm.mem_iff.mp hn), hordered] at hadvised
  rw [Registry.alignmentOf_unpacked hw.wellFormed hfits',
    halike _ (Registry.head_of_orderingOf hne hfound)] at haligned
  rw [Registry.alignmentOf_of_orderingOf hw.wellFormed hfits hfound] at halign
  exact ⟨advised, hlays' e he, (Except.ok.inj hadvised).symm,
    Except.ok.inj (haligned.symm.trans halign)⟩

/-- Two letters around a number are best behind it, and no order of the three is smaller. -/
theorem the_letters_are_best_behind_the_number :
    let w := Workshop.run .unlimited numberSteps
    ∃ e ∈ w.engines,
      (∀ n ∈ ["char", "int", "char"], w.answer .unlimited e (.member .unpacked n) =
        w.answer .unlimited e (.member .optimized n)) ∧
      w.answer .unlimited e (.search ["char", "int", "char"]) = .ok (["int", "char", "char"], 6) ∧
      w.answer .unlimited e (.search ["int", "char", "char"]) = .ok (["int", "char", "char"], 6) ∧
      (∃ advised, w.LaysOut e .unpacked (.struct ["int", "char", "char"]) advised ∧
        advised.size = 6) ∧
      ∀ others, others.Perm ["char", "int", "char"] → ∃ other,
        w.LaysOut e .unpacked (.struct others) other ∧ 6 ≤ other.size := by
  intro w
  obtain ⟨e, he⟩ : ∃ e, e ∈ w.engines := List.exists_mem_of_length_pos (by decide)
  obtain ⟨_, hlaws⟩ := the_best_ordering_is_good_advice numberSteps e he
  obtain ⟨ordering, best, _, _, hsearch, hagain, _, hadvice⟩ :=
    hlaws ["char", "int", "char"] (by decide) (by decide)
  have hfound : ∀ e ∈ w.engines, w.answer .unlimited e (.search ["char", "int", "char"]) =
      .ok (["int", "char", "char"], 6) := by decide
  have halike : ∀ e ∈ w.engines, ∀ n ∈ ["char", "int", "char"],
      w.answer .unlimited e (.member .unpacked n) =
        w.answer .unlimited e (.member .optimized n) := by decide
  obtain ⟨rfl, hsize⟩ := Prod.mk.inj (Except.ok.inj (hsearch.symm.trans (hfound e he)))
  obtain ⟨_, ⟨advised, hlays, hadvised, _⟩, hothers⟩ := hadvice (halike e he)
  rw [hsize] at hsearch hagain hadvised hothers
  exact ⟨e, he, halike e he, hsearch, hagain, ⟨advised, hlays, hadvised⟩, hothers⟩

/-- Two numbers, a pair that is best in the other order, two such pairs, and one engine. -/
def nestedSteps : List Workshop.Step :=
  [.register ⟨"a", .atomic (.integer 3) (.integer 1)⟩,
    .register ⟨"b", .atomic (.integer 2) (.integer 4)⟩,
    .register ⟨"inner", .struct ["a", "b"]⟩,
    .register ⟨"outer", .struct ["inner", "inner"]⟩, .newEngine]

-- The pair is aligned to 4 once it is reordered, so two of them take more than unpacked.
example : ∀ e ∈ (Workshop.run .unlimited nestedSteps).engines,
    (Workshop.run .unlimited nestedSteps).answer .unlimited e (.member .unpacked "outer") =
      .ok ⟨12, 1⟩ ∧
    (Workshop.run .unlimited nestedSteps).answer .unlimited e (.member .optimized "outer") =
      .ok ⟨13, 4⟩ := by decide +kernel

end DataLayout
