-- The laws of unions. A union is as large as its largest variant, and it is aligned to the least
-- common multiple of what its variants are aligned to. In which order they are listed and how
-- often makes no difference, but a lone variant does not count for the alignment.
import DataLayout.Proofs.Totality

namespace DataLayout

open Text

/-! ## Unions that fit -/

namespace Registry

open Footprint

section

variable {r : Registry} (h : WellFormed r.entries) (p : Packing) {names others : List String}
  (hd : (Definition.union names).Fits r.entries)
  (hothers : (Definition.union others).Fits r.entries)

include h hd in
theorem alignmentOf_union : ∃ alignment,
    r.alignmentOf .unlimited p (.union names) = .ok alignment ∧
      LeastMultiple ((withNeighbour names).map fun n => (r.taken p n).alignment) alignment :=
  Measures.alignmentOf_union hd.1 (measures_of_fits h p hd) .unlimited p

include h hd hothers in
/-- The alignment depends on which variants have a neighbour, and on nothing else. -/
theorem alignmentOf_union_of_same
    (hsame : ∀ n, n ∈ withNeighbour names ↔ n ∈ withNeighbour others) :
    r.alignmentOf .unlimited p (.union others) = r.alignmentOf .unlimited p (.union names) := by
  obtain ⟨alignment, halign, hleast⟩ := alignmentOf_union h p hd
  obtain ⟨other, hother, hleast'⟩ := alignmentOf_union h p hothers
  rw [halign, hother, hleast'.eq_of_same hleast fun a => by simp only [List.mem_map, hsame]]

end

end Registry

/-! ## The law -/

/-- A union is aligned to the least common multiple of what its variants are aligned to. After any
run, every engine gives a union of registered names an alignment, under each packing: a positive
common multiple of the alignments of its variants, which divides all their common multiples. So it
is the same for every list of at least two that has the same variants, in whatever order and how
often. A union of one variant is aligned to 1. A registered union has the alignment of its
definition. -/
theorem a_union_is_aligned_to_the_least_common_multiple (steps : List Workshop.Step) :
    let w := Workshop.run .unlimited steps
    ∃ taken : Packing → String → Extent, ∀ e ∈ w.engines, ∀ p,
      (∀ n ∈ w.registry.names, w.answer .unlimited e (.member p n) = .ok (taken p n)) ∧
      (∀ name names, w.registry.lookup? name = some (.union names) →
        (Definition.union names).Fits w.registry.entries ∧
        w.answer .unlimited e (.alignment p (.union names)) =
          .ok (.integer (taken p name).alignment)) ∧
      ∀ names, (Definition.union names).Fits w.registry.entries → ∃ alignment,
        w.answer .unlimited e (.alignment p (.union names)) = .ok (.integer alignment) ∧
        1 ≤ alignment ∧
        (names.length = 1 → alignment = 1) ∧
        (2 ≤ names.length →
          (∀ n ∈ names, (taken p n).alignment ∣ alignment) ∧
          (∀ multiple, (∀ n ∈ names, (taken p n).alignment ∣ multiple) → alignment ∣ multiple) ∧
          ∀ others, 2 ≤ others.length → (∀ n, n ∈ others ↔ n ∈ names) →
            w.answer .unlimited e (.alignment p (.union others)) = .ok (.integer alignment)) := by
  intro w
  have hw : w.Sound .unlimited := Workshop.sound_run .unlimited steps
  refine ⟨w.registry.taken, fun e hmem p => ?_⟩
  have he := hw.engines e hmem
  have hanswer : ∀ {names : List String} {alignment : Int},
      w.registry.alignmentOf .unlimited p (.union names) = .ok alignment →
      w.answer .unlimited e (.alignment p (.union names)) = .ok (.integer alignment) := by
    intro names alignment halign
    have hplain := Question.plain_alignment .unlimited w.registry p (.union names)
    rw [halign] at hplain
    exact (hw.answer_eq he _).trans hplain
  refine ⟨fun n hn => hw.answer_member he p hn, fun name names hname => ?_, fun names hd => ?_⟩
  · exact ⟨hw.wellFormed.fits_of_lookup hname,
      hanswer (Registry.taken_of_lookup hw.wellFormed p hname).2⟩
  obtain ⟨alignment, halign, hleast⟩ := Registry.alignmentOf_union hw.wellFormed p hd
  refine ⟨alignment, hanswer halign, hleast.positive, ?_, fun htwo => ⟨?_, ?_, ?_⟩⟩
  · intro hone
    obtain ⟨n, rfl⟩ := List.length_eq_one_iff.mp hone
    exact hleast.eq_one
  · intro n hn
    rw [withNeighbour_of_two htwo] at hleast
    exact hleast.dvd (List.mem_map_of_mem hn)
  · intro multiple hmultiple
    rw [withNeighbour_of_two htwo] at hleast
    exact (hleast.dvd_iff multiple).mpr (List.forall_mem_map.mpr hmultiple)
  · intro others htwo' hsame
    have hothers : (Definition.union others).Fits w.registry.entries :=
      ⟨List.ne_nil_of_length_pos (by omega), fun n hn => hd.2 n ((hsame n).mp hn)⟩
    have heq := Registry.alignmentOf_union_of_same hw.wellFormed p hd hothers (by
      rw [withNeighbour_of_two htwo, withNeighbour_of_two htwo']
      exact fun n => (hsame n).symm)
    exact hanswer (heq.trans halign)

/-- Three numbers that are aligned to 4, 6 and 10, a union of them, and one engine. -/
def unevenSteps : List Workshop.Step :=
  [.register ⟨"four", .atomic (.integer 1) (.integer 4)⟩,
    .register ⟨"six", .atomic (.integer 2) (.integer 6)⟩,
    .register ⟨"ten", .atomic (.integer 3) (.integer 10)⟩, .newEngine,
    .register ⟨"uneven", .union ["four", "six", "ten"]⟩]

/-- The three are aligned to 60 together, also in another order and with one of them listed twice,
and one of them alone to 1. -/
theorem four_six_and_ten_are_aligned_to_sixty :
    let w := Workshop.run .unlimited unevenSteps
    ∃ e ∈ w.engines,
      w.answer .unlimited e (.alignment .optimized (.union ["four", "six", "ten"])) =
        .ok (.integer 60) ∧
      w.answer .unlimited e (.alignment .optimized (.union ["ten", "four", "ten", "six"])) =
        .ok (.integer 60) ∧
      w.answer .unlimited e (.alignment .optimized (.union ["ten"])) = .ok (.integer 1) := by
  intro w
  obtain ⟨e, he⟩ : ∃ e, e ∈ w.engines := List.exists_mem_of_length_pos (by decide)
  obtain ⟨taken, hlaws⟩ := a_union_is_aligned_to_the_least_common_multiple unevenSteps
  obtain ⟨hmembers, _, halignments⟩ := hlaws e he .optimized
  obtain ⟨alignment, halign, hpos, _, hmany⟩ :=
    halignments ["four", "six", "ten"] ⟨by decide, by decide⟩
  obtain ⟨hdvd, hleast, hsame⟩ := hmany (by decide)
  have hsizes : ∀ e ∈ w.engines,
      w.answer .unlimited e (.member .optimized "four") = .ok ⟨1, 4⟩ ∧
      w.answer .unlimited e (.member .optimized "six") = .ok ⟨2, 6⟩ ∧
      w.answer .unlimited e (.member .optimized "ten") = .ok ⟨3, 10⟩ := by decide
  obtain ⟨hfour, hsix, hten⟩ := hsizes e he
  have hfour := Except.ok.inj ((hmembers "four" (by decide)).symm.trans hfour)
  have hsix := Except.ok.inj ((hmembers "six" (by decide)).symm.trans hsix)
  have hten := Except.ok.inj ((hmembers "ten" (by decide)).symm.trans hten)
  simp only [List.forall_mem_cons, hfour, hsix, hten] at hdvd hleast
  have hsixty := Int.le_of_dvd (by decide) (hleast 60 (by simp))
  obtain rfl : alignment = 60 := by omega
  obtain ⟨lone, hlone, _, hone, _⟩ := halignments ["ten"] ⟨by decide, by decide⟩
  obtain rfl := hone rfl
  exact ⟨e, he, halign, hsame _ (by decide) (by grind), hlone⟩

end DataLayout
