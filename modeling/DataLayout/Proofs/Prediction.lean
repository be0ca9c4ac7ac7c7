-- The law of the questions about types that are not registered yet. What an engine answers on a
-- definition is what every engine answers on it once it is registered, under its name too. What
-- is asked and registered in between makes no difference.
import DataLayout.Proofs.Renaming

namespace DataLayout

open Text

/-! ## Registries that know more -/

namespace Registry

variable {r other : Registry}

section

variable (hr : WellFormed r.entries) (hother : WellFormed other.entries)
  (hknown : ∀ n d, r.lookup? n = some d → other.lookup? n = some d) (limit : DigitLimit)

include hr hother hknown

theorem extent_of_known {d : Definition} (hd : d.Fits r.entries) (p : Packing) :
    ∀ n ∈ d.references, other.extent limit p (id n) = r.extent limit p n := fun n hn =>
  extent_of_carries limit p hr hother (hd.isSome_of_mem hn) (carries_id_of_lookup? hknown n)

/-- A registry that knows more lays out a definition in the same way. -/
theorem layoutOf_of_known (p : Packing) {d : Definition} (hd : d.Fits r.entries) :
    other.layoutOf limit p d = r.layoutOf limit p d := by
  have hlayout := layoutOf_renamed limit p (extent_of_known hr hother hknown limit hd)
  rwa [d.renamed_id] at hlayout

theorem orderingOf_of_known {names : List String} (hd : (Definition.struct names).Fits r.entries) :
    other.orderingOf limit names = r.orderingOf limit names := by
  have hordering := orderingOf_renamed limit names
    (extent_of_known hr hother hknown limit hd .optimized)
  simpa using hordering

end

theorem ordering_of_struct {limit : DigitLimit} {name : String} {names : List String}
    (hd : r.lookup? name = some (.struct names)) :
    r.ordering limit name = r.orderingOf limit names := by
  unfold ordering
  rw [resolve_of_some hd, ok_bind]

/-- The report on a struct has the best ordering of its members, and the size of it. -/
theorem ordering_of_report (hr : WellFormed r.entries) {name : String} {names : List String}
    (hd : r.lookup? name = some (.struct names)) {report : Report}
    (hreport : r.report .unlimited name = .ok report) :
    ∃ order, report.ordering = some order ∧
      r.orderingOf .unlimited names = .ok (order, (report.layout .optimized).size) := by
  obtain ⟨order, size, horder, hsize⟩ := orderingOf_of_fits hr (hr.fits_of_lookup hd)
  unfold Registry.report at hreport
  rw [resolve_of_some hd, ok_bind] at hreport
  obtain ⟨unpacked, _, hreport⟩ := bind_eq_ok_iff.mp hreport
  obtain ⟨packed, _, hreport⟩ := bind_eq_ok_iff.mp hreport
  obtain ⟨optimized, hoptimized, hreport⟩ := bind_eq_ok_iff.mp hreport
  obtain ⟨total, htotal, hoptimized⟩ := bind_eq_ok_iff.mp hoptimized
  obtain ⟨alignment, _, hoptimized⟩ := bind_eq_ok_iff.mp hoptimized
  obtain ⟨loss, _, hoptimized⟩ := bind_eq_ok_iff.mp hoptimized
  simp only [ordering_of_struct hd, horder, ok_bind] at hreport
  cases hreport
  cases hoptimized
  rw [hsize] at htotal
  cases htotal
  exact ⟨order, rfl, horder⟩

end Registry

/-! ## Registrations among other steps -/

namespace Workshop

/-- After a registration that is accepted, and whatever comes later, the name has its
definition. -/
theorem lookup?_run_register (limit : DigitLimit) (steps later : List Step) {name : String}
    {d : Definition} (hnew : name ∉ (run limit steps).registry.names)
    (hd : d.Fits (run limit steps).registry.entries) :
    (run limit (steps ++ .register ⟨name, .ofDefinition d⟩ :: later)).registry.lookup? name =
      some d := by
  have hnone : (run limit steps).registry.lookup? name = none :=
    (Registry.notMem_names_iff _ name).mp hnew
  have hcall := Registry.lookup?_call_self limit (r := (run limit steps).registry)
    (fun _ => hd) fun d' hd' => by
      rw [hnone] at hd'
      cases hd'
  have hregistered :
      (run limit (steps ++ [.register ⟨name, .ofDefinition d⟩])).registry.lookup? name =
        some d := by
    unfold run
    rw [List.foldl_append]
    exact hcall
  have hlater := lookup?_run_append limit _ later hregistered
  rwa [List.append_assoc] at hlater

end Workshop

/-! ## The law -/

/-- What is answered on a definition before it is registered holds after that. An engine that is
asked about a valid definition lays it out under each packing as every engine does once it is
registered, and that is what its report and its members say. The same ordering is found for a
struct. It makes no difference which engine is asked, and what is asked and registered in
between. No question changes the registry, also none that fails. -/
theorem a_question_predicts_the_registration (before between later : List Workshop.Step)
    (name : String) (offer : Offer) :
    let asked := Workshop.run .unlimited before
    let after := Workshop.run .unlimited (before ++ between ++ .register ⟨name, offer⟩ :: later)
    ((asked.registry.call .unlimited ⟨name, offer⟩).1 = .ok () →
      name ∉ (Workshop.run .unlimited (before ++ between)).registry.names →
      ∃ d report, offer = .ofDefinition d ∧ after.registry.lookup? name = some d ∧
        (∀ e ∈ asked.engines, ∀ p, asked.LaysOut e p d (report.layout p)) ∧
        (∀ e ∈ after.engines, after.Reports e name report ∧
          ∀ p, after.LaysOut e p d (report.layout p)) ∧
        ∀ names, d = .struct names → ∃ order, report.ordering = some order ∧
          (∀ e ∈ asked.engines, asked.answer .unlimited e (.search names) =
            .ok (order, (report.layout .optimized).size)) ∧
          ∀ e ∈ after.engines,
            after.answer .unlimited e (.search names) =
              .ok (order, (report.layout .optimized).size) ∧
            after.answer .unlimited e (.ordering name) =
              .ok (order, (report.layout .optimized).size)) ∧
    (∀ engine question, (asked.after .unlimited (.ask engine question)).registry =
      asked.registry) ∧
    ∀ described, (asked.after .unlimited (.describe described)).registry = asked.registry := by
  intro asked after
  have hasked : asked.Sound .unlimited := Workshop.sound_run .unlimited before
  refine ⟨fun haccepted hnew => ?_, fun engine question => hasked.registry_after _,
    fun described => hasked.registry_after _⟩
  -- What is accepted now fits, and it still fits when the name is registered.
  obtain ⟨d, hd, hcheck⟩ : ∃ d, offer.definition? = some d ∧ asked.registry.check name d = .ok () := by
    rcases Registry.call_cases .unlimited asked.registry ⟨name, offer⟩ with
      ⟨d, hd, hcheck, _⟩ | ⟨failure, hcall⟩
    · exact ⟨d, hd, hcheck⟩
    · rw [hcall] at haccepted
      cases haccepted
  obtain rfl := Offer.definition?_eq_some_iff.mp hd
  obtain ⟨_, hfits⟩ := (Registry.check_eq_ok_iff _ _ _).mp hcheck
  have hafter : after.Sound .unlimited := Workshop.sound_run .unlimited _
  have hknown : ∀ n d, asked.registry.lookup? n = some d → after.registry.lookup? n = some d := by
    intro n known hn
    have hlater := Workshop.lookup?_run_append .unlimited before
      (between ++ .register ⟨name, .ofDefinition d⟩ :: later) hn
    rwa [← List.append_assoc] at hlater
  have hready : d.Fits (Workshop.run .unlimited (before ++ between)).registry.entries := by
    apply hfits.of_known
    intro n hn
    obtain ⟨d, hd⟩ := Option.isSome_iff_exists.mp hn
    exact Option.isSome_iff_exists.mpr
      ⟨d, Workshop.lookup?_run_append .unlimited before between hd⟩
  have hlookup : after.registry.lookup? name = some d :=
    Workshop.lookup?_run_register .unlimited _ later hnew hready
  obtain ⟨report, hreport, _, hlayouts⟩ := Registry.report_of_registered hafter.wellFormed hlookup
  have hanswer : ∀ e ∈ after.engines, ∀ q, after.answer .unlimited e q =
      q.plain .unlimited after.registry := fun e he q => hafter.answer_eq (hafter.engines e he) q
  refine ⟨d, report, rfl, hlookup, fun e he p => ?_, fun e he => ?_, ?_⟩
  · have hsame := Registry.layoutOf_of_known hasked.wellFormed hafter.wellFormed hknown
      .unlimited p hfits
    exact hasked.laysOut (hasked.engines e he) p hfits (hsame.symm.trans (hlayouts p))
  · obtain ⟨other, hreports, hlays⟩ := hafter.reports (hafter.engines e he) hlookup
    have hsame := hreports.report_eq
    rw [hanswer e he] at hsame
    obtain rfl : report = other := Except.ok.inj (hreport.symm.trans hsame)
    exact ⟨hreports, hlays⟩
  · rintro names rfl
    obtain ⟨order, hordering, horder⟩ :=
      Registry.ordering_of_report hafter.wellFormed hlookup hreport
    have hsame := Registry.orderingOf_of_known hasked.wellFormed hafter.wellFormed hknown
      .unlimited hfits
    refine ⟨order, hordering, fun e he => ?_, fun e he => ⟨?_, ?_⟩⟩
    · rw [hasked.answer_eq (hasked.engines e he)]
      exact hsame.symm.trans horder
    · rw [hanswer e he]
      exact horder
    · rw [hanswer e he]
      exact (Registry.ordering_of_struct hlookup).trans horder

/-- Two numbers and an engine. -/
def numberSteps : List Workshop.Step :=
  [.register ⟨"char", .atomic (.integer 1) (.integer 1)⟩,
    .register ⟨"int", .atomic (.integer 4) (.integer 4)⟩, .newEngine]

/-- The pair and a ghost are asked for, another pair is registered, and the ghost too. -/
def questionSteps : List Workshop.Step :=
  [.ask 0 (.layout .optimized (.struct ["char", "int"])), .ask 0 (.report "ghost"),
    .register ⟨"other", .struct ["char", "int"]⟩, .describe "other",
    .register ⟨"ghost", .atomic (.integer 2) (.integer 2)⟩]

theorem the_pair_is_predicted :
    let asked := Workshop.run .unlimited numberSteps
    let after := Workshop.run .unlimited (numberSteps ++ questionSteps ++
      .register ⟨"pair", .struct ["char", "int"]⟩ :: [.newEngine])
    .empty ∈ asked.engines ∧ .empty ∈ after.engines ∧ ∃ report order,
      report.ordering = some order ∧
      asked.LaysOut .empty .optimized (.struct ["char", "int"]) report.optimized ∧
      after.Reports .empty "pair" report ∧
      asked.answer .unlimited .empty (.search ["char", "int"]) =
        .ok (order, report.optimized.size) := by
  intro asked after
  have hasked : .empty ∈ asked.engines := by decide +kernel
  have hafter : .empty ∈ after.engines := by decide +kernel
  have haccepted : (asked.registry.call .unlimited ⟨"pair", .struct ["char", "int"]⟩).1 = .ok () := by
    decide +kernel
  have hnew : "pair" ∉
      (Workshop.run .unlimited (numberSteps ++ questionSteps)).registry.names := by
    decide +kernel
  obtain ⟨d, report, hoffer, _, hbefore, hlater, hordering⟩ :=
    (a_question_predicts_the_registration numberSteps questionSteps [.newEngine] "pair"
      (.struct ["char", "int"])).1 haccepted hnew
  obtain rfl : d = .struct ["char", "int"] :=
    Option.some.inj (Offer.definition?_eq_some_iff.mpr hoffer).symm
  obtain ⟨order, horder, hsearch, _⟩ := hordering ["char", "int"] rfl
  exact ⟨hasked, hafter, report, order, horder, hbefore .empty hasked .optimized,
    (hlater .empty hafter).1, hsearch .empty hasked⟩

end DataLayout
