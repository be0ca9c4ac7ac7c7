-- The laws of writing. A number of too many digits is measured like any other, but it cannot be
-- written. The size of each best ordering goes on record, and a report shows its numbers. So a
-- report is written exactly when all of these are short enough, and else it fails for that.
import DataLayout.Proofs.Totality

namespace DataLayout

open Text

namespace Footprint

/-! ## Members that fail -/

/-- When members are measured or fail for one reason, and one fails, all together fail for that
reason. -/
theorem membersOf_eq_error_of_mem {f : String → Except Failure Extent} {names : List String}
    {failure : Failure} (h : ∀ n ∈ names, (∃ e, f n = .ok e) ∨ f n = .error failure)
    {name : String} (hname : name ∈ names) (hfails : f name = .error failure) :
    membersOf f names = .error failure := by
  unfold membersOf
  induction names with
  | nil => cases hname
  | cons n rest ih =>
    rw [List.mapM_cons]
    rcases h n List.mem_cons_self with ⟨e, he⟩ | hfirst
    · have hrest : name ∈ rest := by
        rcases List.mem_cons.mp hname with rfl | hrest
        · rw [he] at hfails
          cases hfails
        · exact hrest
      rw [he, ih (fun m hm => h m (List.mem_cons_of_mem _ hm)) hrest]
      rfl
    · rw [hfirst]
      rfl

/-! ## Where nothing is searched -/

section

variable {limit : DigitLimit} {p : Packing} (hp : p ≠ .optimized)

include hp in
theorem sizeOf_of_ne_optimized (f : String → Except Failure Extent) (d : Definition) :
    sizeOf limit p f d = sizeOf .unlimited p f d := by
  cases p with
  | unpacked => cases d <;> rfl
  | packed => cases d <;> rfl
  | optimized => exact absurd rfl hp

include hp in
theorem alignmentOf_of_ne_optimized (f : String → Except Failure Extent) (d : Definition) :
    alignmentOf limit p f d = alignmentOf .unlimited p f d := by
  cases p with
  | unpacked => cases d <;> rfl
  | packed => cases d <;> rfl
  | optimized => exact absurd rfl hp

include hp in
theorem extentIn_of_ne_optimized (entries : List Entry) (name : String) :
    extentIn limit p entries name = extentIn .unlimited p entries name := by
  induction entries generalizing name with
  | nil => rfl
  | cons e older ih =>
    have hmeasured : measured limit p (extentIn limit p older) e.definition =
        measured .unlimited p (extentIn .unlimited p older) e.definition := by
      rw [funext ih]
      unfold measured
      rw [sizeOf_of_ne_optimized hp, alignmentOf_of_ne_optimized hp]
    simp only [extentIn, hmeasured, ih]

end

/-! ## Searches -/

/-- Only a found ordering with too long a size is not put on record. -/
theorem searchAmong_eq (limit : DigitLimit) {members : List Member} {best : Ordered}
    (h : searchAmong .unlimited members = .ok best) :
    searchAmong limit members =
      if writable limit best.size then .ok best else .error .numeralTooLong := by
  rw [searchAmong_unlimited] at h
  unfold searchAmong
  rw [h]
  rfl

end Footprint

namespace Registry

open Footprint

/-- The best orderings of all structs that are reached from a name have sizes that can be
written. -/
def Searchable (r : Registry) (limit : DigitLimit) (name : String) : Prop :=
  ∀ n, Relation.ReflTransGen r.Refers name n → ∀ names, r.lookup? n = some (.struct names) →
    ∀ size, r.sizeOf .unlimited .optimized (.struct names) = .ok size →
      writable limit size = true

section

variable {r : Registry} {limit : DigitLimit} {name : String} {d : Definition}
  (hd : r.lookup? name = some d)

theorem Searchable.of_refers {n : String} (h : r.Searchable limit name)
    (hr : r.Refers name n) : r.Searchable limit n :=
  fun m hm => h m (hm.head hr)

include hd in
theorem searchable_of_references
    (hself : ∀ names, d = .struct names → ∀ size,
      r.sizeOf .unlimited .optimized (.struct names) = .ok size → writable limit size = true)
    (hrefs : ∀ n ∈ d.references, r.Searchable limit n) : r.Searchable limit name := by
  intro n hn names hnames
  rcases hn.cases_head with rfl | ⟨m, ⟨d', hd', hm⟩, hreach⟩
  · rw [hd] at hnames
    exact hself names (Option.some.inj hnames)
  · rw [hd] at hd'
    cases hd'
    exact hrefs m hm n hreach names hnames

variable (h : WellFormed r.entries)

/-- One name is measured with a limit as it is without one, or it fails for a number that is
too long, as its reached structs are searchable or not. -/
def Settled (r : Registry) (limit : DigitLimit) (name : String) : Prop :=
  (r.Searchable limit name ∧
      r.extent limit .optimized name = r.extent .unlimited .optimized name) ∨
    ¬ r.Searchable limit name ∧ r.extent limit .optimized name = .error .numeralTooLong

theorem Settled.extent_eq (hsettled : r.Settled limit name)
    (hsearchable : r.Searchable limit name) :
    r.extent limit .optimized name = r.extent .unlimited .optimized name := by
  rcases hsettled with ⟨_, hextent⟩ | ⟨hnot, _⟩
  · exact hextent
  · exact absurd hsearchable hnot

include h in
/-- Without a limit, the search of a struct that fits finds its size. -/
theorem search_of_fits {names : List String} (hfits : (Definition.struct names).Fits r.entries) :
    ∃ members best, membersOf (r.extent .unlimited .optimized) names = .ok members ∧
      searchAmong .unlimited members = .ok best ∧
      r.sizeOf .unlimited .optimized (.struct names) = .ok best.size := by
  have hmeasures : Measures (r.extent .unlimited .optimized) (r.taken .optimized) names :=
    measures_of_fits h .optimized hfits
  obtain ⟨best, hbest, _⟩ := hmeasures.searchAmong_eq hfits.1
  refine ⟨_, best, hmeasures.membersOf_eq, hbest, ?_⟩
  unfold Registry.sizeOf
  rw [Footprint.sizeOf, requireMembers_of_ne_nil hfits.1, ok_bind, hmeasures.membersOf_eq,
    ok_bind]
  simp only [hbest]
  rfl

include h in
/-- A struct of members that are measured as without a limit: only its own search can fail. -/
theorem sizeOf_struct_of_extents {names : List String}
    (hfits : (Definition.struct names).Fits r.entries)
    (hextents : ∀ n ∈ names, r.extent limit .optimized n = r.extent .unlimited .optimized n) :
    ∃ best, r.sizeOf .unlimited .optimized (.struct names) = .ok best ∧
      (writable limit best = true →
        r.sizeOf limit .optimized (.struct names) =
            r.sizeOf .unlimited .optimized (.struct names) ∧
          r.alignmentOf limit .optimized (.struct names) =
            r.alignmentOf .unlimited .optimized (.struct names)) ∧
      (writable limit best = false →
        r.sizeOf limit .optimized (.struct names) = .error .numeralTooLong) := by
  obtain ⟨members, best, hmembers, hbest, hsize⟩ := search_of_fits h hfits
  have hlimited := searchAmong_eq limit hbest
  have hsame : membersOf (r.extent limit .optimized) names = .ok members :=
    (membersOf_congr names hextents).trans hmembers
  refine ⟨best.size, hsize, fun hwritable => ?_, fun hlong => ?_⟩
  · rw [if_pos hwritable, ← hbest] at hlimited
    unfold Registry.sizeOf Registry.alignmentOf
    simp only [Footprint.sizeOf, Footprint.alignmentOf, hsame, hmembers, ok_bind, hlimited]
    exact ⟨trivial, trivial⟩
  · rw [if_neg (by simp [hlong])] at hlimited
    unfold Registry.sizeOf
    simp only [Footprint.sizeOf, requireMembers_of_ne_nil hfits.1, hsame, ok_bind, hlimited]
    rfl

include hd h in
/-- A definition fails with the first of its settled members that fails. -/
theorem sizeOf_of_reference (hrefs : ∀ n ∈ d.references, r.Settled limit n) {n : String}
    (hn : n ∈ d.references) (hnot : ¬ r.Searchable limit n) :
    r.sizeOf limit .optimized d = .error .numeralTooLong := by
  have hfits := h.fits_of_lookup hd
  have hanswers : ∀ m ∈ d.references, (∃ e, r.extent limit .optimized m = .ok e) ∨
      r.extent limit .optimized m = .error .numeralTooLong := by
    intro m hm
    rcases hrefs m hm with ⟨_, hextent⟩ | ⟨_, hextent⟩
    · exact Or.inl ⟨_, hextent.trans (measures_of_fits h .optimized hfits m hm).1⟩
    · exact Or.inr hextent
  have hfails : r.extent limit .optimized n = .error .numeralTooLong := by
    rcases hrefs n hn with ⟨hsearchable, _⟩ | ⟨_, hextent⟩
    · exact absurd hsearchable hnot
    · exact hextent
  have hmembers := membersOf_eq_error_of_mem hanswers hn hfails
  unfold Registry.sizeOf
  cases d with
  | atomic size alignment => cases hn
  | struct names =>
    have hmembers : membersOf (r.extent limit .optimized) names = _ := hmembers
    rw [Footprint.sizeOf, requireMembers_of_ne_nil hfits.1, ok_bind, hmembers]
    rfl
  | union names =>
    have hmembers : membersOf (r.extent limit .optimized) names = _ := hmembers
    rw [Footprint.sizeOf, requireMembers_of_ne_nil hfits.1, ok_bind, hmembers]
    rfl

include hd h in
/-- The size of a definition whose members are settled. -/
theorem sizeOf_of_settled (hrefs : ∀ n ∈ d.references, r.Settled limit n) :
    (r.Searchable limit name ∧
      r.sizeOf limit .optimized d = r.sizeOf .unlimited .optimized d ∧
      r.alignmentOf limit .optimized d = r.alignmentOf .unlimited .optimized d) ∨
    ¬ r.Searchable limit name ∧ r.sizeOf limit .optimized d = .error .numeralTooLong := by
  by_cases hall : ∀ n ∈ d.references, r.Searchable limit n
  · have hextents : ∀ n ∈ d.references,
        r.extent limit .optimized n = r.extent .unlimited .optimized n := fun n hn =>
      (hrefs n hn).extent_eq (hall n hn)
    -- Only a struct has a search of its own, so only a struct can still fail.
    by_cases hkind : ∃ names, d = .struct names
    · obtain ⟨names, rfl⟩ := hkind
      obtain ⟨best, hbest, hshort, hlong⟩ :=
        sizeOf_struct_of_extents h (h.fits_of_lookup hd) hextents
      cases hwritable : writable limit best with
      | true =>
        refine Or.inl ⟨searchable_of_references hd ?_ hall, hshort hwritable⟩
        rintro _ ⟨rfl⟩ size hsize
        rw [hbest] at hsize
        cases hsize
        exact hwritable
      | false =>
        refine Or.inr ⟨fun hsearchable => ?_, hlong hwritable⟩
        have hshort := hsearchable name .refl names hd best hbest
        rw [hwritable] at hshort
        cases hshort
    · refine Or.inl ⟨searchable_of_references hd (fun names hne => ?_) hall, ?_⟩
      · exact absurd ⟨names, hne⟩ hkind
      · unfold Registry.sizeOf Registry.alignmentOf
        rw [sizeOf_congr hextents, alignmentOf_congr hextents]
        cases d with
        | atomic size alignment => exact ⟨rfl, rfl⟩
        | union names => exact ⟨rfl, rfl⟩
        | struct names => exact absurd ⟨names, rfl⟩ hkind
  · obtain ⟨n, hn, hnot⟩ : ∃ n ∈ d.references, ¬ r.Searchable limit n := by
      simpa only [not_forall, exists_prop] using hall
    exact Or.inr ⟨fun hsearchable => hnot (hsearchable.of_refers ⟨d, hd, hn⟩),
      sizeOf_of_reference hd h hrefs hn hnot⟩

include h in
/-- Every registered name is settled. -/
theorem settled_of_registered (hname : (r.lookup? name).isSome) : r.Settled limit name := by
  induction name using (wellFounded_refers h).induction with
  | _ name ih =>
    obtain ⟨d, hd⟩ := Option.isSome_iff_exists.mp hname
    have hrefs : ∀ n ∈ d.references, r.Settled limit n := fun n hn =>
      ih n ⟨d, hd, hn⟩ ((h.fits_of_lookup hd).isSome_of_mem hn)
    unfold Settled
    rw [extent_of_lookup limit .optimized h hd, extent_of_lookup .unlimited .optimized h hd]
    rcases sizeOf_of_settled hd h hrefs with ⟨hsearchable, hsize, halign⟩ | ⟨hnot, hsize⟩
    · refine Or.inl ⟨hsearchable, ?_⟩
      unfold Registry.sizeOf at hsize
      unfold Registry.alignmentOf at halign
      unfold Footprint.measured
      rw [hsize, halign]
    · refine Or.inr ⟨hnot, ?_⟩
      unfold Registry.sizeOf at hsize
      unfold Footprint.measured
      rw [hsize]
      rfl

/-! ## Layouts -/

theorem packedSizes_of_extents {p : Packing} (total : Int) {names : List String}
    (hnames : ∀ n ∈ names, r.extent limit p n = r.extent .unlimited p n) :
    r.packedSizes limit p total names = r.packedSizes .unlimited p total names := by
  induction names with
  | nil => rfl
  | cons n rest ih =>
    have hpacked : r.extent limit .packed n = r.extent .unlimited .packed n :=
      extentIn_of_ne_optimized (by decide) r.entries n
    unfold packedSizes
    rw [hnames n List.mem_cons_self, hpacked, ih fun m hm => hnames m (List.mem_cons_of_mem _ hm)]

theorem sizeOf_of_ne_optimized {p : Packing} (hp : p ≠ .optimized) (d : Definition) :
    r.sizeOf limit p d = r.sizeOf .unlimited p d := by
  have hextents : r.extent limit p = r.extent .unlimited p :=
    funext (extentIn_of_ne_optimized hp r.entries)
  unfold Registry.sizeOf
  rw [hextents, Footprint.sizeOf_of_ne_optimized hp]

/-- A layout does not feel the limit when the size, the alignment and the members do not. -/
theorem layoutOf_of_sizeOf {p : Packing} (hsize : r.sizeOf limit p d = r.sizeOf .unlimited p d)
    (halign : r.alignmentOf limit p d = r.alignmentOf .unlimited p d)
    (hrefs : ∀ n ∈ d.references, r.extent limit p n = r.extent .unlimited p n) :
    r.layoutOf limit p d = r.layoutOf .unlimited p d := by
  have hpacked : r.sizeOf limit .packed d = r.sizeOf .unlimited .packed d :=
    sizeOf_of_ne_optimized (by decide) d
  unfold layoutOf lossOf
  rw [hsize, halign]
  cases d with
  | atomic size alignment => rw [hpacked]
  | struct names => rw [hpacked]
  | union names =>
    have hsizes : ∀ total, r.packedSizes limit p total names =
        r.packedSizes .unlimited p total names := fun total => packedSizes_of_extents total hrefs
    simp only [hsizes]

theorem layoutOf_of_ne_optimized {p : Packing} (hp : p ≠ .optimized) (d : Definition) :
    r.layoutOf limit p d = r.layoutOf .unlimited p d := by
  have hextents : r.extent limit p = r.extent .unlimited p :=
    funext (extentIn_of_ne_optimized hp r.entries)
  have halign : r.alignmentOf limit p d = r.alignmentOf .unlimited p d := by
    unfold Registry.alignmentOf
    rw [hextents, Footprint.alignmentOf_of_ne_optimized hp]
  exact layoutOf_of_sizeOf (sizeOf_of_ne_optimized hp d) halign fun n _ => congrFun hextents n

/-! ## Reports -/

include hd h in
theorem ordering_of_searchable (hsearchable : r.Searchable limit name) {names : List String}
    (hstruct : d = .struct names) : r.ordering limit name = r.ordering .unlimited name := by
  subst hstruct
  have hfits := h.fits_of_lookup hd
  have hextents : ∀ n ∈ names,
      r.extent limit .optimized n = r.extent .unlimited .optimized n := fun n hn =>
    (settled_of_registered h (hfits.isSome_of_mem hn)).extent_eq
      (hsearchable.of_refers ⟨_, hd, hn⟩)
  obtain ⟨members, best, hmembers, hbest, hsize⟩ := search_of_fits h hfits
  have hlimited := searchAmong_eq limit hbest
  rw [if_pos (hsearchable name .refl names hd _ hsize), ← hbest] at hlimited
  unfold ordering orderingOf
  simp only [resolve_of_some hd, ok_bind]
  rw [membersOf_congr names hextents, hmembers, ok_bind, hlimited, ok_bind]

include hd h in
theorem report_of_searchable (hsearchable : r.Searchable limit name) :
    r.report limit name = r.report .unlimited name := by
  have hfits := h.fits_of_lookup hd
  have hsettled : ∀ n ∈ d.references, r.Settled limit n := fun n hn =>
    settled_of_registered h (hfits.isSome_of_mem hn)
  have hextents : ∀ n ∈ d.references,
      r.extent limit .optimized n = r.extent .unlimited .optimized n := fun n hn =>
    (hsettled n hn).extent_eq (hsearchable.of_refers ⟨d, hd, hn⟩)
  have hoptimized : r.layoutOf limit .optimized d = r.layoutOf .unlimited .optimized d := by
    rcases sizeOf_of_settled hd h hsettled with ⟨_, hsize, halign⟩ | ⟨hnot, _⟩
    · exact layoutOf_of_sizeOf hsize halign hextents
    · exact absurd hsearchable hnot
  unfold report
  rw [resolve_of_some hd]
  simp only [ok_bind]
  rw [layoutOf_of_ne_optimized (p := .unpacked) (by decide),
    layoutOf_of_ne_optimized (p := .packed) (by decide), hoptimized]
  cases d with
  | atomic size alignment => rfl
  | union names => rfl
  | struct names => rw [ordering_of_searchable hd h hsearchable rfl]

include hd h in
theorem report_of_not_searchable (hnot : ¬ r.Searchable limit name) :
    r.report limit name = .error .numeralTooLong := by
  have hfits := h.fits_of_lookup hd
  have hoptimized : r.layoutOf limit .optimized d = .error .numeralTooLong := by
    rcases sizeOf_of_settled hd h fun n hn => settled_of_registered h (hfits.isSome_of_mem hn) with
      ⟨hsearchable, _⟩ | ⟨_, hsize⟩
    · exact absurd hsearchable hnot
    · unfold layoutOf
      rw [hsize]
      rfl
  obtain ⟨_, _, _, _, _, _, hunpacked⟩ := layoutOf_of_fits h .unpacked hfits
  obtain ⟨_, _, _, _, _, _, hpacked⟩ := layoutOf_of_fits h .packed hfits
  unfold report
  rw [resolve_of_some hd, ok_bind, layoutOf_of_ne_optimized (p := .unpacked) (by decide), hunpacked,
    ok_bind, layoutOf_of_ne_optimized (p := .packed) (by decide), hpacked, ok_bind, hoptimized]
  rfl

theorem report_of_none (hname : r.lookup? name = none) :
    r.report limit name = .error (.type (.unknown name)) := by
  unfold report
  rw [resolve_of_none hname]
  rfl

/-- A name can be described: the best sizes behind it can be put on record, and the numbers of
its report can be written. -/
structure Describable (r : Registry) (limit : DigitLimit) (name : String) : Prop where
  searchable : r.Searchable limit name
  writable : ∀ report, r.report .unlimited name = .ok report → report.writable limit = true

include h in
theorem report_of_describable (hname : (r.lookup? name).isSome)
    (hdescribable : r.Describable limit name) :
    ∃ report, r.report limit name = .ok report ∧ report.writable limit = true := by
  obtain ⟨d, hd⟩ := Option.isSome_iff_exists.mp hname
  obtain ⟨report, hreport, _⟩ := report_of_registered h hd
  refine ⟨report, ?_, hdescribable.writable report hreport⟩
  rw [report_of_searchable hd h hdescribable.searchable, hreport]

include h in
/-- A name that cannot be described has no report, or one that cannot be written. -/
theorem report_of_not_describable (hname : (r.lookup? name).isSome)
    (hnot : ¬ r.Describable limit name) :
    r.report limit name = .error .numeralTooLong ∨
      ∃ report, r.report limit name = .ok report ∧ report.writable limit = false := by
  obtain ⟨d, hd⟩ := Option.isSome_iff_exists.mp hname
  by_cases hsearchable : r.Searchable limit name
  · obtain ⟨report, hreport, _⟩ := report_of_registered h hd
    refine Or.inr ⟨report, by rw [report_of_searchable hd h hsearchable, hreport], ?_⟩
    rw [← Bool.not_eq_true]
    refine fun hwritable => hnot ⟨hsearchable, fun other hother => ?_⟩
    rw [hreport] at hother
    cases hother
    exact hwritable
  · exact Or.inl (report_of_not_searchable hd h hsearchable)

end

end Registry

end DataLayout
