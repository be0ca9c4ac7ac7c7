-- The laws of success. On a registry that was filled by calls, each definition that fits has a
-- size, an alignment and a loss, and no partial operation on the way can fail. Sizes and
-- alignments are at least 1.
import DataLayout.Proofs.Workshop

namespace DataLayout

open Logged Text

/-! ## One definition -/

namespace Footprint

theorem requireMembers_of_ne_nil {names : List String} (h : names ≠ []) :
    requireMembers names = .ok () := by
  unfold requireMembers
  rw [if_neg (by simpa using h)]

section

variable {f : String → Except Failure Extent} {taken : String → Extent}

theorem membersOf_of_forall {names : List String} (h : ∀ n ∈ names, f n = .ok (taken n)) :
    membersOf f names = .ok (names.map fun n => ⟨n, taken n⟩) :=
  mapM_eq_ok_of_forall fun n hn => by rw [h n hn]; rfl

/-- The members are measured and all of them are positive. -/
def Measures (f : String → Except Failure Extent) (taken : String → Extent)
    (names : List String) : Prop :=
  ∀ n ∈ names, f n = .ok (taken n) ∧ (taken n).Positive

variable {names : List String} (hnames : names ≠ []) (h : Measures f taken names)

include h in
theorem Measures.membersOf_eq : membersOf f names = .ok (names.map fun n => ⟨n, taken n⟩) :=
  membersOf_of_forall fun n hn => (h n hn).1

include h in
theorem Measures.positive : ∀ m ∈ names.map fun n => (⟨n, taken n⟩ : Member),
    m.extent.Positive := by
  intro m hm
  obtain ⟨n, hn, rfl⟩ := List.mem_map.mp hm
  exact (h n hn).2

include hnames h in
/-- A union takes as much as its largest variant. -/
theorem Measures.sizeOf_union (limit : DigitLimit) (p : Packing) :
    ∃ size, sizeOf limit p f (.union names) = .ok size ∧ (∃ n ∈ names, (taken n).size = size) ∧
      ∀ n ∈ names, (taken n).size ≤ size := by
  obtain ⟨size, hsize, hmem, hle⟩ :=
    largest_of_ne_nil (names.map fun n => (taken n).size) (by simpa using hnames)
  refine ⟨size, ?_, List.mem_map.mp hmem, fun n hn => hle _ (List.mem_map.mpr ⟨n, hn, rfl⟩)⟩
  simp only [sizeOf, requireMembers_of_ne_nil hnames, h.membersOf_eq, ok_bind, List.map_map,
    Function.comp_def]
  exact hsize

include hnames h in
/-- A union is aligned to the least common multiple of what its variants are aligned to. A lone
variant does not count. -/
theorem Measures.alignmentOf_union (limit : DigitLimit) (p : Packing) :
    ∃ alignment, alignmentOf limit p f (.union names) = .ok alignment ∧
      LeastMultiple ((withNeighbour names).map fun n => (taken n).alignment) alignment := by
  obtain ⟨alignment, halign, hleast⟩ :=
    jointAlignment_of_pos (List.forall_mem_map.mpr fun n hn => (h n hn).2.2)
  rw [withNeighbour_map] at hleast
  refine ⟨alignment, ?_, hleast⟩
  simp only [alignmentOf, requireMembers_of_ne_nil hnames, h.membersOf_eq, ok_bind, List.map_map,
    Function.comp_def]
  exact halign

include hnames h in
/-- The search among measured members ends with a size of at least 1. -/
theorem Measures.searchAmong_eq : ∃ best,
    searchAmong .unlimited (names.map fun n => ⟨n, taken n⟩) = .ok best ∧ 1 ≤ best.size ∧
      (best.members.headD default).extent.Positive := by
  obtain ⟨best, hbest⟩ := bestOrdering_of_positive (by simpa using hnames) h.positive
  have hperm := bestOrdering_perm hbest
  have hpos : ∀ m ∈ best.members, m.extent.Positive := fun m hm =>
    h.positive m (hperm.mem_iff.mp hm)
  have hne : best.members ≠ [] := by
    intro hnil
    rw [hnil] at hperm
    exact hnames (List.map_eq_nil_iff.mp (List.nil_perm.mp hperm))
  refine ⟨best, by rw [searchAmong_unlimited, hbest], ?_, ?_⟩
  · have hextents : ∀ e ∈ best.members.map (·.extent), e.Positive := List.forall_mem_map.mpr hpos
    obtain ⟨size, hsize, hle⟩ := sizeInOrder_of_positive hextents
    rw [(bestOrdering_mem hbest).2] at hsize
    cases hsize
    have hlength := length_le_sizeWithoutPadding hextents
    have := List.length_pos_iff.mpr hne
    rw [List.length_map] at hlength
    omega
  · cases hmembers : best.members with
    | nil => exact absurd hmembers hne
    | cons m rest => exact hpos m (by rw [hmembers]; exact List.mem_cons_self)

end

section

variable {f : String → Except Failure Extent} {taken : String → Extent} {older : List Entry}
  {d : Definition} (p : Packing) (hd : d.Fits older) (h : Measures f taken d.references)

include hd h in
theorem sizeOf_of_measures : ∃ size, sizeOf .unlimited p f d = .ok size ∧ 1 ≤ size := by
  cases d with
  | atomic size alignment => exact ⟨size, rfl, hd.1⟩
  | struct names =>
    have hmeasures : Measures f taken names := h
    have hextents : ∀ e ∈ names.map fun n => taken n, e.Positive :=
      List.forall_mem_map.mpr fun n hn => (hmeasures n hn).2
    have hlength : 1 ≤ (names.map fun n => taken n).length := by
      rw [List.length_map]
      exact List.length_pos_iff.mpr hd.1
    have hsizes := length_le_sizeWithoutPadding hextents
    simp only [sizeOf, requireMembers_of_ne_nil hd.1, hmeasures.membersOf_eq, ok_bind,
      List.map_map, Function.comp_def]
    cases p with
    | unpacked =>
      obtain ⟨size, hsize, hle⟩ := sizeInOrder_of_positive hextents
      exact ⟨size, hsize, by omega⟩
    | packed => exact ⟨_, rfl, by omega⟩
    | optimized =>
      obtain ⟨best, hbest, hpos, _⟩ := hmeasures.searchAmong_eq hd.1
      exact ⟨best.size, by rw [hbest]; rfl, hpos⟩
  | union names =>
    have hmeasures : Measures f taken names := h
    obtain ⟨size, hsize, ⟨n, hn, rfl⟩, _⟩ := hmeasures.sizeOf_union hd.1 .unlimited p
    exact ⟨_, hsize, (hmeasures n hn).2.1⟩

include hd h in
theorem alignmentOf_of_measures :
    ∃ alignment, alignmentOf .unlimited p f d = .ok alignment ∧ 1 ≤ alignment := by
  cases d with
  | atomic size alignment => exact ⟨alignment, rfl, hd.2⟩
  | struct names =>
    have hmeasures : Measures f taken names := h
    obtain ⟨hfirst, hpos⟩ := hmeasures _ (headD_mem hd.1 "")
    simp only [alignmentOf, requireMembers_of_ne_nil hd.1, ok_bind]
    cases p with
    | unpacked => exact ⟨_, by rw [hfirst]; rfl, hpos.2⟩
    | packed => exact ⟨_, by rw [hfirst]; rfl, hpos.2⟩
    | optimized =>
      obtain ⟨best, hbest, _, hhead⟩ := hmeasures.searchAmong_eq hd.1
      exact ⟨_, by rw [hmeasures.membersOf_eq, ok_bind, hbest]; rfl, hhead.2⟩
  | union names =>
    have hmeasures : Measures f taken names := h
    obtain ⟨alignment, halign, hleast⟩ := hmeasures.alignmentOf_union hd.1 .unlimited p
    exact ⟨alignment, halign, hleast.positive⟩

include hd h in
theorem measured_of_measures : ∃ e, measured .unlimited p f d = .ok e ∧ e.Positive := by
  obtain ⟨size, hsize, hspos⟩ := sizeOf_of_measures p hd h
  obtain ⟨alignment, halign, hapos⟩ := alignmentOf_of_measures p hd h
  exact ⟨⟨size, alignment⟩, measured_eq_ok hsize halign, hspos, hapos⟩

end

end Footprint

/-! ## Registered names -/

namespace Registry

open Footprint

/-- What a name takes when numerals have no limit, and nothing when it is not registered. -/
def taken (r : Registry) (p : Packing) (name : String) : Extent :=
  match r.extent .unlimited p name with
  | .ok e => e
  | .error _ => default

section

variable {r : Registry} (h : WellFormed r.entries) (p : Packing)

include h in
/-- A registered name takes something, and it is positive. -/
theorem extent_of_registered {name : String} (hname : (r.lookup? name).isSome) :
    r.extent .unlimited p name = .ok (r.taken p name) ∧ (r.taken p name).Positive := by
  induction name using (wellFounded_refers h).induction with
  | _ name ih =>
    obtain ⟨d, hd⟩ := Option.isSome_iff_exists.mp hname
    have hfits := h.fits_of_lookup hd
    have hmeasures : Measures (r.extent .unlimited p) (r.taken p) d.references :=
      fun n hn => ih n ⟨d, hd, hn⟩ (hfits.isSome_of_mem hn)
    obtain ⟨e, he, hpos⟩ := measured_of_measures p hfits hmeasures
    rw [← extent_of_lookup .unlimited p h hd] at he
    have htaken : r.taken p name = e := by
      unfold taken
      rw [he]
    rw [htaken]
    exact ⟨he, hpos⟩

include h in
/-- A registered name takes the size and the alignment of its definition. -/
theorem taken_of_lookup {name : String} {d : Definition} (hd : r.lookup? name = some d) :
    r.sizeOf .unlimited p d = .ok (r.taken p name).size ∧
      r.alignmentOf .unlimited p d = .ok (r.taken p name).alignment := by
  have hextent := (extent_of_registered h p (by rw [hd]; rfl)).1
  rw [extent_of_lookup .unlimited p h hd] at hextent
  obtain ⟨size, hsize, hrest⟩ := bind_eq_ok_iff.mp hextent
  obtain ⟨alignment, halign, htaken⟩ := bind_eq_ok_iff.mp hrest
  rw [← Except.ok.inj htaken]
  exact ⟨hsize, halign⟩

include h in
theorem measures_of_fits {d : Definition} (hd : d.Fits r.entries) :
    Measures (r.extent .unlimited p) (r.taken p) d.references :=
  fun _ hn => extent_of_registered h p (hd.isSome_of_mem hn)

/-! ## Definitions that fit -/

include h in
/-- In the declared order a struct is aligned like the name at its head. -/
theorem alignmentOf_declared (hp : p ≠ .optimized) {names : List String}
    (hd : (Definition.struct names).Fits r.entries) :
    r.alignmentOf .unlimited p (.struct names) =
      .ok (r.taken p (names.headD "")).alignment := by
  cases names with
  | nil => exact absurd rfl hd.1
  | cons first rest =>
    rw [alignmentOf_struct_cons hp,
      (extent_of_registered h p (hd.2 first List.mem_cons_self)).1]
    rfl

include h in
theorem packedSizes_of_registered (total : Int) {names : List String}
    (hnames : ∀ n ∈ names, (r.lookup? n).isSome) :
    r.packedSizes .unlimited p total names =
      .ok ((names.filter fun n => (r.taken p n).size = total).map fun n =>
        (r.taken .packed n).size) := by
  induction names with
  | nil => rfl
  | cons n rest ih =>
    have hn := hnames n List.mem_cons_self
    have hrest := ih fun m hm => hnames m (List.mem_cons_of_mem _ hm)
    unfold packedSizes
    rw [(extent_of_registered h p hn).1, (extent_of_registered h .packed hn).1, hrest]
    by_cases htotal : (r.taken p n).size = total
    · simp [htotal]
    · simp [htotal]

/-- Whatever is no union loses the difference to its packed size. -/
theorem lossOf_of_kind_ne_union {limit : DigitLimit} {d : Definition} (hd : d.kind ≠ .union)
    {total packed : Int} (htotal : r.sizeOf limit p d = .ok total)
    (hpacked : r.sizeOf limit .packed d = .ok packed) :
    r.lossOf limit p d = .ok (total - packed) := by
  unfold lossOf
  rw [htotal, ok_bind]
  cases d with
  | atomic size alignment =>
    rw [hpacked]
    rfl
  | struct names =>
    rw [hpacked]
    rfl
  | union names => exact absurd rfl hd

include h in
/-- A union is compared with its best packed variant among those that reach its size, and
some variant does. -/
theorem lossOf_union {names : List String} (hd : (Definition.union names).Fits r.entries)
    {total : Int} (htotal : r.sizeOf .unlimited p (.union names) = .ok total) :
    ∃ best, r.lossOf .unlimited p (.union names) = .ok (total - best) ∧
      (∃ n ∈ names, (r.taken p n).size = total ∧ (r.taken .packed n).size = best) ∧
      ∀ n ∈ names, (r.taken p n).size = total → (r.taken .packed n).size ≤ best := by
  have hreach : ∃ n ∈ names, (r.taken p n).size = total := by
    have hmeasures : Measures (r.extent .unlimited p) (r.taken p) names := measures_of_fits h p hd
    obtain ⟨size, hsize, hmem, _⟩ := hmeasures.sizeOf_union hd.1 .unlimited p
    unfold Registry.sizeOf at htotal
    rw [hsize] at htotal
    cases htotal
    exact hmem
  have hreaching : ∀ n, n ∈ (names.filter fun n => (r.taken p n).size = total) ↔
      n ∈ names ∧ (r.taken p n).size = total := fun n => by simp
  obtain ⟨best, hbest, hmem, hle⟩ := largest_of_ne_nil
    ((names.filter fun n => (r.taken p n).size = total).map fun n => (r.taken .packed n).size) (by
      obtain ⟨n, hn⟩ := hreach
      intro hnil
      have hmem := (hreaching n).mpr hn
      rw [List.map_eq_nil_iff.mp hnil] at hmem
      cases hmem)
  refine ⟨best, ?_, ?_, ?_⟩
  · unfold lossOf
    simp only [htotal, ok_bind, packedSizes_of_registered h p total hd.2, hbest]
    rfl
  · obtain ⟨n, hn, hpacked⟩ := List.mem_map.mp hmem
    exact ⟨n, ((hreaching n).mp hn).1, ((hreaching n).mp hn).2, hpacked⟩
  · intro n hn hsize
    exact hle _ (List.mem_map.mpr ⟨n, (hreaching n).mpr ⟨hn, hsize⟩, rfl⟩)

include h in
theorem lossOf_of_fits {d : Definition} (hd : d.Fits r.entries) :
    ∃ loss, r.lossOf .unlimited p d = .ok loss := by
  have hsize : ∀ p, ∃ size, r.sizeOf .unlimited p d = .ok size := fun p =>
    let ⟨size, hsize, _⟩ := sizeOf_of_measures p hd (measures_of_fits h p hd)
    ⟨size, hsize⟩
  obtain ⟨total, htotal⟩ := hsize p
  obtain ⟨packed, hpacked⟩ := hsize .packed
  cases d with
  | atomic size alignment =>
    exact ⟨_, lossOf_of_kind_ne_union p (by simp [Definition.kind]) htotal hpacked⟩
  | struct names =>
    exact ⟨_, lossOf_of_kind_ne_union p (by simp [Definition.kind]) htotal hpacked⟩
  | union names =>
    obtain ⟨best, hbest, _⟩ := lossOf_union h p hd htotal
    exact ⟨_, hbest⟩

include h in
/-- A definition that fits has a layout, with positive size and alignment. -/
theorem layoutOf_of_fits {d : Definition} (hd : d.Fits r.entries) :
    ∃ l : ModeLayout, 1 ≤ l.size ∧ 1 ≤ l.alignment ∧ r.sizeOf .unlimited p d = .ok l.size ∧
      r.alignmentOf .unlimited p d = .ok l.alignment ∧ r.lossOf .unlimited p d = .ok l.loss ∧
      r.layoutOf .unlimited p d = .ok l := by
  have hmeasures := measures_of_fits h p hd
  obtain ⟨size, hsize, hspos⟩ := sizeOf_of_measures p hd hmeasures
  obtain ⟨alignment, halign, hapos⟩ := alignmentOf_of_measures p hd hmeasures
  obtain ⟨loss, hloss⟩ := lossOf_of_fits h p hd
  refine ⟨⟨size, alignment, loss⟩, hspos, hapos, hsize, halign, hloss, ?_⟩
  unfold layoutOf Registry.sizeOf Registry.alignmentOf
  rw [hsize, halign, hloss]
  rfl

include h in
/-- A registered name takes the size and the alignment of its layout. -/
theorem extent_of_layoutOf {name : String} {d : Definition} (hd : r.lookup? name = some d)
    {l : ModeLayout} (hl : r.layoutOf .unlimited p d = .ok l) :
    r.extent .unlimited p name = .ok ⟨l.size, l.alignment⟩ := by
  obtain ⟨size, hsize, hrest⟩ := bind_eq_ok_iff.mp hl
  obtain ⟨alignment, halign, hrest⟩ := bind_eq_ok_iff.mp hrest
  obtain ⟨loss, _, hl⟩ := bind_eq_ok_iff.mp hrest
  cases hl
  rw [extent_of_lookup .unlimited p h hd]
  exact measured_eq_ok hsize halign

include h in
/-- A struct that fits has an ordering, with the optimized size. -/
theorem orderingOf_of_fits {names : List String} (hd : (Definition.struct names).Fits r.entries) :
    ∃ order size, r.orderingOf .unlimited names = .ok (order, size) ∧
      r.sizeOf .unlimited .optimized (.struct names) = .ok size := by
  have hmeasures : Measures (r.extent .unlimited .optimized) (r.taken .optimized) names :=
    measures_of_fits h .optimized hd
  obtain ⟨best, hbest, _⟩ := hmeasures.searchAmong_eq hd.1
  refine ⟨best.members.map (·.name), best.size, ?_, ?_⟩
  · unfold orderingOf
    rw [hmeasures.membersOf_eq, ok_bind, hbest]
    rfl
  · unfold Registry.sizeOf
    simp only [Footprint.sizeOf, requireMembers_of_ne_nil hd.1, hmeasures.membersOf_eq, ok_bind,
      hbest]
    rfl

end

/-! ## Reports -/

section

variable {r : Registry} (h : WellFormed r.entries)

include h in
/-- A registered name has a report, made of the layouts of its definition. -/
theorem report_of_registered {name : String} {d : Definition} (hd : r.lookup? name = some d) :
    ∃ report, r.report .unlimited name = .ok report ∧
      r.reportText .unlimited name = .ok report.text ∧
      ∀ p, r.layoutOf .unlimited p d = .ok (report.layout p) := by
  have hfits := h.fits_of_lookup hd
  obtain ⟨unpacked, _, _, _, _, _, hunpacked⟩ := layoutOf_of_fits h .unpacked hfits
  obtain ⟨packed, _, _, _, _, _, hpacked⟩ := layoutOf_of_fits h .packed hfits
  obtain ⟨optimized, _, _, _, _, _, hoptimized⟩ := layoutOf_of_fits h .optimized hfits
  have hreport : ∃ ordering, r.report .unlimited name =
      .ok ⟨name, d.kind, unpacked, packed, optimized, ordering⟩ := by
    unfold report
    rw [resolve_of_some hd, ok_bind, hunpacked, ok_bind, hpacked, ok_bind, hoptimized, ok_bind]
    cases d with
    | atomic size alignment => exact ⟨none, rfl⟩
    | union names => exact ⟨none, rfl⟩
    | struct names =>
      obtain ⟨order, size, horder, _⟩ := orderingOf_of_fits h hfits
      refine ⟨some order, ?_⟩
      simp only [ordering, resolve_of_some hd, ok_bind, horder]
      rfl
  obtain ⟨ordering, hreport⟩ := hreport
  refine ⟨_, hreport, ?_, ?_⟩
  · unfold reportText
    rw [hreport]
    rfl
  · intro p
    cases p with
    | unpacked => exact hunpacked
    | packed => exact hpacked
    | optimized => exact hoptimized

end

end Registry

/-! ## Questions about definitions -/

namespace Question

variable (limit : DigitLimit) (r : Registry) (p : Packing) (d : Definition)

theorem plain_size : (size p (.ofDefinition d)).plain limit r =
    r.sizeOf limit p d >>= fun n => .ok (.integer n) := by
  cases d <;> rfl

theorem plain_alignment : (alignment p (.ofDefinition d)).plain limit r =
    r.alignmentOf limit p d >>= fun n => .ok (.integer n) := by
  cases d <;> rfl

theorem plain_loss : (loss p (.ofDefinition d)).plain limit r =
    r.lossOf limit p d >>= fun n => .ok (.integer n) := by
  cases d with
  | atomic size alignment =>
    have hnone : size - size = 0 := by omega
    show _ = Except.ok (Scalar.integer (size - size))
    rw [hnone]
    rfl
  | struct names => rfl
  | union names => rfl

/-- A definition as it is has the layout that it has in the registry. -/
theorem plain_layout : (layout p (.ofDefinition d)).plain limit r =
    r.layoutOf limit p d >>= fun l =>
      .ok (.integer l.size, .integer l.alignment, .integer l.loss) := by
  have hsize := plain_size limit r p d
  have halign := plain_alignment limit r p d
  have hloss := plain_loss limit r p d
  simp only [plain] at hsize halign hloss ⊢
  rw [hsize, halign, hloss]
  unfold Registry.layoutOf
  simp only [bind_assoc]
  rfl

end Question

/-! ## The law -/

/-- An engine lays out a definition under a packing without a failure. The recursion by name
ends with the same numbers, from nothing and from what the engine remembers: whatever stands
below as many levels as there are names is never asked. -/
structure Workshop.LaysOut (w : Workshop) (e : Engine) (p : Packing) (d : Definition)
    (l : ModeLayout) : Prop where
  size_positive : 1 ≤ l.size
  alignment_positive : 1 ≤ l.alignment
  size_eq : w.answer .unlimited e (.size p (.ofDefinition d)) = .ok (.integer l.size)
  alignment_eq : w.answer .unlimited e (.alignment p (.ofDefinition d)) =
    .ok (.integer l.alignment)
  loss_eq : w.answer .unlimited e (.loss p (.ofDefinition d)) = .ok (.integer l.loss)
  layout_eq : w.answer .unlimited e (.layout p (.ofDefinition d)) =
    .ok (.integer l.size, .integer l.alignment, .integer l.loss)
  ends : ∀ inner depth, w.registry.size ≤ depth →
    Footprint.measured .unlimited p ((w.registry.level .unlimited p)^[depth] inner) d =
      .ok ⟨l.size, l.alignment⟩
  ends_remembering : ∀ inner depth, w.registry.size ≤ depth →
    let known := (Strategy.level .unlimited (some p) w.registry)^[depth] inner
    (runFrom (e.memory p) (Strategy.sizeWith .unlimited (some p) known d)).1 = .ok l.size ∧
      (runFrom (e.memory p) (Strategy.alignmentWith .unlimited (some p) known d)).1 =
        .ok l.alignment

/-- An engine answers on a registered name, and so does the registry's own description. -/
structure Workshop.Reports (w : Workshop) (e : Engine) (name : String) (report : Report) :
    Prop where
  member_eq : ∀ p, w.answer .unlimited e (.member p name) =
    .ok ⟨(report.layout p).size, (report.layout p).alignment⟩
  report_eq : w.answer .unlimited e (.report name) = .ok report
  description_eq : w.description .unlimited name = .ok report.text
  ends : ∀ inner depth p, w.registry.size ≤ depth →
    (w.registry.level .unlimited p)^[depth] inner name =
      .ok ⟨(report.layout p).size, (report.layout p).alignment⟩
  ends_remembering : ∀ inner depth p, w.registry.size ≤ depth →
    (runFrom (e.memory p)
      ((Strategy.level .unlimited (some p) w.registry)^[depth] inner name)).1 =
        .ok ⟨(report.layout p).size, (report.layout p).alignment⟩

namespace Workshop

section

variable {w : Workshop} (hw : w.Sound .unlimited) {e : Engine}
  (he : e.Sound .unlimited w.registry)

include hw he in
theorem Sound.answer_member (p : Packing) {name : String} (hname : name ∈ w.registry.names) :
    w.answer .unlimited e (.member p name) = .ok (w.registry.taken p name) := by
  rw [hw.answer_eq he]
  exact (Registry.extent_of_registered hw.wellFormed p
    ((w.registry.mem_names_iff name).mp hname)).1

include hw he in
/-- A sound engine lays out every definition that fits. -/
theorem Sound.laysOut (p : Packing) {d : Definition} (hd : d.Fits w.registry.entries)
    {l : ModeLayout} (hl : w.registry.layoutOf .unlimited p d = .ok l) : w.LaysOut e p d l := by
  obtain ⟨_, hspos, hapos, hsize, halign, hloss, hlayout⟩ :=
    Registry.layoutOf_of_fits hw.wellFormed p hd
  rw [hlayout] at hl
  cases hl
  refine ⟨hspos, hapos, ?_, ?_, ?_, ?_, ?_, ?_⟩
  · rw [hw.answer_eq he, Question.plain_size, hsize]
    rfl
  · rw [hw.answer_eq he, Question.plain_alignment, halign]
    rfl
  · rw [hw.answer_eq he, Question.plain_loss, hloss]
    rfl
  · rw [hw.answer_eq he, Question.plain_layout, hlayout]
    rfl
  · intro inner depth hdepth
    rw [Footprint.measured_congr fun n hn => Registry.iterate_level .unlimited p hw.wellFormed
      inner (Registry.idxOf_lt_of_size_le (hd.isSome_of_mem hn) hdepth)]
    exact Footprint.measured_eq_ok hsize halign
  · intro inner depth hdepth known
    have hknown : ∀ n ∈ d.references, Gives (Memory.Sound .unlimited p w.registry) (known n)
        (w.registry.extent .unlimited p n) := fun n hn =>
      Strategy.gives_iterate_level hw.wellFormed inner
        (Registry.idxOf_lt_of_size_le (hd.isSome_of_mem hn) hdepth)
    have hgsize := (Strategy.gives_sizeWith hknown ⟨e.memory p, []⟩ (he p)).1
    have hgalign := (Strategy.gives_alignmentWith hknown ⟨e.memory p, []⟩ (he p)).1
    exact ⟨hgsize.trans hsize, hgalign.trans halign⟩

include hw in
/-- A definition that fits has one layout, which all engines give it. -/
theorem Sound.layout (p : Packing) {d : Definition} (hd : d.Fits w.registry.entries) :
    ∃ l : ModeLayout, w.registry.sizeOf .unlimited p d = .ok l.size ∧
      w.registry.alignmentOf .unlimited p d = .ok l.alignment ∧
      w.registry.lossOf .unlimited p d = .ok l.loss ∧ ∀ e ∈ w.engines, w.LaysOut e p d l := by
  obtain ⟨l, _, _, hsize, halign, hloss, hl⟩ := Registry.layoutOf_of_fits hw.wellFormed p hd
  exact ⟨l, hsize, halign, hloss, fun e hmem => hw.laysOut (hw.engines e hmem) p hd hl⟩

include hw he in
/-- A sound engine reports on every registered name. -/
theorem Sound.reports {name : String} {d : Definition} (hd : w.registry.lookup? name = some d) :
    ∃ report, w.Reports e name report ∧ ∀ p, w.LaysOut e p d (report.layout p) := by
  have hfits := hw.wellFormed.fits_of_lookup hd
  have hsome : (w.registry.lookup? name).isSome := by
    rw [hd]
    rfl
  obtain ⟨report, hreport, htext, hlayouts⟩ := Registry.report_of_registered hw.wellFormed hd
  have hextent : ∀ p, w.registry.extent .unlimited p name =
      .ok ⟨(report.layout p).size, (report.layout p).alignment⟩ := fun p =>
    Registry.extent_of_layoutOf hw.wellFormed p hd (hlayouts p)
  refine ⟨report, ⟨?_, ?_, ?_, ?_, ?_⟩, fun p => hw.laysOut he p hfits (hlayouts p)⟩
  · intro p
    rw [hw.answer_eq he]
    exact hextent p
  · rw [hw.answer_eq he]
    exact hreport
  · rw [hw.description_eq]
    exact htext
  · intro inner depth p hdepth
    have hreached := Registry.idxOf_lt_of_size_le hsome hdepth
    rw [Registry.iterate_level .unlimited p hw.wellFormed inner hreached, hextent p]
  · intro inner depth p hdepth
    have hreached := Registry.idxOf_lt_of_size_le hsome hdepth
    have hgives := Strategy.gives_iterate_level hw.wellFormed inner hreached
      ⟨e.memory p, []⟩ (he p)
    exact hgives.1.trans (hextent p)

end

end Workshop

/-- Nothing that was registered, and nothing that is made of it, ever fails to be laid out.
After any run, every engine gives each definition that fits a size and an alignment of at
least 1 and a loss, under each packing. It finds a best ordering for each struct that fits, and
reports on each registered name. -/
theorem every_type_has_a_positive_layout (steps : List Workshop.Step) :
    let w := Workshop.run .unlimited steps
    ∀ e ∈ w.engines,
      (∀ d : Definition, d.Fits w.registry.entries →
        ∀ p, ∃ l, w.LaysOut e p d l) ∧
      (∀ names, (Definition.struct names).Fits w.registry.entries → ∃ order l,
        w.answer .unlimited e (.search names) = .ok (order, l.size) ∧
          order.Perm names ∧ w.LaysOut e .optimized (.struct names) l) ∧
      ∀ name ∈ w.registry.names, ∃ d report, w.registry.lookup? name = some d ∧
        w.Reports e name report ∧
          ∀ p, w.LaysOut e p d (report.layout p) := by
  intro w e hmem
  have hw : w.Sound .unlimited := Workshop.sound_run .unlimited steps
  have he := hw.engines e hmem
  refine ⟨?_, ?_, ?_⟩
  · intro d hd p
    obtain ⟨l, _, _, _, _, _, hl⟩ := Registry.layoutOf_of_fits hw.wellFormed p hd
    exact ⟨l, hw.laysOut he p hd hl⟩
  · intro names hnames
    obtain ⟨order, size, horder, hsize⟩ := Registry.orderingOf_of_fits hw.wellFormed hnames
    obtain ⟨l, _, _, hlsize, _, _, hl⟩ := Registry.layoutOf_of_fits hw.wellFormed .optimized hnames
    refine ⟨order, l, ?_, Registry.perm_of_orderingOf horder, hw.laysOut he .optimized hnames hl⟩
    rw [hsize] at hlsize
    cases hlsize
    rw [hw.answer_eq he]
    exact horder
  · intro name hname
    obtain ⟨d, hd⟩ := Option.isSome_iff_exists.mp ((w.registry.mem_names_iff name).mp hname)
    obtain ⟨report, hreports, hlays⟩ := hw.reports he hd
    exact ⟨d, report, hd, hreports, hlays⟩

/-- Two numbers, a pair that was asked for too early, the pair itself, and one engine. -/
def pairSteps : List Workshop.Step :=
  [.register ⟨"char", .atomic (.integer 1) (.integer 1)⟩, .newEngine,
    .register ⟨"pair", .struct ["char", "int"]⟩,
    .register ⟨"int", .atomic (.integer 4) (.integer 4)⟩,
    .register ⟨"pair", .struct ["char", "int"]⟩]

theorem the_pair_has_a_positive_layout :
    (Workshop.run .unlimited pairSteps).registry.names = ["char", "int", "pair"] ∧
      .empty ∈ (Workshop.run .unlimited pairSteps).engines ∧
      (∃ l, (Workshop.run .unlimited pairSteps).LaysOut .empty .optimized
        (.union ["pair", "char"]) l) ∧
      ∃ report, (Workshop.run .unlimited pairSteps).Reports .empty "pair" report := by
  have hengine : .empty ∈ (Workshop.run .unlimited pairSteps).engines := by decide
  have hunion : (Definition.union ["pair", "char"]).Fits
      (Workshop.run .unlimited pairSteps).registry.entries := ⟨by decide, by decide⟩
  obtain ⟨hdefinitions, _, hnames⟩ := every_type_has_a_positive_layout pairSteps .empty hengine
  obtain ⟨_, report, _, hreports, _⟩ := hnames "pair" (by decide)
  exact ⟨by decide, hengine, hdefinitions _ hunion .optimized, report, hreports⟩

end DataLayout
