-- The laws of names. A layout depends only on the definitions that are reached from a type. What
-- the types are called, when they were registered and what else is registered make no
-- difference, and two types with one definition may become one.
import DataLayout.Proofs.Totality

namespace DataLayout

open Text

/-! ## New names -/

section

variable (image : String → String)

/-- A definition whose references have new names. -/
def Definition.renamed : Definition → Definition
  | .atomic size alignment => .atomic size alignment
  | .struct members => .struct (members.map image)
  | .union variants => .union (variants.map image)

def Member.renamed (m : Member) : Member := ⟨image m.name, m.extent⟩

def Ordered.renamed (o : Ordered) : Ordered := ⟨o.members.map (Member.renamed image), o.size⟩

/-- A report on the new name of a type. Its kind and its layouts stay. -/
def Report.renamed (r : Report) : Report :=
  { r with name := image r.name, ordering := r.ordering.map (List.map image) }

theorem Definition.renamed_id (d : Definition) : d.renamed id = d := by
  cases d <;> simp [renamed]

theorem Report.renamed_id (r : Report) : r.renamed id = r := by
  simp [renamed]

@[simp] theorem Member.map_extent_renamed (members : List Member) :
    (members.map (Member.renamed image)).map (·.extent) = members.map (·.extent) := by
  rw [List.map_map]
  rfl

end

/-! ## The search does not look at names -/

section

variable (image : String → String)

theorem keepSmaller_renamed (best : Option Ordered) (members : List Member) :
    keepSmaller (best.map (Ordered.renamed image)) (members.map (Member.renamed image)) =
      Option.map (Ordered.renamed image) <$> keepSmaller best members := by
  unfold keepSmaller
  rw [Member.map_extent_renamed, map_bind]
  apply bind_congr
  intro size
  cases best with
  | none => rfl
  | some b =>
    by_cases hsmaller : size < b.size
    · simp [hsmaller, Ordered.renamed]
    · simp [hsmaller, Ordered.renamed]

theorem foldlM_keepSmaller_renamed (orders : List (List Member)) (start : Option Ordered) :
    (orders.map (List.map (Member.renamed image))).foldlM keepSmaller
        (start.map (Ordered.renamed image)) =
      Option.map (Ordered.renamed image) <$> orders.foldlM keepSmaller start := by
  induction orders generalizing start with
  | nil => rfl
  | cons order rest ih =>
    rw [List.map_cons, List.foldlM_cons, List.foldlM_cons, keepSmaller_renamed, bind_map_left,
      map_bind]
    exact bind_congr fun next => ih next

/-- The best ordering of renamed members is the best ordering, renamed. -/
theorem bestOrdering_renamed (members : List Member) :
    bestOrdering (members.map (Member.renamed image)) =
      Ordered.renamed image <$> bestOrdering members := by
  have hfold := foldlM_keepSmaller_renamed image (orderings members) none
  unfold bestOrdering
  rw [orderings_map]
  rw [Option.map_none] at hfold
  rw [hfold, bind_map_left, map_bind]
  apply bind_congr
  intro best
  cases best with
  | none => rfl
  | some b => rfl

end

namespace Footprint

section

variable (limit : DigitLimit) (p : Packing) (image : String → String)

theorem searchAmong_renamed (members : List Member) :
    searchAmong limit (members.map (Member.renamed image)) =
      Ordered.renamed image <$> searchAmong limit members := by
  unfold searchAmong
  rw [bestOrdering_renamed, bind_map_left, map_bind]
  apply bind_congr
  intro best
  have hsize : (Ordered.renamed image best).size = best.size := rfl
  rw [hsize]
  split_ifs <;> rfl

/-! ## Definitions -/

variable {f g : String → Except Failure Extent}

theorem membersOf_renamed (names : List String) (h : ∀ n ∈ names, g (image n) = f n) :
    membersOf g (names.map image) =
      List.map (Member.renamed image) <$> membersOf f names := by
  unfold membersOf
  induction names with
  | nil => rfl
  | cons n rest ih =>
    have hn := h n List.mem_cons_self
    have hrest := ih fun m hm => h m (List.mem_cons_of_mem _ hm)
    rw [List.map_cons, List.mapM_cons, List.mapM_cons, hrest, hn]
    cases f n with
    | error failure => rfl
    | ok e =>
      simp only [ok_bind, map_bind, bind_map_left, pure_bind]
      rfl

theorem requireMembers_renamed (names : List String) :
    requireMembers (names.map image) = requireMembers names := by
  simp [requireMembers]

theorem sizeOf_renamed (d : Definition) (h : ∀ n ∈ d.references, g (image n) = f n) :
    sizeOf limit p g (d.renamed image) = sizeOf limit p f d := by
  cases d with
  | atomic size alignment => rfl
  | struct names =>
    simp only [Definition.renamed, sizeOf]
    rw [requireMembers_renamed, membersOf_renamed image names h]
    apply bind_congr
    intro _
    rw [bind_map_left]
    apply bind_congr
    intro members
    cases p with
    | unpacked => rw [Member.map_extent_renamed]
    | packed => rw [Member.map_extent_renamed]
    | optimized =>
      rw [searchAmong_renamed, bind_map_left]
      rfl
  | union names =>
    simp only [Definition.renamed, sizeOf]
    rw [requireMembers_renamed, membersOf_renamed image names h, bind_map_left]
    simp only [List.map_map, Function.comp_def]
    rfl

theorem alignmentOf_renamed (d : Definition) (h : ∀ n ∈ d.references, g (image n) = f n) :
    alignmentOf limit p g (d.renamed image) = alignmentOf limit p f d := by
  cases d with
  | atomic size alignment => rfl
  | struct names =>
    simp only [Definition.renamed, alignmentOf]
    rw [requireMembers_renamed]
    apply requireMembers_bind_congr
    intro hnames
    have hhead : g ((names.map image).headD "") = f (names.headD "") := by
      rw [← h _ (headD_mem hnames "")]
      cases names with
      | nil => exact absurd rfl hnames
      | cons n rest => rfl
    cases p with
    | unpacked => rw [hhead]
    | packed => rw [hhead]
    | optimized =>
      rw [membersOf_renamed image names h, bind_map_left]
      apply bind_congr
      intro members
      rw [searchAmong_renamed, bind_map_left]
      apply bind_congr
      intro best
      cases hbest : best.members with
      | nil => simp [Ordered.renamed, hbest]
      | cons m rest =>
        simp [Ordered.renamed, hbest]
        rfl
  | union names =>
    simp only [Definition.renamed, alignmentOf]
    rw [requireMembers_renamed, membersOf_renamed image names h, bind_map_left]
    simp only [List.map_map, Function.comp_def]
    rfl

theorem measured_renamed (d : Definition) (h : ∀ n ∈ d.references, g (image n) = f n) :
    measured limit p g (d.renamed image) = measured limit p f d := by
  unfold measured
  rw [sizeOf_renamed limit p image d h, alignmentOf_renamed limit p image d h]

end

end Footprint

/-! ## Two registries -/

namespace Registry

open Footprint

/-- Each name that is reached from the given one has its definition in the other registry
too, under its new name and with new names in it. -/
def Carries (r other : Registry) (image : String → String) (name : String) : Prop :=
  ∀ n, Relation.ReflTransGen r.Refers name n → ∀ d, r.lookup? n = some d →
    other.lookup? (image n) = some (d.renamed image)

variable {r other : Registry} {image : String → String}

theorem Carries.of_refers {name n : String} (h : r.Carries other image name)
    (hr : r.Refers name n) : r.Carries other image n :=
  fun m hm => h m (hm.head hr)

section

variable (limit : DigitLimit) (p : Packing) (hr : WellFormed r.entries)
  (hother : WellFormed other.entries)

include hr hother in
/-- A carried name takes what it takes where it comes from. -/
theorem extent_of_carries {name : String} (hname : (r.lookup? name).isSome)
    (h : r.Carries other image name) :
    other.extent limit p (image name) = r.extent limit p name := by
  -- Along the references of the one registry: in the other one they only have new names.
  induction name using (wellFounded_refers hr).induction with
  | _ name ih =>
    obtain ⟨d, hd⟩ := Option.isSome_iff_exists.mp hname
    have hd' := h name .refl d hd
    rw [extent_of_lookup limit p hr hd, extent_of_lookup limit p hother hd']
    apply measured_renamed limit p image d
    intro n hn
    have hrefers : r.Refers name n := ⟨d, hd, hn⟩
    exact ih n hrefers ((hr.fits_of_lookup hd).isSome_of_mem hn) (h.of_refers hrefers)

end

/-! ## Layouts of carried definitions -/

section

variable (limit : DigitLimit) (p : Packing) {d : Definition}
  (h : ∀ p, ∀ n ∈ d.references, other.extent limit p (image n) = r.extent limit p n)

theorem packedSizes_renamed (total : Int) (names : List String)
    (h : ∀ p, ∀ n ∈ names, other.extent limit p (image n) = r.extent limit p n) :
    other.packedSizes limit p total (names.map image) = r.packedSizes limit p total names := by
  induction names with
  | nil => rfl
  | cons n rest ih =>
    have hn := fun p => h p n List.mem_cons_self
    have hrest := ih fun p m hm => h p m (List.mem_cons_of_mem _ hm)
    simp only [List.map_cons, packedSizes]
    rw [hn p, hn .packed, hrest]

include h

theorem lossOf_renamed : other.lossOf limit p (d.renamed image) = r.lossOf limit p d := by
  have hsize : ∀ p, other.sizeOf limit p (d.renamed image) = r.sizeOf limit p d :=
    fun p => sizeOf_renamed limit p image d (h p)
  unfold lossOf
  rw [hsize p]
  apply bind_congr
  intro total
  cases d with
  | atomic size alignment => rfl
  | struct names =>
    have hpacked := hsize .packed
    simp only [Definition.renamed] at hpacked ⊢
    rw [hpacked]
  | union names =>
    simp only [Definition.renamed]
    rw [packedSizes_renamed limit p total names h]

theorem layoutOf_renamed : other.layoutOf limit p (d.renamed image) = r.layoutOf limit p d := by
  have hsize : other.sizeOf limit p (d.renamed image) = r.sizeOf limit p d :=
    sizeOf_renamed limit p image d (h p)
  have halign : other.alignmentOf limit p (d.renamed image) = r.alignmentOf limit p d :=
    alignmentOf_renamed limit p image d (h p)
  unfold layoutOf
  rw [hsize, halign, lossOf_renamed limit p h]

end

theorem orderingOf_renamed (limit : DigitLimit) (names : List String)
    (h : ∀ n ∈ names, other.extent limit .optimized (image n) = r.extent limit .optimized n) :
    other.orderingOf limit (names.map image) =
      (fun found => (found.1.map image, found.2)) <$> r.orderingOf limit names := by
  unfold orderingOf
  rw [membersOf_renamed image names h, bind_map_left, map_bind]
  apply bind_congr
  intro members
  rw [searchAmong_renamed, bind_map_left, map_bind]
  apply bind_congr
  intro best
  have hnames : (best.renamed image).members.map (·.name) =
      (best.members.map (·.name)).map image := by
    simp only [Ordered.renamed, List.map_map]
    rfl
  rw [hnames]
  rfl

/-- The report on a carried name is the report from where it comes, renamed. -/
theorem report_of_carries (limit : DigitLimit) (hr : WellFormed r.entries)
    (hother : WellFormed other.entries) {name : String} (hname : (r.lookup? name).isSome)
    (h : r.Carries other image name) :
    other.report limit (image name) = Report.renamed image <$> r.report limit name := by
  obtain ⟨d, hd⟩ := Option.isSome_iff_exists.mp hname
  have hd' := h name .refl d hd
  have hextents : ∀ p, ∀ n ∈ d.references,
      other.extent limit p (image n) = r.extent limit p n := fun p n hn =>
    extent_of_carries limit p hr hother ((hr.fits_of_lookup hd).isSome_of_mem hn)
      (h.of_refers ⟨d, hd, hn⟩)
  unfold report
  rw [resolve_of_some hd, resolve_of_some hd']
  simp only [ok_bind, layoutOf_renamed limit _ hextents, map_bind]
  apply bind_congr
  intro unpacked
  apply bind_congr
  intro packed
  apply bind_congr
  intro optimized
  cases d with
  | atomic size alignment => rfl
  | union names => rfl
  | struct names =>
    have horder := orderingOf_renamed limit names (hextents .optimized)
    simp only [Definition.renamed] at hd'
    simp only [Definition.renamed, ordering, resolve_of_some hd, resolve_of_some hd', ok_bind,
      horder, bind_map_left, pure_bind, map_bind]
    rfl

/-! ## Ways to carry a registry -/

/-- A registry that knows everything that another one knows carries its names as they are. -/
theorem carries_id_of_lookup? (h : ∀ n d, r.lookup? n = some d → other.lookup? n = some d)
    (name : String) : r.Carries other id name := by
  intro n _ d hd
  rw [d.renamed_id]
  exact h n d hd

/-- It is enough to carry every entry. -/
theorem carries_of_entries (hr : WellFormed r.entries)
    (h : ∀ e ∈ r.entries, other.lookup? (image e.name) = some (e.definition.renamed image))
    (name : String) : r.Carries other image name :=
  fun n _ d hd => h ⟨n, d⟩ ((hr.definitionIn?_eq_some_iff n d).mp hd)

/-- The same entries in another order give the same look-ups. -/
theorem lookup?_of_perm (hr : WellFormed r.entries) (hother : WellFormed other.entries)
    (hperm : other.entries.Perm r.entries) {name : String} {d : Definition}
    (hd : r.lookup? name = some d) : other.lookup? name = some d := by
  have hmem := (hr.definitionIn?_eq_some_iff name d).mp hd
  exact (hother.definitionIn?_eq_some_iff name d).mpr (hperm.mem_iff.mpr hmem)

/-- The names that become one name have one definition, once it is renamed. -/
def Merges (r : Registry) (image : String → String) : Prop :=
  ∀ n m d d', r.lookup? n = some d → r.lookup? m = some d' → image n = image m →
    d.renamed image = d'.renamed image

/-- The calls that register the same types again under new names, the oldest first. -/
def callsAs (r : Registry) (image : String → String) : List Call :=
  r.entries.reverse.map fun e => ⟨image e.name, .ofDefinition (e.definition.renamed image)⟩

end Registry

/-- A renamed definition fits where all its new names are known. -/
theorem Definition.Fits.renamed {older entries : List Entry} {d : Definition}
    {image : String → String} (h : d.Fits older)
    (hknown : ∀ n, (definitionIn? older n).isSome → (definitionIn? entries (image n)).isSome) :
    (d.renamed image).Fits entries := by
  have hnames : ∀ names : List String, (∀ n ∈ names, (definitionIn? older n).isSome) →
      ∀ m ∈ names.map image, (definitionIn? entries m).isSome := by
    intro names hall m hm
    obtain ⟨n, hn, rfl⟩ := List.mem_map.mp hm
    exact hknown n (hall n hn)
  cases d with
  | atomic size alignment => exact h
  | struct names => exact ⟨by simpa using h.1, hnames names h.2⟩
  | union names => exact ⟨by simpa using h.1, hnames names h.2⟩

namespace Registry

/-- After a call for a definition the name has it, if it is free and the definition fits, or if
it had the same one before. -/
theorem lookup?_call_self (limit : DigitLimit) {r : Registry} {name : String} {d : Definition}
    (hfree : r.lookup? name = none → d.Fits r.entries)
    (htaken : ∀ d', r.lookup? name = some d' → d' = d) :
    (r.call limit ⟨name, .ofDefinition d⟩).2.lookup? name = some d := by
  cases hbefore : r.lookup? name with
  | some d' =>
    rw [lookup?_call limit hbefore, htaken d' hbefore]
  | none =>
    have hcheck : r.check name d = .ok () :=
      (check_eq_ok_iff _ _ _).mpr ⟨hbefore, hfree hbefore⟩
    rw [call_of_check limit (Offer.definition?_ofDefinition d) hcheck]
    exact definitionIn?_cons_self _ _

/-- Registering everything again under new names carries every name, if the names that
become one may do so. Nothing else gets registered. -/
theorem lookup?_callsAs (limit : DigitLimit) {r : Registry} (hr : WellFormed r.entries)
    {image : String → String} (hmerge : r.Merges image) :
    (∀ n d, r.lookup? n = some d →
      (ofCalls limit (r.callsAs image)).lookup? (image n) = some (d.renamed image)) ∧
    ∀ m, ((ofCalls limit (r.callsAs image)).lookup? m).isSome →
      ∃ n d, r.lookup? n = some d ∧ image n = m := by
  obtain ⟨entries⟩ := r
  induction entries with
  | nil =>
    refine ⟨?_, ?_⟩
    · intro n d hd
      cases hd
    · intro m hm
      cases hm
  | cons e older ih =>
    obtain ⟨hnew, hfits, hold⟩ := hr
    have holder : ∀ n d, definitionIn? older n = some d →
        definitionIn? (e :: older) n = some d := fun n d hd => definitionIn?_cons_of_some hnew hd
    obtain ⟨hkeep, honly⟩ := ih hold fun n m d d' hd hd' =>
      hmerge n m d d' (holder n d hd) (holder m d' hd')
    generalize hcall : (⟨image e.name, .ofDefinition (e.definition.renamed image)⟩ : Call) = c
    have hlast : ofCalls limit (callsAs ⟨e :: older⟩ image) =
        ((ofCalls limit (callsAs ⟨older⟩ image)).call limit c).2 := by
      simp [ofCalls, afterCalls, callsAs, List.foldl_append, hcall]
    rw [hlast]
    generalize ofCalls limit (callsAs ⟨older⟩ image) = before at hkeep honly
    have hself : (before.call limit c).2.lookup? (image e.name) =
        some (e.definition.renamed image) := by
      subst hcall
      refine lookup?_call_self limit ?_ ?_
      · intro _
        apply hfits.renamed
        intro n hn
        obtain ⟨d, hd⟩ := Option.isSome_iff_exists.mp hn
        exact Option.isSome_iff_exists.mpr ⟨_, hkeep n d hd⟩
      · intro d hd
        -- A name that is taken was taken by one that becomes the same, so by the same definition.
        obtain ⟨n, d', hd', himage⟩ := honly (image e.name) (by rw [hd]; rfl)
        have hsame := hkeep n d' hd'
        rw [himage, hd] at hsame
        rw [Option.some.inj hsame]
        exact hmerge n e.name d' e.definition (holder n d' hd') (definitionIn?_cons_self e older)
          himage
    refine ⟨?_, ?_⟩
    · intro n d hd
      by_cases hname : e.name = n
      · subst hname
        have hd' : definitionIn? (e :: older) e.name = some d := hd
        rw [definitionIn?_cons_self] at hd'
        cases hd'
        exact hself
      · have hd' : definitionIn? older n = some d := by
          rw [← definitionIn?_cons_of_ne older hname]
          exact hd
        exact lookup?_call limit (hkeep n d hd') c
    · intro m hm
      rcases isSome_lookup?_of_call limit hm with hmc | hbefore
      · exact ⟨e.name, e.definition, definitionIn?_cons_self e older, by rw [hmc, ← hcall]⟩
      · obtain ⟨n, d, hd, himage⟩ := honly m hbefore
        exact ⟨n, d, holder n d hd, himage⟩

end Registry

/-! ## Runs -/

namespace Workshop

variable {limit : DigitLimit} {w : Workshop}

/-- No step changes what a registered name stands for. -/
theorem Sound.lookup?_after (hw : w.Sound limit) (s : Step) {name : String} {d : Definition}
    (h : w.registry.lookup? name = some d) : (w.after limit s).registry.lookup? name = some d := by
  rw [hw.registry_after s]
  cases s with
  | register call => exact Registry.lookup?_call limit h call
  | newEngine => exact h
  | ask i q => exact h
  | describe asked => exact h

theorem lookup?_run_append (limit : DigitLimit) (steps more : List Step) {name : String}
    {d : Definition} (h : (run limit steps).registry.lookup? name = some d) :
    (run limit (steps ++ more)).registry.lookup? name = some d := by
  have hfold : ∀ w : Workshop, w.Sound limit → w.registry.lookup? name = some d →
      (more.foldl (after limit) w).registry.lookup? name = some d := by
    induction more with
    | nil => exact fun w _ h => h
    | cons s rest ih => exact fun w hw h => ih (w.after limit s) (hw.after s) (hw.lookup?_after s h)
  unfold run
  rw [List.foldl_append]
  exact hfold _ (sound_run limit steps) h

/-- The answer of a sound engine on a carried name is the report from where it comes. -/
theorem Sound.report_of_carries {other : Workshop} (hw : w.Sound .unlimited)
    (hother : other.Sound .unlimited) {image : String → String} {name : String} {report : Report}
    (hname : (w.registry.lookup? name).isSome)
    (h : w.registry.Carries other.registry image name)
    (hreport : w.registry.report .unlimited name = .ok report) {e : Engine}
    (he : e.Sound .unlimited other.registry) :
    other.answer .unlimited e (.report (image name)) = .ok (report.renamed image) := by
  have hsame := Registry.report_of_carries .unlimited hw.wellFormed hother.wellFormed hname h
  rw [hreport] at hsame
  rw [hother.answer_eq he]
  exact hsame

end Workshop

/-! ## The law -/

/-- The report on a registered name is the same wherever the definitions that it reaches are the
same. New names in them only rename it. So later steps, another order of registration and new
names for all types, with like ones merged, change no layout. -/
theorem a_report_depends_only_on_the_reached_definitions (steps : List Workshop.Step)
    (name : String) :
    let w := Workshop.run .unlimited steps
    name ∈ w.registry.names → ∀ e ∈ w.engines, ∃ report,
      w.answer .unlimited e (.report name) = .ok report ∧
      (∀ (others : List Workshop.Step) (image : String → String),
        let other := Workshop.run .unlimited others
        w.registry.Carries other.registry image name → ∀ e' ∈ other.engines,
          other.answer .unlimited e' (.report (image name)) =
            .ok (report.renamed image)) ∧
      (∀ more : List Workshop.Step,
        let later := Workshop.run .unlimited (steps ++ more)
        ∀ e' ∈ later.engines,
          later.answer .unlimited e' (.report name) = .ok report) ∧
      (∀ others : List Workshop.Step,
        let other := Workshop.run .unlimited others
        other.registry.entries.Perm w.registry.entries → ∀ e' ∈ other.engines,
          other.answer .unlimited e' (.report name) = .ok report) ∧
      ∀ image : String → String, w.registry.Merges image →
        (Workshop.new (.ofCalls .unlimited (w.registry.callsAs image))).answer .unlimited .empty
          (.report (image name)) = .ok (report.renamed image) := by
  intro w hname e hmem
  have hw : w.Sound .unlimited := Workshop.sound_run .unlimited steps
  have hsome := (w.registry.mem_names_iff name).mp hname
  obtain ⟨d, hd⟩ := Option.isSome_iff_exists.mp hsome
  obtain ⟨report, hreport, _⟩ := Registry.report_of_registered hw.wellFormed hd
  have hcarried : ∀ {other : Workshop}, other.Sound .unlimited → ∀ {image : String → String},
      w.registry.Carries other.registry image name →
      ∀ {e : Engine}, e.Sound .unlimited other.registry →
        other.answer .unlimited e (.report (image name)) = .ok (report.renamed image) :=
    fun hother _ h _ he => hw.report_of_carries hother hsome h hreport he
  refine ⟨report, ?_, ?_, ?_, ?_, ?_⟩
  · rw [hw.answer_eq (hw.engines e hmem)]
    exact hreport
  · intro others image other h e' he'
    have hother : other.Sound .unlimited := Workshop.sound_run .unlimited others
    exact hcarried hother h (hother.engines e' he')
  · intro more later e' he'
    have hlater : later.Sound .unlimited := Workshop.sound_run .unlimited (steps ++ more)
    have hknown : ∀ n d, w.registry.lookup? n = some d → later.registry.lookup? n = some d :=
      fun n d hd => Workshop.lookup?_run_append .unlimited steps more hd
    have hanswer := hcarried hlater (Registry.carries_id_of_lookup? hknown name)
      (hlater.engines e' he')
    rwa [report.renamed_id] at hanswer
  · intro others other hperm e' he'
    have hother : other.Sound .unlimited := Workshop.sound_run .unlimited others
    have hknown : ∀ n d, w.registry.lookup? n = some d → other.registry.lookup? n = some d :=
      fun n d hd => Registry.lookup?_of_perm hw.wellFormed hother.wellFormed hperm hd
    have hanswer := hcarried hother (Registry.carries_id_of_lookup? hknown name)
      (hother.engines e' he')
    rwa [report.renamed_id] at hanswer
  · intro image hmerge
    have hnew : (Workshop.new (.ofCalls .unlimited (w.registry.callsAs image))).Sound .unlimited :=
      Workshop.sound_new (Registry.wellFormed_ofCalls .unlimited _)
    have hknown := (Registry.lookup?_callsAs .unlimited hw.wellFormed hmerge).1
    exact hcarried hnew (fun n _ d hd => hknown n d hd) Engine.sound_empty

/-- A pair with two types of one byte. -/
def twoBytes : List Workshop.Step :=
  [.register ⟨"byte", .atomic (.integer 1) (.integer 1)⟩,
    .register ⟨"int", .atomic (.integer 4) (.integer 4)⟩,
    .register ⟨"char", .atomic (.integer 1) (.integer 1)⟩,
    .register ⟨"pair", .struct ["char", "int", "byte"]⟩, .newEngine]

/-- The same pair where one type stands for both, among others and in another order. -/
def oneByte : List Workshop.Step :=
  [.newEngine, .register ⟨"i", .atomic (.integer 4) (.integer 4)⟩,
    .register ⟨"word", .atomic (.integer 8) (.integer 8)⟩,
    .register ⟨"b", .atomic (.integer 1) (.integer 1)⟩,
    .register ⟨"p", .struct ["b", "i", "b"]⟩, .register ⟨"either", .union ["word", "p"]⟩]

def shortName (name : String) : String :=
  if name = "pair" then "p" else if name = "int" then "i" else "b"

theorem the_merged_pair_keeps_its_report :
    .empty ∈ (Workshop.run .unlimited twoBytes).engines ∧
      .empty ∈ (Workshop.run .unlimited oneByte).engines ∧ ∃ report,
        (Workshop.run .unlimited twoBytes).answer .unlimited .empty (.report "pair") =
          .ok report ∧
        (Workshop.run .unlimited oneByte).answer .unlimited .empty (.report "p") =
          .ok (report.renamed shortName) := by
  have hfirst : .empty ∈ (Workshop.run .unlimited twoBytes).engines := by decide
  have hsecond : .empty ∈ (Workshop.run .unlimited oneByte).engines := by decide
  have hcarries : (Workshop.run .unlimited twoBytes).registry.Carries
      (Workshop.run .unlimited oneByte).registry shortName "pair" :=
    Registry.carries_of_entries (Workshop.sound_run .unlimited twoBytes).wellFormed (by decide) _
  obtain ⟨report, hreport, hother, _⟩ :=
    a_report_depends_only_on_the_reached_definitions twoBytes "pair" (by decide) .empty hfirst
  exact ⟨hfirst, hsecond, report, hreport, hother oneByte shortName hcarries .empty hsecond⟩

end DataLayout
